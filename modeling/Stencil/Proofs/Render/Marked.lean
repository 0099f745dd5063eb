import Stencil.Proofs.Render.Traced

namespace Stencil

namespace Code

section Marked

variable (tag : Nat → Code → Prop)

mutual

/-- Whether each tag of code comes directly after the mark of a line that suits it. -/
inductive MarkedAll : List Code → Prop
  | nil : MarkedAll []
  | text {value : String} {rest : List Code} : MarkedAll rest → MarkedAll (.text value :: rest)
  | spaceless {body rest : List Code} : MarkedAll body → MarkedAll rest →
      MarkedAll (.spaceless body :: rest)
  | tag {line : Nat} {c : Code} {rest : List Code} : tag line c → MarkedWithin c →
      MarkedAll rest → MarkedAll (.mark line :: c :: rest)

inductive MarkedWithin : Code → Prop
  | output {value : Expr} {escape : Bool} : MarkedWithin (.output value escape)
  | branch {condition : Expr} {body otherwise : List Code} {others : List (Expr × List Code)} :
      MarkedAll body → (∀ other ∈ others, MarkedAll other.2) → MarkedAll otherwise →
        MarkedWithin (.branch condition body others otherwise)
  | loop {target : Target} {tracked : Bool} {items : Expr} {body empty : List Code} :
      MarkedAll body → MarkedAll empty → MarkedWithin (.loop target tracked items body empty)
  | while {condition : Expr} {body : List Code} : MarkedAll body →
      MarkedWithin (.while condition body)
  | set {name : String} {value : Expr} : MarkedWithin (.set name value)
  | debug {value : Option Expr} {label : String} : MarkedWithin (.debug value label)

end

/-- Whether code can begin in a world: its first tag comes after a mark, or the mark was just
carried out. -/
inductive Ready : List Code → World → Prop
  | marked {code : List Code} {w : World} : MarkedAll tag code → Ready code w
  | tag {c : Code} {rest : List Code} {w : World} : tag w.line c → MarkedWithin tag c →
      MarkedAll tag rest → Ready (c :: rest) w

end Marked

variable {tag : Nat → Code → Prop}

theorem MarkedAll.append {first second : List Code} :
    MarkedAll tag first → MarkedAll tag second → MarkedAll tag (first ++ second)
  | .nil, second => second
  | .text rest, second => .text (rest.append second)
  | .spaceless body rest, second => .spaceless body (rest.append second)
  | .tag suits inside rest, second => .tag suits inside (rest.append second)

end Code

open Code

variable {s : Setting} {tag : Nat → Code → Prop}

theorem Code.MarkedWithin.bodies {c : Code} (inside : MarkedWithin tag c) :
    ∀ part ∈ c.bodies, MarkedAll tag part := by
  cases inside with
  | branch body others otherwise =>
      refine List.forall_mem_cons.mpr ⟨body, List.forall_mem_cons.mpr ⟨otherwise, ?_⟩⟩
      exact List.forall_mem_map.mpr others
  | loop body empty =>
      exact List.forall_mem_cons.mpr ⟨body, List.forall_mem_singleton.mpr empty⟩
  | «while» body => exact List.forall_mem_singleton.mpr body
  | output | set | debug => exact List.forall_mem_nil _

theorem Enters.marked {c : Code} {part : List Code} {w u : World} (enters : Enters s c w part u)
    (inside : MarkedWithin tag c) : MarkedAll tag part :=
  inside.bodies part enters.mem_bodies

/-- A statement that code comes to, and that does something itself, is a tag of the current line. -/
theorem Reaches.suits {code : List Code} {c : Code} {w here there after : World}
    {result : Except Fault Unit} (reaches : Reaches s code w c here) (ready : Ready tag code w)
    (does : c.Does s here there result after) : tag here.line c := by
  induction reaches with
  | first =>
      cases ready with
      | tag suits _ _ => exact suits
      | marked marked =>
          -- No expression of a text, of a mark or of a part without blanks is evaluated.
          cases marked with
          | text _ | spaceless _ _ | tag _ _ _ =>
              cases does with
              | evaluates impossible _ => cases impossible
  | further run _ ih =>
      refine ih ?_ does
      cases ready with
      | tag _ _ rest => exact .marked rest
      | marked marked =>
          cases marked with
          | text rest => exact .marked rest
          | spaceless _ rest => exact .marked rest
          | tag suits inside rest =>
              cases run
              exact .tag suits inside rest
  | within enters _ ih =>
      refine ih ?_ does
      cases ready with
      | tag _ inside _ => exact .marked (enters.marked inside)
      | marked marked =>
          cases marked with
          | text _ | tag _ _ _ => cases enters
          | spaceless body _ =>
              cases enters
              exact .marked body

end Stencil
