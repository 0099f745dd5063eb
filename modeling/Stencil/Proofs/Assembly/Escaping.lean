import Stencil.Proofs.Assembly.Reads
import Stencil.Proofs.Grammar.Escaping
import Stencil.Proofs.Render.Execute

namespace Stencil

open Assembly Stmt

/-- Whether an output is escaped, and whether an include is one of the admitted ones. -/
def Stmt.Admits (included : String → Prop) : Stmt → Prop
  | .output _ _ escape => escape = true
  | .include _ name => included name
  | _ => True

/-- Whether all outputs of a template that stands under a name are escaped, and those of all
templates that are read for it. -/
structure Plan.Escapes (p : Plan) (name : String) (t : Template) : Prop where
  own : OutputsEscape t.body
  read : ∀ other found, p.Reads name t other → p.found other = .ok found →
    OutputsEscape found.template.body

abbrev Assembly.Escapes (x : Assembly (List Code)) : Prop :=
  Step.Ensures (fun _ => True) Code.EscapesAll x

section Assemble

variable {p : Plan} {template : Option String} {place : Place} {included : String → Prop}

theorem Place.mark_escapes (place : Place) (pos : Pos) : Code.EscapesAll (place.mark pos) := by
  unfold Place.mark
  split
  · trivial
  · exact ⟨trivial, trivial⟩

theorem Place.marked_escapes {place : Place} {pos : Pos} {code : List Code}
    (escapes : Code.EscapesAll code) : Code.EscapesAll (place.mark pos ++ code) :=
  Code.escapesAll_append.mpr ⟨place.mark_escapes pos, escapes⟩

theorem checked {α : Type} (x : Except Fault α) :
    Step.Ensures (fun _ : Trail => True) (fun _ => True) (Assembly.ofExcept x) :=
  .mk_pure (Except.gives_true x)

mutual

theorem assemble_escapes
    (hplace : ∀ locals name, included name → Assembly.Escapes (place.expand locals name))
    {locals : List String} : (s : Stmt) → (∀ leaf ∈ s.leaves, leaf.Admits included) →
      Assembly.Escapes (assemble p template place locals s)
  | .text _ value, _ => by
      rw [assemble]
      split
      · exact .pure trivial
      · exact .pure ⟨trivial, trivial⟩
  | .output pos value escape, admits => by
      rw [assemble]
      have isEscaped : escape = true := admits (.output pos value escape) List.mem_cons_self
      exact (checked _).bind fun _ _ => .pure (Place.marked_escapes ⟨isEscaped, trivial⟩)
  | .branch _ _ body others otherwise, admits => by
      simp only [leaves, List.forall_mem_append] at admits
      rw [assemble]
      apply (assembleAll_escapes hplace body admits.1).bind
      intro body hbody
      apply (assembleAll_escapes hplace otherwise admits.2.2).bind
      intro otherwise hotherwise
      apply (checked _).bind
      intro _ _
      apply (assembleOthers_escapes hplace others admits.2.1).bind
      intro others hothers
      exact .pure (Place.marked_escapes ⟨⟨hbody, hothers, hotherwise⟩, trivial⟩)
  | .loop _ target _ body empty, admits => by
      simp only [leaves, List.forall_mem_append] at admits
      rw [assemble]
      apply (checked _).bind
      intro tracked _
      apply (checked _).bind
      intro _ _
      apply (assembleAll_escapes hplace body admits.1).bind
      intro body hbody
      apply (assembleAll_escapes hplace empty admits.2).bind
      intro empty hempty
      exact .pure (Place.marked_escapes ⟨⟨hbody, hempty⟩, trivial⟩)
  | .while _ _ body, admits => by
      rw [assemble]
      apply (assembleAll_escapes hplace body admits).bind
      intro body hbody
      exact (checked _).bind fun _ _ => .pure (Place.marked_escapes ⟨hbody, trivial⟩)
  | .block _ _ body, admits => by
      rw [assemble]
      exact assembleAll_escapes hplace body admits
  | .include pos name, admits => by
      rw [assemble]
      have admitted : included name := admits (.include pos name) List.mem_cons_self
      exact (hplace locals name admitted).bind fun _ escapes => .pure (Place.marked_escapes escapes)
  | .set _ _ _, _ => by
      rw [assemble]
      exact (checked _).bind fun _ _ => .pure (Place.marked_escapes ⟨trivial, trivial⟩)
  | .spaceless _ body, admits => by
      rw [assemble]
      exact (assembleAll_escapes hplace body admits).bind fun body hbody => .pure ⟨hbody, trivial⟩
  | .debug _ none _, _ => by
      rw [assemble]
      exact .pure (Place.marked_escapes ⟨trivial, trivial⟩)
  | .debug _ (some _) _, _ => by
      rw [assemble]
      exact (checked _).bind fun _ _ => .pure (Place.marked_escapes ⟨trivial, trivial⟩)

theorem assembleAll_escapes
    (hplace : ∀ locals name, included name → Assembly.Escapes (place.expand locals name))
    {locals : List String} : (body : List Stmt) → (∀ leaf ∈ leavesOf body, leaf.Admits included) →
      Assembly.Escapes (assembleAll p template place locals body)
  | [], _ => by
      rw [assembleAll]
      exact .pure trivial
  | s :: rest, admits => by
      rw [leavesOf, List.forall_mem_append] at admits
      rw [assembleAll]
      apply (assemble_escapes hplace s admits.1).bind
      intro code escapes
      apply (assembleAll_escapes hplace rest admits.2).bind
      intro more escapesMore
      exact .pure (Code.escapesAll_append.mpr ⟨escapes, escapesMore⟩)

theorem assembleOthers_escapes
    (hplace : ∀ locals name, included name → Assembly.Escapes (place.expand locals name))
    {locals : List String} : (others : List (Expr × List Stmt)) →
      (∀ leaf ∈ leavesOfOthers others, leaf.Admits included) →
      Step.Ensures (fun _ => True) Code.EscapesOthers
        (assembleOthers p template place locals others)
  | [], _ => by
      rw [assembleOthers]
      exact .pure trivial
  | (_, body) :: rest, admits => by
      rw [leavesOfOthers, List.forall_mem_append] at admits
      rw [assembleOthers]
      apply (checked _).bind
      intro _ _
      apply (assembleAll_escapes hplace body admits.1).bind
      intro body hbody
      exact (assembleOthers_escapes hplace rest admits.2).bind fun _ escapes =>
        .pure ⟨hbody, escapes⟩

end

end Assemble

namespace Plan

variable {p : Plan}

/-- Whether the template of a name, if there is one, escapes its outputs with all that it reads. -/
def Admitted (p : Plan) (name : String) : Prop :=
  ∀ found, p.found name = .ok found → p.Escapes name found.template

theorem Escapes.flatten {t : Template} {name : String} {flat : Template × List String}
    (escapes : p.Escapes name t) (hflatten : p.flatten t name = .ok flat) :
    ∀ leaf ∈ leavesOf flat.1.body, leaf.Admits p.Admitted := by
  have escaped : ∀ leaf ∈ leavesOf flat.1.body,
      ∀ pos value escape, leaf = .output pos value escape → escape = true := by
    refine Chain.flatten_leaves hflatten ?_ ?_
    · rintro leaf member pos value escape rfl
      exact escapes.own pos value escape member
    · rintro other found isAncestor loaded leaf member pos value escape rfl
      exact escapes.read other found (.ancestor isAncestor) loaded pos value escape member
  intro leaf member
  cases leaf with
  | output pos value escape => exact escaped _ member pos value escape rfl
  | «include» pos inner =>
      intro found loaded
      have isIncluded : Includes flat.1.body inner := ⟨pos, member⟩
      refine ⟨escapes.read inner found (.included hflatten isIncluded) loaded, ?_⟩
      intro other target reads
      exact escapes.read other target (.within hflatten isIncluded loaded reads)
  | _ => trivial

theorem expandInclude_escapes {template : Option String} {room : Nat}
    {stack locals : List String} {name : String} (admitted : p.Admitted name) :
    Assembly.Escapes (expandInclude p template room stack locals name) := by
  induction room generalizing stack locals name with
  | zero =>
      rw [expandInclude.eq_def]
      dsimp only
      split
      · exact .throw _
      · exact .throw _
  | succ room ih =>
      rw [expandInclude.eq_def]
      dsimp only
      split
      · exact .throw _
      · cases hflat : p.flattened name with
        | error fault =>
            dsimp only
            split
            · exact (Step.Ensures.modify fun _ _ => trivial).bind fun _ _ => .pure trivial
            · exact .throw _
        | ok flat =>
            obtain ⟨found, inner, loaded, hflatten, rfl⟩ := flattened_ok hflat
            have admits := (admitted found loaded).flatten hflatten
            apply (Step.Ensures.modify fun _ _ => trivial).bind
            intro _ _
            exact assembleAll_escapes (fun locals name => ih) inner.1.body admits

/-- Whether nothing in a source, and in the templates that are read for it, asks for outputs as they
are. -/
structure EscapesSource (p : Plan) (s : Source) : Prop where
  own : s.Escapes
  read : ∀ t name sheet, p.parse s = .ok t → p.Reads (firstGiven [s.name] "<string>") t name →
    p.sheet name = .ok sheet → Source.Escapes ⟨sheet.text, some name, sheet.filename⟩

theorem outputsEscape_of_parse {s : Source} {t : Template} (escapes : s.Escapes)
    (hparse : p.parse s = .ok t) : OutputsEscape t.body := by
  unfold parse at hparse
  split at hparse
  · next written =>
      cases hparse
      exact escapes.template written
  · cases hparse

theorem EscapesSource.parsed {s : Source} {t : Template} (escapes : p.EscapesSource s)
    (hparse : p.parse s = .ok t) : p.Escapes (firstGiven [s.name] "<string>") t where
  own := outputsEscape_of_parse escapes.own hparse
  read other found reads loaded := by
    obtain ⟨sheet, hsheet, hother, _⟩ := found_ok loaded
    exact outputsEscape_of_parse (escapes.read t other sheet hparse reads hsheet) hother

theorem EscapesSource.assemble {s : Source} {a : Assembled} {u : Trail}
    (escapes : p.EscapesSource s) (run : (p.assemble s).run {} = (.ok a, u)) :
    Code.EscapesAll a.code := by
  obtain ⟨t, flat, hparse, hflatten, runBody, _⟩ := assemble_ok run
  have written : Assembly.Escapes (assembleAll p s.name
      ⟨false, expandInclude p s.name p.limits.depth.toNat [firstGiven [s.name] unnamed]⟩ []
      flat.1.body) :=
    assembleAll_escapes (fun _ _ => expandInclude_escapes) flat.1.body
      ((escapes.parsed hparse).flatten hflatten)
  exact (written {} trivial).2 a.code (by rw [runBody])

end Plan

end Stencil
