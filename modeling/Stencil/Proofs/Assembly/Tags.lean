import Stencil.Proofs.Assembly.Escaping
import Stencil.Proofs.Grammar.Order
import Stencil.Proofs.Render.Marked

namespace Stencil

namespace Stmt

/-- Whether code is what a statement is assembled to, up to what stands inside of it. -/
inductive TagOf : Stmt → Code → Prop
  | output {p : Pos} {value : Expr} {escape : Bool} :
      TagOf (.output p value escape) (.output value escape)
  | branch {p : Pos} {condition : Expr} {body otherwise : List Stmt}
      {others : List (Expr × List Stmt)} {first rest : List Code}
      {further : List (Expr × List Code)} : further.map Prod.fst = others.map Prod.fst →
      TagOf (.branch p condition body others otherwise) (.branch condition first further rest)
  | loop {p : Pos} {target : Target} {tracked : Bool} {items : Expr} {body empty : List Stmt}
      {first rest : List Code} :
      TagOf (.loop p target items body empty) (.loop target tracked items first rest)
  | while {p : Pos} {condition : Expr} {body : List Stmt} {first : List Code} :
      TagOf (.while p condition body) (.while condition first)
  | set {p : Pos} {target : Binder} {value : Expr} :
      TagOf (.set p target value) (.set target.name value)
  | debug {p : Pos} {value : Option Expr} {label : String} :
      TagOf (.debug p value label) (.debug value label)

theorem TagOf.of_shell {own other : Stmt} {c : Code} (isTag : own.TagOf c)
    (same : other.shell = own.shell) : other.TagOf c ∧ other.pos = own.pos := by
  cases isTag with
  | output =>
      cases other <;> simp only [shell, reduceCtorEq, Stmt.output.injEq] at same
      obtain ⟨rfl, rfl, rfl⟩ := same
      exact ⟨.output, rfl⟩
  | branch conditions =>
      cases other <;> simp only [shell, reduceCtorEq, Stmt.branch.injEq] at same
      obtain ⟨rfl, rfl, _, others, _⟩ := same
      have sameConditions := congrArg (List.map Prod.fst) others
      simp only [List.map_map, Function.comp_def] at sameConditions
      exact ⟨.branch (conditions.trans sameConditions.symm), rfl⟩
  | loop =>
      cases other <;> simp only [shell, reduceCtorEq, Stmt.loop.injEq] at same
      obtain ⟨rfl, rfl, rfl, _, _⟩ := same
      exact ⟨.loop, rfl⟩
  | «while» =>
      cases other <;> simp only [shell, reduceCtorEq, Stmt.while.injEq] at same
      obtain ⟨rfl, rfl, _⟩ := same
      exact ⟨.while, rfl⟩
  | set =>
      cases other <;> simp only [shell, reduceCtorEq, Stmt.set.injEq] at same
      obtain ⟨rfl, rfl, rfl⟩ := same
      exact ⟨.set, rfl⟩
  | debug =>
      cases other <;> simp only [shell, reduceCtorEq, Stmt.debug.injEq] at same
      obtain ⟨rfl, rfl, rfl⟩ := same
      exact ⟨.debug, rfl⟩

/-- Whether a statement is no include, and its tag suits the line where it stands. -/
def Suits (tag : Nat → Code → Prop) (own : Stmt) : Prop :=
  (∀ p name, own ≠ .include p name) ∧ ∀ c, own.TagOf c → tag own.pos.line c

end Stmt

/-- Whether a property of code is one of all code that statements are assembled to at a place: of
each tag if it is one of all that stands inside the tag, and of what each include expands to. -/
structure Place.Yields (place : Place) (written : Stmt → Prop) (Q : List Code → Prop) : Prop where
  nil : Q []
  append : ∀ {first second}, Q first → Q second → Q (first ++ second)
  text : ∀ value, Q [.text value]
  spaceless : ∀ {body}, Q body → Q [.spaceless body]
  tag : ∀ {own : Stmt} {c : Code}, written own → own.TagOf c → (∀ part ∈ c.bodies, Q part) →
    Q (place.mark own.pos ++ [c])
  expand : ∀ {pos : Pos} {name : String}, written (.include pos name) → ∀ locals,
    Step.Ensures (fun _ => True) (fun inner => Q (place.mark pos ++ inner))
      (place.expand locals name)

section Assemble

open Stmt Code

variable {p : Plan} {template : Option String} {place : Place} {written : Stmt → Prop}
  {Q : List Code → Prop}

mutual

theorem assemble_yields (yields : place.Yields written Q) {locals : List String} : (own : Stmt) →
    (∀ part ∈ own.parts, written part) →
      Step.Ensures (fun _ => True) Q (assemble p template place locals own)
  | .text _ value, _ => by
      rw [assemble]
      split
      · exact .pure yields.nil
      · exact .pure (yields.text value)
  | .output pos value escape, all => by
      have own := all _ List.mem_cons_self
      rw [assemble]
      exact (checked _).bind fun _ _ => .pure (yields.tag own .output (List.forall_mem_nil _))
  | .branch pos condition body others otherwise, all => by
      simp only [parts, List.forall_mem_cons, List.forall_mem_append] at all
      obtain ⟨own, inBody, inOthers, inOtherwise⟩ := all
      rw [assemble]
      apply (assembleAll_yields yields body inBody).bind
      intro body hbody
      apply (assembleAll_yields yields otherwise inOtherwise).bind
      intro otherwise hotherwise
      apply (checked _).bind
      intro _ _
      apply (assembleOthers_yields yields others inOthers).bind
      rintro others ⟨hothers, conditions⟩
      refine .pure (yields.tag own (.branch conditions) ?_)
      exact List.forall_mem_cons.mpr ⟨hbody, List.forall_mem_cons.mpr ⟨hotherwise, hothers⟩⟩
  | .loop pos target items body empty, all => by
      simp only [parts, List.forall_mem_cons, List.forall_mem_append] at all
      obtain ⟨own, inBody, inEmpty⟩ := all
      rw [assemble]
      apply (checked _).bind
      intro tracked _
      apply (checked _).bind
      intro _ _
      apply (assembleAll_yields yields body inBody).bind
      intro body hbody
      apply (assembleAll_yields yields empty inEmpty).bind
      intro empty hempty
      refine .pure (yields.tag own .loop ?_)
      exact List.forall_mem_cons.mpr ⟨hbody, List.forall_mem_singleton.mpr hempty⟩
  | .while pos condition body, all => by
      obtain ⟨own, inBody⟩ := List.forall_mem_cons.mp all
      rw [assemble]
      apply (assembleAll_yields yields body inBody).bind
      intro body hbody
      apply (checked _).bind
      intro _ _
      exact .pure (yields.tag own .while (List.forall_mem_singleton.mpr hbody))
  | .block _ _ body, all => by
      rw [assemble]
      exact assembleAll_yields yields body (List.forall_mem_cons.mp all).2
  | .include pos name, all => by
      rw [assemble]
      apply (yields.expand (all _ List.mem_cons_self) locals).bind
      intro inner expanded
      exact .pure expanded
  | .set pos target value, all => by
      have own := all _ List.mem_cons_self
      rw [assemble]
      exact (checked _).bind fun _ _ => .pure (yields.tag own .set (List.forall_mem_nil _))
  | .spaceless _ body, all => by
      rw [assemble]
      apply (assembleAll_yields yields body (List.forall_mem_cons.mp all).2).bind
      intro body hbody
      exact .pure (yields.spaceless hbody)
  | .debug pos none label, all => by
      have own := all _ List.mem_cons_self
      rw [assemble]
      exact .pure (yields.tag own .debug (List.forall_mem_nil _))
  | .debug pos (some value) label, all => by
      have own := all _ List.mem_cons_self
      rw [assemble]
      exact (checked _).bind fun _ _ => .pure (yields.tag own .debug (List.forall_mem_nil _))

theorem assembleAll_yields (yields : place.Yields written Q) {locals : List String} :
    (body : List Stmt) → (∀ part ∈ partsOf body, written part) →
      Step.Ensures (fun _ => True) Q (assembleAll p template place locals body)
  | [], _ => by
      rw [assembleAll]
      exact .pure yields.nil
  | s :: rest, all => by
      rw [partsOf, List.forall_mem_append] at all
      rw [assembleAll]
      apply (assemble_yields yields s all.1).bind
      intro code first
      apply (assembleAll_yields yields rest all.2).bind
      intro more second
      exact .pure (yields.append first second)

theorem assembleOthers_yields (yields : place.Yields written Q) {locals : List String} :
    (others : List (Expr × List Stmt)) → (∀ part ∈ partsOfOthers others, written part) →
      Step.Ensures (fun _ => True) (fun further : List (Expr × List Code) =>
          (∀ part ∈ further.map Prod.snd, Q part) ∧ further.map Prod.fst = others.map Prod.fst)
        (assembleOthers p template place locals others)
  | [], _ => by
      rw [assembleOthers]
      exact .pure ⟨List.forall_mem_nil _, rfl⟩
  | (condition, body) :: rest, all => by
      rw [partsOfOthers, List.forall_mem_append] at all
      rw [assembleOthers]
      apply (checked _).bind
      intro _ _
      apply (assembleAll_yields yields body all.1).bind
      intro body hbody
      apply (assembleOthers_yields yields rest all.2).bind
      rintro more ⟨hmore, conditions⟩
      refine .pure ⟨List.forall_mem_cons.mpr ⟨hbody, hmore⟩, ?_⟩
      rw [List.map_cons, List.map_cons, conditions]

end

end Assemble

section Marked

open Stmt Code

variable {p : Plan} {template : Option String}
  {expand : List String → String → Assembly (List Code)} {tag : Nat → Code → Prop}

abbrev Assembly.Marks (tag : Nat → Code → Prop) (x : Assembly (List Code)) : Prop :=
  Step.Ensures (fun _ => True) (MarkedAll tag) x

theorem Stmt.TagOf.markedWithin {own : Stmt} {c : Code} (isTag : own.TagOf c)
    (inside : ∀ part ∈ c.bodies, MarkedAll tag part) : MarkedWithin tag c := by
  cases isTag with
  | output => exact .output
  | branch _ =>
      simp only [bodies, List.forall_mem_cons, List.forall_mem_map] at inside
      exact .branch inside.1 inside.2.2 inside.2.1
  | loop =>
      simp only [bodies, List.forall_mem_cons] at inside
      exact .loop inside.1 inside.2.1
  | «while» => exact .while (inside _ List.mem_cons_self)
  | set => exact .set
  | debug => exact .debug

theorem yields_marked : Place.Yields ⟨false, expand⟩ (Suits tag) (MarkedAll tag) where
  nil := .nil
  append := MarkedAll.append
  text _ := .text .nil
  spaceless body := .spaceless body .nil
  tag suits isTag inside := .tag (suits.2 _ isTag) (isTag.markedWithin inside) .nil
  expand suits := (suits.1 _ _ rfl).elim

theorem assembleAll_marked {locals : List String} (body : List Stmt)
    (suits : ∀ part ∈ partsOf body, part.Suits tag) :
      Assembly.Marks tag (assembleAll p template ⟨false, expand⟩ locals body) :=
  assembleAll_yields yields_marked body suits

end Marked

end Stencil
