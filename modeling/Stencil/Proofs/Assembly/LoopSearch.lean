import Stencil.Proofs.Assembly.Outline
import Stencil.Proofs.Library.Written

namespace Stencil

/-- A search that fails only with faults that satisfy a property, and finds something if something
is known to be there. -/
def Finds (E : Fault → Prop) (search : Except Fault Bool) (known : Bool) : Prop :=
  match search with
  | .ok answer => known = true → answer = true
  | .error fault => E fault

section Finds

variable {E : Fault → Prop}

theorem Finds.ok (known : Bool) : Finds E (.ok known) known := id

theorem Finds.orSearch {first second : Except Fault Bool} {a b : Bool} (hfirst : Finds E first a)
    (hsecond : Finds E second b) : Finds E (Stencil.orSearch first fun _ => second) (a || b) := by
  cases first with
  | error fault => exact hfirst
  | ok found =>
      cases found with
      | true => exact fun _ => rfl
      | false =>
          cases a with
          | true => exact absurd (hfirst rfl) Bool.false_ne_true
          | false => exact hsecond

theorem Finds.raises {search : Except Fault Bool} {known : Bool} (finds : Finds E search known) :
    Except.Raises E search := by
  rintro fault rfl
  exact finds

theorem Finds.of_raises {search : Except Fault Bool} (raises : Except.Raises E search) :
    Finds E search false := by
  cases search with
  | ok answer => exact nofun
  | error fault => exact raises fault rfl

theorem Finds.answer {search : Except Fault Bool} {known : Bool}
    (finds : Finds (fun _ => False) search known) :
    ∃ answer, search = .ok answer ∧ (known = true → answer = true) := by
  cases search with
  | ok answer => exact ⟨answer, rfl, finds⟩
  | error fault => exact finds.elim

end Finds

namespace Stmt

variable {include? : String → Except Fault Bool} {E : Fault → Prop}

abbrev own (body : List Stmt) : List Code := outlineAll (fun _ => []) body

mutual

theorem usesLoop_finds :
    (s : Stmt) → (∀ pos name, .include pos name ∈ s.leaves → Finds E (include? name) false) →
      Finds E (usesLoop include? s) (Code.namesLoopAll (outline (fun _ => []) s))
  | text _ value, _ => by
      rw [usesLoop, outline]
      split <;> exact .ok false
  | output _ value _, _ => by
      have found := Finds.ok (E := E) value.usesLoop
      simpa [usesLoop, outline, Code.namesLoopAll, Code.namesLoop] using found
  | .set _ target value, _ => by
      have found := Finds.ok (E := E) (target.name == "loop" || value.usesLoop)
      simpa [usesLoop, outline, Code.namesLoopAll, Code.namesLoop] using found
  | debug _ value _, _ => by
      have found := Finds.ok (E := E) (value.any Expr.usesLoop)
      cases value <;> simpa [usesLoop, outline, Code.namesLoopAll, Code.namesLoop] using found
  | .include pos name, answers => by
      rw [usesLoop, outline]
      exact answers pos name (List.mem_singleton.mpr rfl)
  | branch _ condition body others otherwise, answers => by
      simp only [leaves, List.mem_append] at answers
      have found := (Finds.ok (E := E) condition.usesLoop).orSearch
        ((anyUsesLoop_finds body fun pos name member => answers pos name (.inl member)).orSearch
          ((othersUseLoop_finds others
              fun pos name member => answers pos name (.inr (.inl member))).orSearch
            (anyUsesLoop_finds otherwise
              fun pos name member => answers pos name (.inr (.inr member)))))
      simpa [usesLoop, outline, Code.namesLoopAll, Code.namesLoop] using found
  | loop _ target items body empty, answers => by
      simp only [leaves, List.mem_append] at answers
      have found := (Finds.ok (E := E) (target.names.contains "loop" || items.usesLoop)).orSearch
        ((anyUsesLoop_finds body fun pos name member => answers pos name (.inl member)).orSearch
          (anyUsesLoop_finds empty fun pos name member => answers pos name (.inr member)))
      simpa [usesLoop, outline, Code.namesLoopAll, Code.namesLoop] using found
  | .while _ condition body, answers => by
      have found := (Finds.ok (E := E) condition.usesLoop).orSearch (anyUsesLoop_finds body answers)
      simpa [usesLoop, outline, Code.namesLoopAll, Code.namesLoop] using found
  | block _ _ body, answers => by
      rw [usesLoop, outline]
      exact anyUsesLoop_finds body answers
  | spaceless _ body, answers => by
      have found := anyUsesLoop_finds body answers
      simpa [usesLoop, outline, Code.namesLoopAll, Code.namesLoop] using found

theorem anyUsesLoop_finds :
    (body : List Stmt) →
      (∀ pos name, .include pos name ∈ leavesOf body → Finds E (include? name) false) →
      Finds E (anyUsesLoop include? body) (Code.namesLoopAll (own body))
  | [], _ => .ok false
  | s :: rest, answers => by
      simp only [leavesOf, List.mem_append] at answers
      rw [anyUsesLoop, own, outlineAll, Code.namesLoopAll_append]
      exact (usesLoop_finds s fun pos name member => answers pos name (.inl member)).orSearch
        (anyUsesLoop_finds rest fun pos name member => answers pos name (.inr member))

theorem othersUseLoop_finds :
    (others : List (Expr × List Stmt)) →
      (∀ pos name, .include pos name ∈ leavesOfOthers others →
        Finds E (include? name) false) →
      Finds E (othersUseLoop include? others)
        (Code.namesLoopOthers (outlineOthers (fun _ => []) others))
  | [], _ => .ok false
  | (condition, body) :: rest, answers => by
      simp only [leavesOfOthers, List.mem_append] at answers
      have found := (Finds.ok (E := E) condition.usesLoop).orSearch
        ((anyUsesLoop_finds body fun pos name member => answers pos name (.inl member)).orSearch
          (othersUseLoop_finds rest fun pos name member => answers pos name (.inr member)))
      simpa [othersUseLoop, outlineOthers, Code.namesLoopOthers] using found

end

end Stmt

namespace Plan

variable {p : Plan} {E : Fault → Prop}

/-- A search passes over templates that are missing, and fails where another one does. -/
theorem includeUsesLoop_raises (unending : E .endless)
    (broken : ∀ name fault, p.flattened name = .error fault → fault.isNotFound = false → E fault)
    {rounds : Nat} {seen : List String} {name : String} :
    Except.Raises E (p.includeUsesLoop rounds seen name) := by
  induction rounds generalizing seen name with
  | zero =>
      rw [includeUsesLoop]
      split
      · exact Except.raises_ok
      · exact Except.raises_error.mpr unending
  | succ rounds ih =>
      rw [includeUsesLoop]
      split
      · exact Except.raises_ok
      · cases hflat : p.flattened name with
        | error fault =>
            dsimp only
            split
            · exact Except.raises_ok
            · next there =>
                exact Except.raises_error.mpr (broken name fault hflat (by simpa using there))
        | ok flat => exact (Stmt.anyUsesLoop_finds flat.1.body fun _ _ _ => .of_raises ih).raises

theorem bodyUsesLoop_raises (unending : E .endless)
    (broken : ∀ name fault, p.flattened name = .error fault → fault.isNotFound = false → E fault)
    (body : List Stmt) : Except.Raises E (p.bodyUsesLoop body) :=
  (Stmt.anyUsesLoop_finds body fun _ _ _ =>
    .of_raises (includeUsesLoop_raises unending broken)).raises

theorem includeUsesLoop_ok (missing : ∀ name fault, p.flattened name = .error fault →
      fault.isNotFound = true) (names : List String)
    (closed : ∀ name flat, p.flattened name = .ok flat → ∀ inner, Stmt.Includes flat.1.body inner →
      inner ∈ names) {rounds : Nat} {seen : List String} {name : String}
    (enough : names.length ≤ rounds + seen.length) (distinct : seen.Nodup) (known : seen ⊆ names)
    (member : name ∈ names) :
    Except.Raises (fun _ => False) (p.includeUsesLoop rounds seen name) := by
  induction rounds generalizing seen name with
  | zero =>
      have met : name ∈ seen := by
        by_contra fresh
        have apart : (name :: seen).Nodup := List.nodup_cons.mpr ⟨fresh, distinct⟩
        have all := apart.length_le_of_subset (List.cons_subset.mpr ⟨member, known⟩)
        rw [List.length_cons] at all
        omega
      rw [includeUsesLoop, if_pos (List.contains_iff_mem.mpr met)]
      exact Except.raises_ok
  | succ rounds ih =>
      rw [includeUsesLoop]
      split
      · exact Except.raises_ok
      · next unseen =>
          have fresh : name ∉ seen := by simpa using unseen
          cases hflat : p.flattened name with
          | error fault =>
              dsimp only
              rw [if_pos (missing name fault hflat)]
              exact Except.raises_ok
          | ok flat =>
              refine (Stmt.anyUsesLoop_finds flat.1.body fun pos inner leaf =>
                .of_raises (ih ?_ ?_ ?_ ?_)).raises
              · rw [List.length_cons]
                omega
              · exact List.nodup_cons.mpr ⟨fresh, distinct⟩
              · exact List.cons_subset.mpr ⟨member, known⟩
              · exact closed name flat hflat inner ⟨pos, leaf⟩

theorem search_ok (missing : ∀ name fault, p.flattened name = .error fault →
      fault.isNotFound = true) (bounds : p.BoundsNames) (name : String) :
    Finds (fun _ => False) (p.includeUsesLoop p.searchRounds [] name) false := by
  obtain ⟨names, few, closed⟩ := bounds
  refine .of_raises ?_
  -- The first name need not be one that some template of the library includes.
  refine includeUsesLoop_ok missing (name :: names)
    (fun other flat hflat inner includes => .tail _ (closed other flat hflat inner includes))
    ?_ .nil (List.nil_subset _) List.mem_cons_self
  unfold searchRounds
  rw [List.length_cons, List.length_nil]
  omega

end Plan

end Stencil
