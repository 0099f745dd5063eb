import Stencil.Assembly.LoopUse
import Stencil.Proofs.Expr.Search
import Stencil.Proofs.Grammar.Page
import Stencil.Proofs.Stmt.Leaves
import Stencil.Render.Code

namespace Stencil

namespace Code

mutual

/-- Whether code names `loop`, in an expression, as the variable of a loop or in an assignment. -/
def namesLoop : Code → Bool
  | .text _ | .mark _ => false
  | .output value _ => value.usesLoop
  | .branch condition body others otherwise =>
      condition.usesLoop ||
        (namesLoopAll body || (namesLoopOthers others || namesLoopAll otherwise))
  | .loop target _ items body empty =>
      (target.names.contains "loop" || items.usesLoop) || (namesLoopAll body || namesLoopAll empty)
  | .while condition body => condition.usesLoop || namesLoopAll body
  | .set name value => name == "loop" || value.usesLoop
  | .spaceless body => namesLoopAll body
  | .debug value _ => value.any Expr.usesLoop

def namesLoopAll : List Code → Bool
  | [] => false
  | c :: rest => c.namesLoop || namesLoopAll rest

def namesLoopOthers : List (Expr × List Code) → Bool
  | [] => false
  | (condition, body) :: rest =>
      condition.usesLoop || (namesLoopAll body || namesLoopOthers rest)

end

@[simp] theorem namesLoopAll_append (first second : List Code) :
    namesLoopAll (first ++ second) = (namesLoopAll first || namesLoopAll second) := by
  induction first with
  | nil => rfl
  | cons c rest ih => rw [List.cons_append, namesLoopAll, namesLoopAll, ih, Bool.or_assoc]

end Code

@[simp] theorem Target.names_erase (target : Target) : target.erase.names = target.names := by
  cases target <;> rfl

namespace Stmt

section Outline

variable (expand : String → List Code)

mutual

/-- What a statement comes to when an include of a name comes to what `expand` gives: code without
marks, in which no expression tells where it was written. -/
def outline : Stmt → List Code
  | text _ value => if value = "" then [] else [.text value]
  | output _ value escape => [.output value.erase escape]
  | branch _ condition body others otherwise =>
      [.branch condition.erase (outlineAll body) (outlineOthers others) (outlineAll otherwise)]
  | loop _ target items body empty =>
      let body := outlineAll body
      [.loop target.erase (Code.namesLoopAll body) items.erase body (outlineAll empty)]
  | .while _ condition body => [.while condition.erase (outlineAll body)]
  | block _ _ body => outlineAll body
  | .include _ name => expand name
  | .set _ target value => [.set target.name value.erase]
  | spaceless _ body => [.spaceless (outlineAll body)]
  | debug _ value label => [.debug (value.map Expr.erase) label]

def outlineAll : List Stmt → List Code
  | [] => []
  | s :: rest => outline s ++ outlineAll rest

def outlineOthers : List (Expr × List Stmt) → List (Expr × List Code)
  | [] => []
  | (condition, body) :: rest => (condition.erase, outlineAll body) :: outlineOthers rest

end

end Outline

variable {expand expand' : String → List Code}

theorem outlineAll_append (first second : List Stmt) :
    outlineAll expand (first ++ second) = outlineAll expand first ++ outlineAll expand second := by
  induction first with
  | nil => rfl
  | cons s rest ih => rw [List.cons_append, outlineAll, outlineAll, ih, List.append_assoc]

mutual

/-- The outline of a statement asks for nothing but the templates that it includes. -/
theorem outline_congr :
    (s : Stmt) → (∀ pos name, .include pos name ∈ s.leaves → expand name = expand' name) →
      outline expand s = outline expand' s
  | text _ _, _ => rfl
  | output _ _ _, _ => rfl
  | .set _ _ _, _ => rfl
  | debug _ _ _, _ => rfl
  | .include pos name, same => by
      rw [outline, outline]
      exact same pos name (List.mem_singleton.mpr rfl)
  | branch _ _ body others otherwise, same => by
      simp only [leaves, List.mem_append] at same
      rw [outline, outline,
        outlineAll_congr body fun pos name member => same pos name (.inl member),
        outlineOthers_congr others fun pos name member => same pos name (.inr (.inl member)),
        outlineAll_congr otherwise fun pos name member => same pos name (.inr (.inr member))]
  | loop _ _ _ body empty, same => by
      simp only [leaves, List.mem_append] at same
      rw [outline, outline,
        outlineAll_congr body fun pos name member => same pos name (.inl member),
        outlineAll_congr empty fun pos name member => same pos name (.inr member)]
  | .while _ _ body, same => by rw [outline, outline, outlineAll_congr body same]
  | block _ _ body, same => by rw [outline, outline, outlineAll_congr body same]
  | spaceless _ body, same => by rw [outline, outline, outlineAll_congr body same]

theorem outlineAll_congr :
    (body : List Stmt) →
      (∀ pos name, .include pos name ∈ leavesOf body → expand name = expand' name) →
      outlineAll expand body = outlineAll expand' body
  | [], _ => rfl
  | s :: rest, same => by
      simp only [leavesOf, List.mem_append] at same
      rw [outlineAll, outlineAll,
        outline_congr s fun pos name member => same pos name (.inl member),
        outlineAll_congr rest fun pos name member => same pos name (.inr member)]

theorem outlineOthers_congr :
    (others : List (Expr × List Stmt)) →
      (∀ pos name, .include pos name ∈ leavesOfOthers others → expand name = expand' name) →
      outlineOthers expand others = outlineOthers expand' others
  | [], _ => rfl
  | (_, body) :: rest, same => by
      simp only [leavesOfOthers, List.mem_append] at same
      rw [outlineOthers, outlineOthers,
        outlineAll_congr body fun pos name member => same pos name (.inl member),
        outlineOthers_congr rest fun pos name member => same pos name (.inr member)]

end

/-! The search for `loop` finds what the outline names. -/

section Search

variable {include? : String → Except Fault Bool}

theorem orSearch_ok (first second : Bool) :
    orSearch (.ok first) (fun _ => .ok second) = .ok (first || second) := by
  cases first <;> rfl

mutual

theorem usesLoop_eq_outline :
    (s : Stmt) →
      (∀ pos name, .include pos name ∈ s.leaves →
        include? name = .ok (Code.namesLoopAll (expand name))) →
      usesLoop include? s = .ok (Code.namesLoopAll (outline expand s))
  | text _ value, _ => by
      rw [usesLoop, outline]
      split <;> rfl
  | output _ _ _, _ => by simp [usesLoop, outline, Code.namesLoopAll, Code.namesLoop]
  | .set _ _ _, _ => by simp [usesLoop, outline, Code.namesLoopAll, Code.namesLoop]
  | debug _ value _, _ => by
      cases value <;> simp [usesLoop, outline, Code.namesLoopAll, Code.namesLoop]
  | .include pos name, known => by
      rw [usesLoop, outline]
      exact known pos name (List.mem_singleton.mpr rfl)
  | branch _ condition body others otherwise, known => by
      simp only [leaves, List.mem_append] at known
      rw [usesLoop, anyUsesLoop_eq_outline body fun pos name member => known pos name (.inl member),
        othersUseLoop_eq_outline others fun pos name member => known pos name (.inr (.inl member)),
        anyUsesLoop_eq_outline otherwise
          fun pos name member => known pos name (.inr (.inr member))]
      simp [orSearch_ok, outline, Code.namesLoopAll, Code.namesLoop]
  | loop _ target items body empty, known => by
      simp only [leaves, List.mem_append] at known
      rw [usesLoop, anyUsesLoop_eq_outline body fun pos name member => known pos name (.inl member),
        anyUsesLoop_eq_outline empty fun pos name member => known pos name (.inr member)]
      simp [orSearch_ok, outline, Code.namesLoopAll, Code.namesLoop]
  | .while _ condition body, known => by
      rw [usesLoop, anyUsesLoop_eq_outline body known]
      simp [orSearch_ok, outline, Code.namesLoopAll, Code.namesLoop]
  | block _ _ body, known => by rw [usesLoop, outline, anyUsesLoop_eq_outline body known]
  | spaceless _ body, known => by
      rw [usesLoop, anyUsesLoop_eq_outline body known]
      simp [outline, Code.namesLoopAll, Code.namesLoop]

theorem anyUsesLoop_eq_outline :
    (body : List Stmt) →
      (∀ pos name, .include pos name ∈ leavesOf body →
        include? name = .ok (Code.namesLoopAll (expand name))) →
      anyUsesLoop include? body = .ok (Code.namesLoopAll (outlineAll expand body))
  | [], _ => rfl
  | s :: rest, known => by
      simp only [leavesOf, List.mem_append] at known
      rw [anyUsesLoop, usesLoop_eq_outline s fun pos name member => known pos name (.inl member),
        anyUsesLoop_eq_outline rest fun pos name member => known pos name (.inr member),
        orSearch_ok, outlineAll, Code.namesLoopAll_append]

theorem othersUseLoop_eq_outline :
    (others : List (Expr × List Stmt)) →
      (∀ pos name, .include pos name ∈ leavesOfOthers others →
        include? name = .ok (Code.namesLoopAll (expand name))) →
      othersUseLoop include? others = .ok (Code.namesLoopOthers (outlineOthers expand others))
  | [], _ => rfl
  | (condition, body) :: rest, known => by
      simp only [leavesOfOthers, List.mem_append] at known
      rw [othersUseLoop,
        anyUsesLoop_eq_outline body fun pos name member => known pos name (.inl member),
        othersUseLoop_eq_outline rest fun pos name member => known pos name (.inr member)]
      simp [orSearch_ok, outlineOthers, Code.namesLoopOthers]

end

end Search

end Stmt

namespace Stmt

def includedNames (body : List Stmt) : List String :=
  (leavesOf body).filterMap fun
    | .include _ name => some name
    | _ => none

theorem mem_includedNames {body : List Stmt} {name : String} :
    name ∈ includedNames body ↔ Includes body name := by
  simp only [includedNames, Includes, List.mem_filterMap]
  constructor
  · rintro ⟨leaf, member, same⟩
    split at same
    · cases same
      exact ⟨_, member⟩
    · cases same
  · rintro ⟨pos, member⟩
    exact ⟨_, member, rfl⟩

def decidableIncludes {P : String → Prop} [DecidablePred P] (body : List Stmt) :
    Decidable (∀ name, Includes body name → P name) :=
  decidable_of_iff (∀ name ∈ includedNames body, P name) (by simp only [mem_includedNames])

end Stmt

namespace Plan

/-- What an include comes to when at most `room` includes are expanded inside each other. -/
def included (p : Plan) : (room : Nat) → (name : String) → List Code
  | 0, _ => []
  | room + 1, name =>
      match p.flattened name with
      | .ok flat => Stmt.outlineAll (p.included room) flat.1.body
      | .error _ => []

def outline (p : Plan) (body : List Stmt) : List Code :=
  Stmt.outlineAll (p.included p.limits.depth.toNat) body

/-- Whether an include below the templates of a stack can be expanded, with at most `room` includes
inside each other. An include that is missing can. -/
def Opens (p : Plan) : (room : Nat) → (stack : List String) → (name : String) → Prop
  | 0, _, _ => False
  | room + 1, stack, name =>
      name ∉ stack ∧
        match p.flattened name with
        | .ok flat => ∀ inner, Stmt.Includes flat.1.body inner → Opens p room (name :: stack) inner
        | .error fault => fault.isNotFound = true

/-- Whether all includes of a flattened template open below its name. -/
def OpensAll (p : Plan) (name : Option String) (body : List Stmt) : Prop :=
  ∀ inner, Stmt.Includes body inner →
    p.Opens p.limits.depth.toNat [firstGiven [name] unnamed] inner

instance decidableOpens (p : Plan) :
    (room : Nat) → (stack : List String) → (name : String) → Decidable (p.Opens room stack name)
  | 0, _, _ => isFalse id
  | room + 1, stack, name =>
      have : Decidable (match p.flattened name with
          | .ok flat => ∀ inner, Stmt.Includes flat.1.body inner →
              p.Opens room (name :: stack) inner
          | .error fault => fault.isNotFound = true) :=
        match p.flattened name with
        | .ok flat =>
            have := decidableOpens p room (name :: stack)
            Stmt.decidableIncludes flat.1.body
        | .error fault => inferInstanceAs (Decidable (fault.isNotFound = true))
      inferInstanceAs (Decidable (name ∉ stack ∧ _))

instance (p : Plan) (name : Option String) (body : List Stmt) :
    Decidable (p.OpensAll name body) :=
  Stmt.decidableIncludes body

variable {p : Plan} {room room' : Nat} {stack : List String} {name : String}

theorem included_of_opens (opens : p.Opens room stack name) (enough : room ≤ room') :
    p.included room' name = p.included room name := by
  induction room generalizing room' stack name with
  | zero => exact opens.elim
  | succ room ih =>
      obtain ⟨room', rfl⟩ := Nat.exists_eq_add_of_le' enough
      obtain ⟨_, further⟩ := opens
      rw [← Nat.add_assoc, included, included]
      cases hflat : p.flattened name with
      | error fault => rfl
      | ok flat =>
          rw [hflat] at further
          refine Stmt.outlineAll_congr flat.1.body fun pos inner leaf => ?_
          exact ih (further inner ⟨pos, leaf⟩) (by omega)

theorem search_of_opens (opens : p.Opens room stack name) {rounds : Nat} (enough : room ≤ rounds)
    {seen : List String} (around : seen ⊆ stack) :
    p.includeUsesLoop rounds seen name = .ok (Code.namesLoopAll (p.included room name)) := by
  induction room generalizing rounds stack seen name with
  | zero => exact opens.elim
  | succ room ih =>
      obtain ⟨rounds, rfl⟩ := Nat.exists_eq_add_of_le' enough
      obtain ⟨fresh, further⟩ := opens
      have unseen : ¬ seen.contains name = true := by
        simpa using fun member => fresh (around member)
      rw [← Nat.add_assoc, includeUsesLoop, included, if_neg unseen]
      cases hflat : p.flattened name with
      | error fault =>
          rw [hflat] at further
          exact if_pos further
      | ok flat =>
          rw [hflat] at further
          refine Stmt.anyUsesLoop_eq_outline flat.1.body fun pos inner leaf => ?_
          exact ih (further inner ⟨pos, leaf⟩) (by omega) (List.cons_subset_cons name around)

end Plan

end Stencil
