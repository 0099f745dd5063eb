import Stencil.Proofs.Assembly.Assembled
import Stencil.Proofs.Assembly.LoopSearch

namespace Stencil

namespace Plan

/-- The ways along includes from statements: the names that are met, each one included at any depth
by what the name before it is flattened to. The last one need not be there. -/
inductive IncludePath (p : Plan) : List Stmt → List String → Prop
  | last {body : List Stmt} {name : String} : Stmt.Includes body name → IncludePath p body [name]
  | step {body : List Stmt} {name : String} {flat : Template × List String} {path : List String} :
      Stmt.Includes body name → p.flattened name = .ok flat → IncludePath p flat.1.body path →
        IncludePath p body (name :: path)

/-- Whether every template of a library can be flattened, unless it is missing, and what it writes
itself uses registered names only. -/
structure Complete (p : Plan) : Prop where
  missing : ∀ name fault, p.flattened name = .error fault → fault.isNotFound = true
  registered : ∀ name flat, p.flattened name = .ok flat →
    Code.EachAll (Expr.Registered p.registries) [] (Stmt.own flat.1.body)

variable {p : Plan}

/-- Includes open just when each way along them is short and meets no name of the stack and none
twice. -/
theorem opens_iff_paths (missing : ∀ name fault, p.flattened name = .error fault →
      fault.isNotFound = true) {room : Nat} {stack : List String} {body : List Stmt} :
    (∀ inner, Stmt.Includes body inner → p.Opens room stack inner) ↔
      ∀ path, p.IncludePath body path →
        path.length ≤ room ∧ path.Nodup ∧ ∀ name ∈ path, name ∉ stack := by
  induction room generalizing stack body with
  | zero =>
      constructor
      · rintro opens _ (⟨includes⟩ | ⟨includes, _, _⟩) <;> exact (opens _ includes).elim
      · intro paths inner includes
        exact absurd (paths _ (.last includes)).1 (by simp)
  | succ room ih =>
      constructor
      · rintro opens _ (@⟨_, name, includes⟩ | @⟨_, name, flat, path, includes, hflat, further⟩)
        · obtain ⟨fresh, _⟩ := opens name includes
          simpa using fresh
        · obtain ⟨fresh, inside⟩ := opens name includes
          rw [hflat] at inside
          obtain ⟨short, distinct, apart⟩ := ih.mp inside path further
          refine ⟨Nat.succ_le_succ short, List.nodup_cons.mpr ⟨fun again => ?_, distinct⟩, ?_⟩
          · exact apart name again List.mem_cons_self
          · exact List.forall_mem_cons.mpr ⟨fresh, fun other member inStack =>
              apart other member (List.mem_cons_of_mem _ inStack)⟩
      · intro paths inner includes
        refine ⟨(paths _ (.last includes)).2.2 inner List.mem_cons_self, ?_⟩
        cases hflat : p.flattened inner with
        | error fault => exact missing inner fault hflat
        | ok flat =>
            refine ih.mpr fun path further => ?_
            obtain ⟨short, distinct, apart⟩ := paths _ (.step includes hflat further)
            obtain ⟨fresh, distinct⟩ := List.nodup_cons.mp distinct
            refine ⟨Nat.le_of_succ_le_succ short, distinct, fun name member inStack => ?_⟩
            rcases List.mem_cons.mp inStack with rfl | inStack
            · exact fresh member
            · exact apart name (List.mem_cons_of_mem _ member) inStack

end Plan

namespace Assembly

variable {α β : Type}

/-- Whether a step succeeds when a condition holds, whatever was noted before, and otherwise ends
with an error of recursion. -/
def Detects (x : Assembly α) (condition : Prop) : Prop :=
  ∀ t, (condition ∧ ∃ a u, x.run t = (.ok a, u)) ∨
    (¬ condition ∧ ∃ chain limit u, x.run t = (.error (.diagnostic (.recursion chain limit)), u))

namespace Detects

variable {x : Assembly α} {f : α → Assembly β} {first second : Prop}

theorem pure (a : α) : Detects (Pure.pure a : Assembly α) True :=
  fun t => .inl ⟨trivial, a, t, rfl⟩

theorem bind (hx : Detects x first) (hf : ∀ a, Detects (f a) second) :
    Detects (x >>= f) (first ∧ second) := by
  intro t
  rw [Step.run_bind]
  rcases hx t with ⟨holds, a, m, run⟩ | ⟨fails, chain, limit, u, run⟩
  · rw [run]
    exact (hf a m).imp (And.imp_left fun further => ⟨holds, further⟩)
      (And.imp_left fun fails both => fails both.2)
  · rw [run]
    exact .inr ⟨fun both => fails both.1, chain, limit, u, rfl⟩

theorem bindKnown {result : Except Fault α} {a : α} (given : result = .ok a)
    (hf : Detects (f a) second) : Detects (ofExcept result >>= f) second := by
  intro t
  rw [Step.run_bind, ofExcept, Step.run_mk_pure, given]
  exact hf t

theorem noteFiles (files : List String) : Detects (Assembly.noteFiles files) True :=
  fun _ => .inl ⟨trivial, (), _, rfl⟩

theorem noteMissing (name : String) : Detects (Assembly.noteMissing name) True :=
  fun _ => .inl ⟨trivial, (), _, rfl⟩

theorem congr (hx : Detects x first) (same : first ↔ second) : Detects x second := by
  intro t
  rw [← same]
  exact hx t

end Detects

end Assembly

section Assemble

open Assembly Stmt

variable {p : Plan} {template : Option String} {place : Place} {opens : String → Prop}
  {locals : List String}

/-- Whether the includes of a name lead too far unless they open, and the search for `loop` answers
for them. -/
structure Place.Detects (p : Plan) (place : Place) (opens : String → Prop) (name : String) :
    Prop where
  expands : ∀ locals, Assembly.Detects (place.expand locals name) (opens name)
  search : Finds (fun _ => False) (p.includeUsesLoop p.searchRounds [] name) false

theorem Code.innerLocals_mono (target : Target) {tracked tracked' : Bool} {known : List String}
    (more : tracked = true → tracked' = true) (within : known ⊆ locals) :
    innerLocals target.erase tracked known ⊆ innerLocals target tracked' locals := by
  intro name
  simp only [innerLocals, Target.names_erase, List.mem_append]
  rintro ((inTarget | isLoop) | around)
  · exact .inl (.inl inTarget)
  · cases tracked with
    | true =>
        rw [more rfl]
        exact .inl (.inr isLoop)
    | false => cases isLoop
  · exact .inr (within around)

theorem checkExpr_known {known : List String} (within : known ⊆ locals) {e : Expr}
    (registered : e.erase.Registered p.registries known) :
    checkExpr p.registries template locals e = .ok () :=
  (checkExpr_ok_iff e).mpr ((Expr.registered_erase.mp registered).mono within)

mutual

/-- Statements that write registered names only are assembled unless some include does not open.
The names may be checked where there are more loop variables, those around an include and `loop` for
a loop whose includes use it. -/
theorem assemble_detects {known locals : List String} (within : known ⊆ locals) :
    (s : Stmt) → (∀ pos name, .include pos name ∈ s.leaves → place.Detects p opens name) →
      Code.EachAll (Expr.Registered p.registries) known (outline (fun _ => []) s) →
      Detects (assemble p template place locals s)
        (∀ pos name, .include pos name ∈ s.leaves → opens name)
  | .text _ value, _, _ => by
      rw [assemble]
      split <;> exact .congr (.pure _) (by simp [leaves])
  | .output pos value escape, _, registered => by
      rw [outline, Code.eachAll_singleton, Code.Each] at registered
      rw [assemble]
      apply Detects.bindKnown (checkExpr_known within registered)
      exact .congr (.pure _) (by simp [leaves])
  | .branch pos condition body others otherwise, places, registered => by
      rw [outline, Code.eachAll_singleton, Code.Each] at registered
      obtain ⟨hcondition, hbody, hothers, hotherwise⟩ := registered
      simp only [leaves, List.mem_append] at places ⊢
      rw [assemble]
      refine .congr (.bind (assembleAll_detects within body
          (fun pos name member => places pos name (.inl member)) hbody) fun body =>
        .bind (assembleAll_detects within otherwise
          (fun pos name member => places pos name (.inr (.inr member))) hotherwise)
          fun otherwise =>
        .bindKnown (checkExpr_known within hcondition)
          (.bind (assembleOthers_detects within others
            (fun pos name member => places pos name (.inr (.inl member))) hothers) fun others =>
          .pure _)) ?_
      grind
  | .loop pos target items body empty, places, registered => by
      rw [outline, Code.eachAll_singleton, Code.Each] at registered
      obtain ⟨hitems, hbody, hempty⟩ := registered
      simp only [leaves, List.mem_append] at places ⊢
      obtain ⟨tracked, searched, finds⟩ := (anyUsesLoop_finds body fun pos name member =>
        (places pos name (.inl member)).search).answer
      have inner := Code.innerLocals_mono target finds within
      rw [assemble]
      apply Detects.bindKnown searched
      apply Detects.bindKnown (checkExpr_known within hitems)
      refine .congr (.bind (assembleAll_detects inner body
          (fun pos name member => places pos name (.inl member)) hbody) fun body =>
        .bind (assembleAll_detects within empty
          (fun pos name member => places pos name (.inr member)) hempty) fun empty =>
        .pure _) ?_
      grind
  | .while pos condition body, places, registered => by
      rw [outline, Code.eachAll_singleton, Code.Each] at registered
      rw [assemble]
      refine .congr (.bind (assembleAll_detects within body places registered.2) fun body =>
        .bindKnown (checkExpr_known within registered.1) (.pure _)) ?_
      rw [leaves, and_true]
  | .block _ _ body, places, registered => by
      rw [outline] at registered
      rw [assemble]
      exact assembleAll_detects within body places registered
  | .include pos name, places, _ => by
      rw [assemble]
      refine .congr (.bind ((places pos name (List.mem_singleton.mpr rfl)).expands locals)
        fun code => .pure _) ?_
      simp [leaves]
  | .set pos target value, _, registered => by
      rw [outline, Code.eachAll_singleton, Code.Each] at registered
      rw [assemble]
      apply Detects.bindKnown (checkExpr_known within registered)
      exact .congr (.pure _) (by simp [leaves])
  | .spaceless _ body, places, registered => by
      rw [outline, Code.eachAll_singleton, Code.Each] at registered
      rw [assemble]
      refine .congr (.bind (assembleAll_detects within body places registered) fun body =>
        .pure _) ?_
      rw [leaves, and_true]
  | .debug pos none label, _, _ => by
      rw [assemble]
      exact .congr (.pure _) (by simp [leaves])
  | .debug pos (some e) label, _, registered => by
      rw [outline, Code.eachAll_singleton, Code.Each] at registered
      rw [assemble]
      apply Detects.bindKnown (checkExpr_known within (registered e.erase rfl))
      exact .congr (.pure _) (by simp [leaves])

theorem assembleAll_detects {known locals : List String} (within : known ⊆ locals) :
    (body : List Stmt) →
      (∀ pos name, .include pos name ∈ leavesOf body → place.Detects p opens name) →
      Code.EachAll (Expr.Registered p.registries) known (own body) →
      Detects (assembleAll p template place locals body)
        (∀ pos name, .include pos name ∈ leavesOf body → opens name)
  | [], _, _ => by
      rw [assembleAll]
      exact .congr (.pure _) (by simp [leavesOf])
  | s :: rest, places, registered => by
      rw [own, outlineAll, Code.eachAll_append] at registered
      simp only [leavesOf, List.mem_append] at places ⊢
      rw [assembleAll]
      refine .congr (.bind (assemble_detects within s
          (fun pos name member => places pos name (.inl member)) registered.1) fun code =>
        .bind (assembleAll_detects within rest
          (fun pos name member => places pos name (.inr member)) registered.2) fun more =>
        .pure _) ?_
      grind

theorem assembleOthers_detects {known locals : List String} (within : known ⊆ locals) :
    (others : List (Expr × List Stmt)) →
      (∀ pos name, .include pos name ∈ leavesOfOthers others → place.Detects p opens name) →
      Code.EachOthers (Expr.Registered p.registries) known (outlineOthers (fun _ => []) others) →
      Detects (assembleOthers p template place locals others)
        (∀ pos name, .include pos name ∈ leavesOfOthers others → opens name)
  | [], _, _ => by
      rw [assembleOthers]
      exact .congr (.pure _) (by simp [leavesOfOthers])
  | (condition, body) :: rest, places, registered => by
      rw [outlineOthers, Code.EachOthers] at registered
      obtain ⟨hcondition, hbody, hrest⟩ := registered
      simp only [leavesOfOthers, List.mem_append] at places ⊢
      rw [assembleOthers]
      apply Detects.bindKnown (checkExpr_known within hcondition)
      refine .congr (.bind (assembleAll_detects within body
          (fun pos name member => places pos name (.inl member)) hbody) fun body =>
        .bind (assembleOthers_detects within rest
          (fun pos name member => places pos name (.inr member)) hrest) fun others =>
        .pure _) ?_
      grind

end

/-- In a library in which nothing else can fail, an include is expanded just when it opens. -/
theorem expandInclude_detects (complete : p.Complete) (bounds : p.BoundsNames) {room : Nat}
    {stack : List String} {name : String} :
    Detects (expandInclude p template room stack locals name) (p.Opens room stack name) := by
  induction room generalizing stack name locals with
  | zero =>
      intro t
      refine .inr ⟨id, ?_⟩
      rw [expandInclude]
      split
      · exact ⟨_, _, t, rfl⟩
      · exact ⟨_, _, t, rfl⟩
  | succ room ih =>
      rw [expandInclude]
      split
      · next met =>
          refine fun t => .inr ⟨fun opens => opens.1 (by simpa using met), _, _, t, rfl⟩
      · next unmet =>
          have fresh : name ∉ stack := by simpa using unmet
          cases hflat : p.flattened name with
          | error fault =>
              have isMissing := complete.missing name fault hflat
              dsimp only
              rw [if_pos isMissing]
              refine .congr (.bind (.noteMissing name) fun _ => .pure _) ?_
              simp [Plan.Opens, fresh, hflat, isMissing]
          | ok flat =>
              have places : ∀ pos inner, .include pos inner ∈ leavesOf flat.1.body →
                  Place.Detects p ⟨true, expandInclude p template room (name :: stack)⟩
                    (p.Opens room (name :: stack)) inner :=
                fun _ inner _ => ⟨fun _ => ih, Plan.search_ok complete.missing bounds inner⟩
              refine .congr (.bind (.noteFiles flat.2) fun _ => assembleAll_detects
                (List.nil_subset _) flat.1.body places (complete.registered name flat hflat)) ?_
              simp only [Plan.Opens, fresh, hflat, not_false_eq_true, true_and, Stmt.Includes]
              grind

theorem Plan.assembleAll_detects (complete : p.Complete) (bounds : p.BoundsNames)
    (name : Option String) {body : List Stmt}
    (registered : Code.EachAll (Expr.Registered p.registries) [] (own body)) :
    Detects (Stencil.assembleAll p name
        ⟨false, expandInclude p name p.limits.depth.toNat [firstGiven [name] unnamed]⟩ [] body)
      (p.OpensAll name body) := by
  have places : ∀ pos inner, .include pos inner ∈ leavesOf body → Place.Detects p
      ⟨false, expandInclude p name p.limits.depth.toNat [firstGiven [name] unnamed]⟩
      (p.Opens p.limits.depth.toNat [firstGiven [name] unnamed]) inner := fun _ inner _ =>
    ⟨fun _ => expandInclude_detects complete bounds, search_ok complete.missing bounds inner⟩
  refine .congr (Stencil.assembleAll_detects (List.nil_subset _) body places registered) ?_
  exact ⟨fun all inner ⟨pos, leaf⟩ => all pos inner leaf,
    fun all pos inner leaf => all inner ⟨pos, leaf⟩⟩

end Assemble

end Stencil
