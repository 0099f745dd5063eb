import Stencil.Proofs.Assembly.Assembled
import Stencil.Proofs.Assembly.Transfer
import Stencil.Proofs.Inheritance.Inlining

namespace Stencil

namespace Stmt

variable {flat : String → Option (List Stmt)} {expand expand' : String → List Code}
  {Counts : String → Prop}

/-- Whether includes come to what the statements that replace them come to. Only the names that
count are looked at, and those that are included in their place. -/
structure Unfolds (flat : String → Option (List Stmt)) (expand : String → List Code)
    (Counts : String → Prop) : Prop where
  same : ∀ name body, Counts name → flat name = some body → expand name = outlineAll expand body
  further : ∀ name body, Counts name → flat name = some body →
    ∀ p inner, .include p inner ∈ leavesOf body → Counts inner

theorem outlineAll_singleton (s : Stmt) : outlineAll expand [s] = outline expand s := by
  rw [outlineAll, outlineAll, List.append_nil]

mutual

theorem Inlines.outline (unfolds : Unfolds flat expand Counts) {s : Stmt} {written : List Stmt} :
    Inlines flat s written → (∀ p name, .include p name ∈ s.leaves → Counts name) →
      (∀ p name, .include p name ∈ leavesOf written → Counts name → expand name = expand' name) →
      Stmt.outline expand s = outlineAll expand' written
  | .inlined found inner, counts, kept => by
      have here := counts _ _ (List.mem_singleton.mpr rfl)
      rw [Stmt.outline, unfolds.same _ _ here found]
      exact InlinesAll.outline unfolds inner (unfolds.further _ _ here found) kept
  | .include, counts, kept => by
      rw [outlineAll_singleton, Stmt.outline, Stmt.outline]
      exact kept _ _ (List.mem_singleton.mpr rfl) (counts _ _ (List.mem_singleton.mpr rfl))
  | .branch same body others otherwise, counts, kept => by
      simp only [leavesOf, leaves, List.append_nil, List.mem_append] at counts kept
      rw [outlineAll_singleton, Stmt.outline, Stmt.outline, same,
        InlinesAll.outline unfolds body (fun p name leaf => counts p name (.inl leaf))
          fun p name leaf => kept p name (.inl leaf),
        InlinesOthers.outline unfolds others (fun p name leaf => counts p name (.inr (.inl leaf)))
          fun p name leaf => kept p name (.inr (.inl leaf)),
        InlinesAll.outline unfolds otherwise (fun p name leaf => counts p name (.inr (.inr leaf)))
          fun p name leaf => kept p name (.inr (.inr leaf))]
  | .loop target items body empty, counts, kept => by
      simp only [leavesOf, leaves, List.append_nil, List.mem_append] at counts kept
      rw [outlineAll_singleton, Stmt.outline, Stmt.outline, target, items,
        InlinesAll.outline unfolds body (fun p name leaf => counts p name (.inl leaf))
          fun p name leaf => kept p name (.inl leaf),
        InlinesAll.outline unfolds empty (fun p name leaf => counts p name (.inr leaf))
          fun p name leaf => kept p name (.inr leaf)]
  | .while same body, counts, kept => by
      simp only [leavesOf, leaves, List.append_nil] at counts kept
      rw [outlineAll_singleton, Stmt.outline, Stmt.outline, same,
        InlinesAll.outline unfolds body counts kept]
  | .block body, counts, kept => by
      simp only [leavesOf, leaves, List.append_nil] at counts kept
      rw [outlineAll_singleton, Stmt.outline, Stmt.outline,
        InlinesAll.outline unfolds body counts kept]
  | .spaceless body, counts, kept => by
      simp only [leavesOf, leaves, List.append_nil] at counts kept
      rw [outlineAll_singleton, Stmt.outline, Stmt.outline,
        InlinesAll.outline unfolds body counts kept]
  | .text, _, _ => by rw [outlineAll_singleton, Stmt.outline, Stmt.outline]
  | .output same, _, _ => by rw [outlineAll_singleton, Stmt.outline, Stmt.outline, same]
  | .set target same, _, _ => by
      rw [outlineAll_singleton, Stmt.outline, Stmt.outline, target, same]
  | .debug same, _, _ => by rw [outlineAll_singleton, Stmt.outline, Stmt.outline, same]

theorem InlinesAll.outline (unfolds : Unfolds flat expand Counts) {body written : List Stmt} :
    InlinesAll flat body written → (∀ p name, .include p name ∈ leavesOf body → Counts name) →
      (∀ p name, .include p name ∈ leavesOf written → Counts name → expand name = expand' name) →
      outlineAll expand body = outlineAll expand' written
  | .nil, _, _ => rfl
  | .cons first rest, counts, kept => by
      simp only [leavesOf, leavesOf_append, List.mem_append] at counts kept
      rw [outlineAll, outlineAll_append,
        Inlines.outline unfolds first (fun p name leaf => counts p name (.inl leaf))
          fun p name leaf => kept p name (.inl leaf),
        InlinesAll.outline unfolds rest (fun p name leaf => counts p name (.inr leaf))
          fun p name leaf => kept p name (.inr leaf)]

theorem InlinesOthers.outline (unfolds : Unfolds flat expand Counts)
    {others written : List (Expr × List Stmt)} :
    InlinesOthers flat others written →
      (∀ p name, .include p name ∈ leavesOfOthers others → Counts name) →
      (∀ p name, .include p name ∈ leavesOfOthers written → Counts name →
        expand name = expand' name) →
      outlineOthers expand others = outlineOthers expand' written
  | .nil, _, _ => rfl
  | .cons same body rest, counts, kept => by
      simp only [leavesOfOthers, List.mem_append] at counts kept
      rw [outlineOthers, outlineOthers, same,
        InlinesAll.outline unfolds body (fun p name leaf => counts p name (.inl leaf))
          fun p name leaf => kept p name (.inl leaf),
        InlinesOthers.outline unfolds rest (fun p name leaf => counts p name (.inr leaf))
          fun p name leaf => kept p name (.inr leaf)]

end

end Stmt

namespace Plan

variable {p q : Plan} {name : String} {flat flat' : Template × List String}

def body? (p : Plan) (name : String) : Option (List Stmt) :=
  (p.flattened name).toOption.map fun flat => flat.1.body

theorem body?_eq_some {body : List Stmt} (found : p.body? name = some body) :
    ∃ flat, p.flattened name = .ok flat ∧ flat.1.body = body := by
  unfold body? at found
  cases hflat : p.flattened name with
  | error fault =>
      rw [hflat] at found
      cases found
  | ok flat =>
      rw [hflat] at found
      exact ⟨flat, rfl, Option.some.inj found⟩

theorem body?_blockFree (p : Plan) : Stmt.BlockFree p.body? := by
  intro name body found
  obtain ⟨flat, flattened, rfl⟩ := body?_eq_some found
  obtain ⟨_, inner, _, hflatten, rfl⟩ := flattened_ok flattened
  obtain ⟨root, _, rfl⟩ := Chain.flatten_ok hflatten
  exact Stmt.blocksOf_fillBlocks _ _

/-- A plan that differs in its library only, in the templates of which some includes are replaced by
the statements that they lead to. -/
structure Inlines (p q : Plan) : Prop where
  shares : p.Shares q
  found : ∀ name, Except.Agree (Found.Inlines p.body?) (p.found name) (q.found name)

theorem Inlines.refl (p : Plan) : p.Inlines p where
  shares := .refl p
  found name := by
    cases p.found name with
    | error fault => exact .error
    | ok found => exact .ok (.refl found.template)

theorem Inlines.flatten (inlines : p.Inlines q) {t t' : Template} (same : t.Inlines p.body? t')
    (name : String) :
    Except.Agree (fun whole whole' => Stmt.InlinesAll p.body? whole.1.body whole'.1.body)
      (p.flatten t name) (q.flatten t' name) := by
  unfold Plan.flatten
  rw [inlines.shares.limits]
  exact Chain.flatten_inlines p.body?_blockFree inlines.found same name

theorem Inlines.flattened (inlines : p.Inlines q) (name : String) :
    Except.Agree (fun whole whole' => Stmt.InlinesAll p.body? whole.1.body whole'.1.body)
      (p.flattened name) (q.flattened name) := by
  have found := inlines.found name
  unfold Plan.flattened
  generalize p.found name = r at found ⊢
  generalize q.found name = r' at found ⊢
  cases found with
  | error => exact .error
  | @ok before after same =>
      have whole := inlines.flatten same name
      simp only [bind, Except.bind]
      generalize p.flatten before.template name = r at whole ⊢
      generalize q.flatten after.template name = r' at whole ⊢
      cases whole with
      | error => exact .error
      | ok related => exact .ok related

/-! Includes that open. -/

/-- Whether an include opens somewhere, within the depth that is allowed. -/
def Opened (p : Plan) (name : String) : Prop :=
  ∃ room stack, room ≤ p.limits.depth.toNat ∧ p.Opens room stack name

theorem Opened.inner (opened : p.Opened name) (flattened : p.flattened name = .ok flat)
    {inner : String} (isIncluded : Stmt.Includes flat.1.body inner) : p.Opened inner := by
  obtain ⟨room, stack, shallow, opens⟩ := opened
  cases room with
  | zero => exact opens.elim
  | succ room =>
      obtain ⟨_, further⟩ := opens
      rw [flattened] at further
      exact ⟨room, name :: stack, by omega, further inner isIncluded⟩

/-- What an include that opens comes to, when as much may be nested in it as anywhere else. -/
theorem Opened.included (opened : p.Opened name) :
    p.included p.limits.depth.toNat name =
      match p.flattened name with
      | .ok flat => p.outline flat.1.body
      | .error _ => [] := by
  obtain ⟨room, stack, shallow, opens⟩ := opened
  rw [included_of_opens opens shallow]
  cases room with
  | zero => exact opens.elim
  | succ room =>
      obtain ⟨_, further⟩ := opens
      rw [Plan.included]
      cases hflat : p.flattened name with
      | error fault => rfl
      | ok flat =>
          rw [hflat] at further
          refine Stmt.outlineAll_congr flat.1.body fun pos inner leaf => ?_
          exact (included_of_opens (further inner ⟨pos, leaf⟩) (by omega)).symm

theorem unfolds_of_opened (p : Plan) :
    Stmt.Unfolds p.body? (p.included p.limits.depth.toNat) p.Opened where
  same name body opened found := by
    obtain ⟨flat, flattened, rfl⟩ := body?_eq_some found
    rw [opened.included, flattened]
    rfl
  further name body opened found pos inner leaf := by
    obtain ⟨flat, flattened, rfl⟩ := body?_eq_some found
    exact opened.inner flattened ⟨pos, leaf⟩

/-- An include that is kept comes to the same, as the statements in the place of those that it leads
to do. -/
theorem Inlines.included (inlines : p.Inlines q) {room : Nat} {stack : List String}
    (shallow : room ≤ q.limits.depth.toNat) (opens : q.Opens room stack name)
    (opened : p.Opened name) :
    p.included p.limits.depth.toNat name = q.included q.limits.depth.toNat name := by
  induction room generalizing stack name with
  | zero => exact opens.elim
  | succ room ih =>
      rw [opened.included, Opened.included ⟨room + 1, stack, shallow, opens⟩]
      obtain ⟨_, further⟩ := opens
      have whole := inlines.flattened name
      cases hflat : p.flattened name with
      | error fault =>
          rw [hflat] at whole
          cases hflat' : q.flattened name with
          | error fault => rfl
          | ok flat' =>
              rw [hflat'] at whole
              cases whole
      | ok flat =>
          rw [hflat] at whole
          cases hflat' : q.flattened name with
          | error fault =>
              rw [hflat'] at whole
              cases whole
          | ok flat' =>
              rw [hflat'] at whole further
              cases whole with
              | ok related =>
                  refine Stmt.InlinesAll.outline p.unfolds_of_opened related
                    (fun pos inner leaf => opened.inner hflat ⟨pos, leaf⟩)
                    fun pos inner leaf opened => ?_
                  exact ih (by omega) (further inner ⟨pos, leaf⟩) opened

theorem OpensAll.opened {name : Option String} {body : List Stmt} (opens : p.OpensAll name body)
    {inner : String} (isIncluded : Stmt.Includes body inner) : p.Opened inner :=
  ⟨_, _, Nat.le_refl _, opens inner isIncluded⟩

theorem Inlines.outline (inlines : p.Inlines q) {name : Option String} {body written : List Stmt}
    (related : Stmt.InlinesAll p.body? body written) (opens : p.OpensAll name body)
    (opens' : q.OpensAll name written) : p.outline body = q.outline written := by
  refine Stmt.InlinesAll.outline p.unfolds_of_opened related
    (fun pos inner leaf => opens.opened ⟨pos, leaf⟩) fun pos inner leaf opened => ?_
  exact inlines.included (Nat.le_refl _) (opens' inner ⟨pos, leaf⟩) opened

/-- A template in which includes are replaced is assembled to the same code, up to marks and places,
if it is assembled at all. -/
theorem Inlines.assembleTemplate (inlines : p.Inlines q) {t t' : Template}
    (same : t.Inlines p.body? t') {name filename : Option String} {a a' : Assembled}
    {s u s' u' : Trail} (run : (p.assembleTemplate t name filename).run s = (.ok a, u))
    (run' : (q.assembleTemplate t' name filename).run s' = (.ok a', u')) :
    Code.bareAll a.code = Code.bareAll a'.code := by
  obtain ⟨flat, _, flattened, _⟩ := Step.run_bind_ok run
  obtain ⟨flat', _, flattened', _⟩ := Step.run_bind_ok run'
  have hflatten := (Assembly.ofExcept_run_ok flattened).1
  have hflatten' := (Assembly.ofExcept_run_ok flattened').1
  have whole := inlines.flatten same (firstGiven [name] "<string>")
  rw [hflatten, hflatten'] at whole
  cases whole with
  | ok related =>
      obtain ⟨⟨opens, _, _⟩, outlined⟩ := (assembleTemplate_decides hflatten).only run
      obtain ⟨⟨opens', _, _⟩, outlined'⟩ := (assembleTemplate_decides hflatten').only run'
      rw [outlined, outlined', inlines.outline related opens opens']

end Plan

end Stencil
