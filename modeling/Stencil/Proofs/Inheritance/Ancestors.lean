import Stencil.Inheritance.Chain
import Stencil.Proofs.Stmt.Leaves

namespace Stencil.Chain

variable {ε : Type} {load load' : String → Except ε Found} {refuse refuse' : Diagnostic → ε}
  {maxDepth maxDepth' : Int}

/-- The names that the parents of a template lead to. -/
inductive Ancestor (load : String → Except ε Found) : Template → String → Prop
  | parent {t : Template} {q : Parent} : t.parent = some q → Ancestor load t q.template
  | further {t : Template} {q : Parent} {found : Found} {name : String} :
      t.parent = some q → load q.template = .ok found → Ancestor load found.template name →
        Ancestor load t name

theorem Ancestor.trans {t : Template} {found : Found} {first second : String}
    (toFirst : Ancestor load t first) (loaded : load first = .ok found)
    (toSecond : Ancestor load found.template second) : Ancestor load t second := by
  induction toFirst with
  | parent hparent => exact .further hparent loaded toSecond
  | further hparent hload _ ih => exact .further hparent hload (ih loaded)

theorem Ancestor.exists_parent {t : Template} {name : String} (ancestor : Ancestor load t name) :
    ∃ q, t.parent = some q := by
  cases ancestor with
  | parent hparent => exact ⟨_, hparent⟩
  | further hparent _ _ => exact ⟨_, hparent⟩

def addedFiles (found : Found) : List String := (found.filename.filter (· ≠ "")).toList

theorem follow_ok {room : Nat} {names : List String} {table : BlockTable} {files : List String}
    {t : Template} {root : Root}
    (followed : follow load refuse maxDepth room names table files t = .ok root) :
    (t.parent = none ∧ root = ⟨t, table, files⟩) ∨
      ∃ q room' found, t.parent = some q ∧ q.template ∉ names ∧ room = room' + 1 ∧
        load q.template = .ok found ∧
        follow load refuse maxDepth room' (q.template :: names) (table ++ Stmt.blockTable t.body)
          (files ++ addedFiles found) found.template = .ok root := by
  rw [follow.eq_def] at followed
  cases hparent : t.parent with
  | none =>
      simp only [hparent, Except.ok.injEq] at followed
      exact .inl ⟨rfl, followed.symm⟩
  | some q =>
      simp only [hparent] at followed
      split at followed
      · cases followed
      · next hfresh =>
          cases room with
          | zero => cases followed
          | succ room =>
              simp only at followed
              cases hload : load q.template with
              | error e =>
                  rw [hload] at followed
                  cases followed
              | ok found =>
                  rw [hload] at followed
                  have fresh : q.template ∉ names := by simpa using hfresh
                  exact .inr ⟨q, room, found, rfl, fresh, rfl, hload, followed⟩

theorem follow_parent {room : Nat} {names : List String} {table : BlockTable}
    {files : List String} {t : Template} {q : Parent} {found : Found}
    (hparent : t.parent = some q) (fresh : q.template ∉ names)
    (loaded : load q.template = .ok found) :
    follow load refuse maxDepth (room + 1) names table files t =
      follow load refuse maxDepth room (q.template :: names) (table ++ Stmt.blockTable t.body)
        (files ++ addedFiles found) found.template := by
  rw [follow]
  simp [hparent, fresh, loaded, addedFiles]

theorem follow_last {room : Nat} {names : List String} {table : BlockTable} {files : List String}
    {t : Template} (hparent : t.parent = none) :
    follow load refuse maxDepth room names table files t = .ok ⟨t, table, files⟩ := by
  rw [follow.eq_def]
  simp only [hparent]

section Followed

variable {room : Nat} {names : List String} {table : BlockTable} {files : List String}
  {t : Template} {root : Root}

theorem follow_rest (followed : follow load refuse maxDepth room names table files t = .ok root)
    {q : Parent} (hparent : t.parent = some q) :
    ∃ room' found, q.template ∉ names ∧ room = room' + 1 ∧ load q.template = .ok found ∧
      follow load refuse maxDepth room' (q.template :: names) (table ++ Stmt.blockTable t.body)
        (files ++ addedFiles found) found.template = .ok root := by
  rcases follow_ok followed with ⟨hnone, _⟩ | ⟨q', room', found, hsome, fresh, hroom, loaded, rest⟩
  · rw [hparent] at hnone
    cases hnone
  · rw [hparent] at hsome
    cases hsome
    exact ⟨room', found, fresh, hroom, loaded, rest⟩

theorem follow_fresh (followed : follow load refuse maxDepth room names table files t = .ok root)
    {name : String} (ancestor : Ancestor load t name) : name ∉ names := by
  induction ancestor generalizing room names table files with
  | parent hparent =>
      obtain ⟨_, _, fresh, _⟩ := follow_rest followed hparent
      exact fresh
  | further hparent hload _ ih =>
      obtain ⟨_, found, _, _, loaded, rest⟩ := follow_rest followed hparent
      rw [hload] at loaded
      cases loaded
      intro member
      exact ih rest (List.mem_cons_of_mem _ member)

theorem follow_acyclic
    (followed : follow load refuse maxDepth room names table files t = .ok root)
    {name : String} {found : Found} (ancestor : Ancestor load t name)
    (loaded : load name = .ok found) : found.template ≠ t := by
  intro same
  obtain ⟨q, hparent⟩ := ancestor.exists_parent
  obtain ⟨_, first, _, _, hload, rest⟩ := follow_rest followed hparent
  -- The way from the parent would come to the parent again.
  have again : Ancestor load first.template q.template := by
    cases ancestor with
    | parent hparent' =>
        rw [hparent] at hparent'
        cases hparent'
        rw [hload] at loaded
        cases loaded
        rw [same]
        exact .parent hparent
    | further hparent' hload' further =>
        rw [hparent] at hparent'
        cases hparent'
        rw [hload] at hload'
        cases hload'
        refine further.trans loaded ?_
        rw [same]
        exact .parent hparent
  exact follow_fresh rest again List.mem_cons_self

theorem follow_files (followed : follow load refuse maxDepth room names table files t = .ok root) :
    files ⊆ root.files := by
  induction room generalizing names table files t with
  | zero =>
      rcases follow_ok followed with ⟨_, rfl⟩ | ⟨_, _, _, _, _, hroom, _⟩
      · exact List.Subset.refl files
      · cases hroom
  | succ room ih =>
      rcases follow_ok followed with ⟨_, rfl⟩ | ⟨_, _, _, _, _, hroom, _, rest⟩
      · exact List.Subset.refl files
      · cases hroom
        exact List.Subset.trans (List.subset_append_left files _) (ih rest)

theorem follow_found (followed : follow load refuse maxDepth room names table files t = .ok root)
    {name : String} (ancestor : Ancestor load t name) :
    ∃ found, load name = .ok found ∧ addedFiles found ⊆ root.files := by
  induction ancestor generalizing room names table files with
  | parent hparent =>
      obtain ⟨_, found, _, _, loaded, rest⟩ := follow_rest followed hparent
      exact ⟨found, loaded,
        List.Subset.trans (List.subset_append_right files _) (follow_files rest)⟩
  | further hparent hload _ ih =>
      obtain ⟨_, found, _, _, loaded, rest⟩ := follow_rest followed hparent
      rw [hload] at loaded
      cases loaded
      exact ih rest

/-- A way is the same where all the ancestors are, and where it starts from another name that is not
among them. -/
theorem follow_carries
    (followed : follow load refuse maxDepth room names table files t = .ok root)
    {names' : List String} {files' : List String}
    (agree : ∀ name found, Ancestor load t name → load name = .ok found →
      ∃ found', load' name = .ok found' ∧ found'.template = found.template)
    (fresh : ∀ name, Ancestor load t name → name ∉ names') :
    ∃ root', follow load' refuse' maxDepth' room names' table files' t = .ok root' ∧
      root'.template = root.template ∧ root'.table = root.table := by
  induction room generalizing names table files t names' files' with
  | zero =>
      rcases follow_ok followed with ⟨hparent, rfl⟩ | ⟨_, _, _, _, _, hroom, _⟩
      · exact ⟨_, follow_last hparent, rfl, rfl⟩
      · cases hroom
  | succ room ih =>
      rcases follow_ok followed with ⟨hparent, rfl⟩ | ⟨q, _, found, hparent, _, hroom, loaded, rest⟩
      · exact ⟨_, follow_last hparent, rfl, rfl⟩
      · cases hroom
        obtain ⟨found', loaded', same⟩ := agree _ _ (.parent hparent) loaded
        rw [follow_parent hparent (fresh _ (.parent hparent)) loaded', same]
        refine ih rest ?_ ?_
        · intro name further ancestor
          exact agree name further (.further hparent loaded ancestor)
        · intro name ancestor member
          rcases List.mem_cons.mp member with rfl | old
          · exact follow_fresh rest ancestor List.mem_cons_self
          · exact fresh name (.further hparent loaded ancestor) old

theorem follow_same (followed : follow load refuse maxDepth room names table files t = .ok root)
    (agree : ∀ name found, Ancestor load t name → load name = .ok found →
      load' name = .ok found) :
    follow load' refuse' maxDepth' room names table files t = .ok root := by
  induction room generalizing names table files t with
  | zero =>
      rcases follow_ok followed with ⟨hparent, rfl⟩ | ⟨_, _, _, _, _, hroom, _⟩
      · exact follow_last hparent
      · cases hroom
  | succ room ih =>
      rcases follow_ok followed with
        ⟨hparent, rfl⟩ | ⟨q, _, found, hparent, fresh, hroom, loaded, rest⟩
      · exact follow_last hparent
      · cases hroom
        rw [follow_parent hparent fresh (agree _ _ (.parent hparent) loaded)]
        refine ih rest fun name further ancestor => ?_
        exact agree name further (.further hparent loaded ancestor)

/-- The last template and the blocks on the way to it are made of what the template and its
ancestors are made of. -/
theorem follow_leaves (followed : follow load refuse maxDepth room names table files t = .ok root)
    {Q : Stmt → Prop} (own : ∀ leaf ∈ Stmt.leavesOf t.body, Q leaf)
    (inTable : ∀ leaf, Stmt.InTable table leaf → Q leaf)
    (ancestors : ∀ name found, Ancestor load t name → load name = .ok found →
      ∀ leaf ∈ Stmt.leavesOf found.template.body, Q leaf) :
    (∀ leaf ∈ Stmt.leavesOf root.template.body, Q leaf) ∧
      ∀ leaf, Stmt.InTable root.table leaf → Q leaf := by
  induction room generalizing names table files t with
  | zero =>
      rcases follow_ok followed with ⟨_, rfl⟩ | ⟨_, _, _, _, _, hroom, _⟩
      · exact ⟨own, inTable⟩
      · cases hroom
  | succ room ih =>
      rcases follow_ok followed with ⟨_, rfl⟩ | ⟨_, _, _, hparent, _, hroom, loaded, rest⟩
      · exact ⟨own, inTable⟩
      · cases hroom
        refine ih rest (ancestors _ _ (.parent hparent) loaded) ?_ ?_
        · rintro leaf ⟨entry, member, inEntry⟩
          rcases List.mem_append.mp member with old | new
          · exact inTable leaf ⟨entry, old, inEntry⟩
          · exact own leaf (Stmt.inTable_blockTable ⟨entry, new, inEntry⟩)
        · intro name found ancestor
          exact ancestors name found (.further hparent loaded ancestor)

end Followed

/-! What flattening gives. -/

variable {t : Template} {name : String} {flat : Template × List String}

theorem flatten_ok (flattened : flatten load refuse maxDepth t name = .ok flat) :
    ∃ root, follow load refuse maxDepth maxDepth.toNat [name] [] [] t = .ok root ∧
      flat = (⟨Stmt.fillBlocks root.table root.template.body, none⟩, root.files) := by
  rw [flatten] at flattened
  cases hfollow : follow load refuse maxDepth maxDepth.toNat [name] [] [] t with
  | error e =>
      rw [hfollow] at flattened
      cases flattened
  | ok root =>
      rw [hfollow] at flattened
      exact ⟨root, rfl, (Except.ok.inj flattened).symm⟩

theorem flatten_found (flattened : flatten load refuse maxDepth t name = .ok flat)
    {ancestor : String} (isAncestor : Ancestor load t ancestor) :
    ∃ found, load ancestor = .ok found ∧ addedFiles found ⊆ flat.2 := by
  obtain ⟨root, followed, rfl⟩ := flatten_ok flattened
  exact follow_found followed isAncestor

theorem flatten_carries (flattened : flatten load refuse maxDepth t name = .ok flat)
    (agree : ∀ name found, Ancestor load t name → load name = .ok found →
      ∃ found', load' name = .ok found' ∧ found'.template = found.template) :
    ∃ flat', flatten load' refuse' maxDepth t name = .ok flat' ∧ flat'.1 = flat.1 := by
  obtain ⟨root, followed, rfl⟩ := flatten_ok flattened
  obtain ⟨root', followed', sameTemplate, sameTable⟩ :=
    follow_carries followed agree fun _ ancestor => follow_fresh followed ancestor
  rw [flatten, followed']
  exact ⟨_, rfl, by rw [sameTemplate, sameTable]⟩

theorem flatten_same (flattened : flatten load refuse maxDepth t name = .ok flat)
    (agree : ∀ name found, Ancestor load t name → load name = .ok found →
      load' name = .ok found) :
    flatten load' refuse' maxDepth t name = .ok flat := by
  obtain ⟨root, followed, rfl⟩ := flatten_ok flattened
  rw [flatten, follow_same followed agree]

theorem flatten_renamed (flattened : flatten load refuse maxDepth t name = .ok flat)
    {other : String} {found : Found} (loaded : load other = .ok found)
    (same : found.template = t) :
    ∃ flat', flatten load refuse maxDepth t other = .ok flat' ∧ flat'.1 = flat.1 := by
  obtain ⟨root, followed, rfl⟩ := flatten_ok flattened
  have fresh : ∀ ancestor, Ancestor load t ancestor → ancestor ∉ [other] := by
    intro ancestor isAncestor member
    rw [List.mem_singleton] at member
    rw [member] at isAncestor
    exact follow_acyclic followed isAncestor loaded same
  obtain ⟨root', followed', sameTemplate, sameTable⟩ :=
    follow_carries followed (fun _ found _ loaded => ⟨found, loaded, rfl⟩) fresh
  rw [flatten, followed']
  exact ⟨_, rfl, by rw [sameTemplate, sameTable]⟩

theorem flatten_leaves (flattened : flatten load refuse maxDepth t name = .ok flat)
    {Q : Stmt → Prop} (own : ∀ leaf ∈ Stmt.leavesOf t.body, Q leaf)
    (ancestors : ∀ name found, Ancestor load t name → load name = .ok found →
      ∀ leaf ∈ Stmt.leavesOf found.template.body, Q leaf) :
    ∀ leaf ∈ Stmt.leavesOf flat.1.body, Q leaf := by
  obtain ⟨root, followed, rfl⟩ := flatten_ok flattened
  obtain ⟨inRoot, inTable⟩ := follow_leaves followed own
    (fun _ ⟨_, member, _⟩ => nomatch member) ancestors
  intro leaf member
  rcases Stmt.leavesOf_fillBlocks member with inBody | inTables
  · exact inRoot leaf inBody
  · exact inTable leaf inTables

end Stencil.Chain
