import Stencil.Inheritance.Chain

namespace Stencil.Stmt

mutual

def leaves : Stmt → List Stmt
  | branch _ _ body others otherwise =>
      leavesOf body ++ (leavesOfOthers others ++ leavesOf otherwise)
  | loop _ _ _ body empty => leavesOf body ++ leavesOf empty
  | .while _ _ body => leavesOf body
  | block _ _ body => leavesOf body
  | spaceless _ body => leavesOf body
  | text p value => [text p value]
  | output p value escape => [output p value escape]
  | .include p name => [.include p name]
  | .set p target value => [.set p target value]
  | debug p value label => [debug p value label]

def leavesOf : List Stmt → List Stmt
  | [] => []
  | s :: rest => s.leaves ++ leavesOf rest

def leavesOfOthers : List (Expr × List Stmt) → List Stmt
  | [] => []
  | (_, body) :: rest => leavesOf body ++ leavesOfOthers rest

end

def Includes (body : List Stmt) (name : String) : Prop := ∃ p, .include p name ∈ leavesOf body

def OutputsEscape (body : List Stmt) : Prop :=
  ∀ p value escape, .output p value escape ∈ leavesOf body → escape = true

@[simp] theorem leavesOf_append (first second : List Stmt) :
    leavesOf (first ++ second) = leavesOf first ++ leavesOf second := by
  induction first with
  | nil => rfl
  | cons s rest ih => simp [leavesOf, ih]

theorem outputsEscape_append {first second : List Stmt} :
    OutputsEscape (first ++ second) ↔ OutputsEscape first ∧ OutputsEscape second := by
  constructor
  · intro all
    exact ⟨fun p value escape member => all p value escape (by simp [member]),
      fun p value escape member => all p value escape (by simp [member])⟩
  · intro ⟨inFirst, inSecond⟩ p value escape member
    rw [leavesOf_append, List.mem_append] at member
    exact member.elim (inFirst p value escape) (inSecond p value escape)

theorem mem_leavesOfOthers {leaf : Stmt} {others : List (Expr × List Stmt)} :
    leaf ∈ leavesOfOthers others ↔ ∃ other ∈ others, leaf ∈ leavesOf other.2 := by
  induction others with
  | nil => simp [leavesOfOthers]
  | cons other rest ih => simp [leavesOfOthers, ih]

theorem outputsEscape_branch {p : Pos} {condition : Expr} {body otherwise : List Stmt}
    {others : List (Expr × List Stmt)} (hbody : OutputsEscape body)
    (hothers : ∀ other ∈ others, OutputsEscape other.2) (hotherwise : OutputsEscape otherwise) :
    OutputsEscape [.branch p condition body others otherwise] := by
  intro pos value escape member
  simp only [leavesOf, leaves, List.append_nil, List.mem_append] at member
  rcases member with inBody | inOthers | inOtherwise
  · exact hbody pos value escape inBody
  · obtain ⟨other, isOther, inOther⟩ := mem_leavesOfOthers.mp inOthers
    exact hothers other isOther pos value escape inOther
  · exact hotherwise pos value escape inOtherwise

theorem outputsEscape_loop {p : Pos} {target : Target} {items : Expr} {body empty : List Stmt}
    (hbody : OutputsEscape body) (hempty : OutputsEscape empty) :
    OutputsEscape [.loop p target items body empty] := by
  intro pos value escape member
  simp only [leavesOf, leaves, List.append_nil, List.mem_append] at member
  rcases member with inBody | inEmpty
  · exact hbody pos value escape inBody
  · exact hempty pos value escape inEmpty

theorem outputsEscape_of_leaves {s : Stmt} {body : List Stmt} (same : s.leaves = leavesOf body)
    (hbody : OutputsEscape body) : OutputsEscape [s] := by
  intro pos value escape member
  rw [leavesOf, leavesOf, List.append_nil, same] at member
  exact hbody pos value escape member

theorem outputsEscape_flatten {pieces : List (List Stmt)}
    (all : ∀ piece ∈ pieces, OutputsEscape piece) : OutputsEscape pieces.flatten := by
  induction pieces with
  | nil => simp [OutputsEscape, leavesOf]
  | cons piece rest ih =>
      obtain ⟨here, further⟩ := List.forall_mem_cons.mp all
      exact outputsEscape_append.mpr ⟨here, ih further⟩

/-! Blocks of a table bring in the leaves of its bodies. -/

def InTable (table : BlockTable) (leaf : Stmt) : Prop :=
  ∃ entry ∈ table, leaf ∈ leavesOf entry.2

theorem InTable.of_lookup {table : BlockTable} {name : String} {body : List Stmt} {leaf : Stmt}
    (found : table.lookup name = some body) (member : leaf ∈ leavesOf body) :
    InTable table leaf := by
  obtain ⟨before, after, split, _⟩ := List.lookup_eq_some_iff.mp found
  exact ⟨(name, body), by simp [split], member⟩

section Fill

variable {table : BlockTable} {replace : List String → List Stmt → List Stmt}

mutual

theorem leaves_fill
    (hreplace : ∀ active body leaf, leaf ∈ leavesOf (replace active body) →
      leaf ∈ leavesOf body ∨ InTable table leaf)
    {active : List String} {leaf : Stmt} :
    (s : Stmt) → leaf ∈ leavesOf (fill table replace active s) →
      leaf ∈ s.leaves ∨ InTable table leaf
  | block _ name body, member => by
      rw [fill] at member
      split at member
      · exact leavesOf_fillAll hreplace body member
      · split at member
        · next winner found =>
            rcases hreplace _ _ _ member with inWinner | inTable
            · exact .inr (.of_lookup found inWinner)
            · exact .inr inTable
        · exact leavesOf_fillAll hreplace body member
  | branch _ _ body others otherwise, member => by
      simp only [fill, leavesOf, leaves, List.append_nil, List.mem_append] at member ⊢
      rcases member with inBody | inOthers | inOtherwise
      · exact (leavesOf_fillAll hreplace body inBody).imp_left .inl
      · exact (leavesOfOthers_fillOthers hreplace others inOthers).imp_left (.inr ∘ .inl)
      · exact (leavesOf_fillAll hreplace otherwise inOtherwise).imp_left (.inr ∘ .inr)
  | loop _ _ _ body empty, member => by
      simp only [fill, leavesOf, leaves, List.append_nil, List.mem_append] at member ⊢
      rcases member with inBody | inEmpty
      · exact (leavesOf_fillAll hreplace body inBody).imp_left .inl
      · exact (leavesOf_fillAll hreplace empty inEmpty).imp_left .inr
  | .while _ _ body, member => by
      simp only [fill, leavesOf, leaves, List.append_nil] at member ⊢
      exact leavesOf_fillAll hreplace body member
  | spaceless _ body, member => by
      simp only [fill, leavesOf, leaves, List.append_nil] at member ⊢
      exact leavesOf_fillAll hreplace body member
  | text _ _, member => .inl (by simpa [fill, leavesOf] using member)
  | output _ _ _, member => .inl (by simpa [fill, leavesOf] using member)
  | .include _ _, member => .inl (by simpa [fill, leavesOf] using member)
  | .set _ _ _, member => .inl (by simpa [fill, leavesOf] using member)
  | debug _ _ _, member => .inl (by simpa [fill, leavesOf] using member)

theorem leavesOf_fillAll
    (hreplace : ∀ active body leaf, leaf ∈ leavesOf (replace active body) →
      leaf ∈ leavesOf body ∨ InTable table leaf)
    {active : List String} {leaf : Stmt} :
    (body : List Stmt) → leaf ∈ leavesOf (fillAll table replace active body) →
      leaf ∈ leavesOf body ∨ InTable table leaf
  | [], member => by simp [fillAll, leavesOf] at member
  | s :: rest, member => by
      simp only [fillAll, leavesOf, leavesOf_append, List.mem_append] at member ⊢
      rcases member with inFirst | inRest
      · exact (leaves_fill hreplace s inFirst).imp_left .inl
      · exact (leavesOf_fillAll hreplace rest inRest).imp_left .inr

theorem leavesOfOthers_fillOthers
    (hreplace : ∀ active body leaf, leaf ∈ leavesOf (replace active body) →
      leaf ∈ leavesOf body ∨ InTable table leaf)
    {active : List String} {leaf : Stmt} :
    (others : List (Expr × List Stmt)) →
      leaf ∈ leavesOfOthers (fillOthers table replace active others) →
      leaf ∈ leavesOfOthers others ∨ InTable table leaf
  | [], member => by simp [fillOthers, leavesOfOthers] at member
  | (_, body) :: rest, member => by
      simp only [fillOthers, leavesOfOthers, List.mem_append] at member ⊢
      rcases member with inBody | inRest
      · exact (leavesOf_fillAll hreplace body inBody).imp_left .inl
      · exact (leavesOfOthers_fillOthers hreplace rest inRest).imp_left .inr

end

end Fill

theorem leavesOf_fillWithin {table : BlockTable} {rounds : Nat} {active : List String}
    {body : List Stmt} {leaf : Stmt}
    (member : leaf ∈ leavesOf (fillWithin table rounds active body)) :
    leaf ∈ leavesOf body ∨ InTable table leaf := by
  induction rounds generalizing active body leaf with
  | zero => exact leavesOf_fillAll (fun _ _ _ inBody => .inl inBody) body member
  | succ rounds ih => exact leavesOf_fillAll (fun _ _ _ inBody => ih inBody) body member

/-- Filled statements have the leaves of the statements and of the table, and no others. -/
theorem leavesOf_fillBlocks {table : BlockTable} {body : List Stmt} {leaf : Stmt}
    (member : leaf ∈ leavesOf (fillBlocks table body)) :
    leaf ∈ leavesOf body ∨ InTable table leaf :=
  leavesOf_fillWithin member

/-! The blocks of a template are made of its leaves. -/

mutual

theorem inTable_blocks {leaf : Stmt} :
    (s : Stmt) → InTable s.blocks leaf → leaf ∈ s.leaves
  | block _ name body, ⟨entry, member, inEntry⟩ => by
      simp only [blocks, List.mem_cons] at member
      rw [leaves]
      rcases member with rfl | member
      · exact inEntry
      · exact inTable_blocksOf body ⟨entry, member, inEntry⟩
  | branch _ _ body others otherwise, ⟨entry, member, inEntry⟩ => by
      simp only [blocks, List.mem_append] at member
      simp only [leaves, List.mem_append]
      rcases member with (inBody | inOtherwise) | inOthers
      · exact .inl (inTable_blocksOf body ⟨entry, inBody, inEntry⟩)
      · exact .inr (.inr (inTable_blocksOf otherwise ⟨entry, inOtherwise, inEntry⟩))
      · exact .inr (.inl (inTable_blocksOfOthers others ⟨entry, inOthers, inEntry⟩))
  | loop _ _ _ body empty, ⟨entry, member, inEntry⟩ => by
      simp only [blocks, List.mem_append] at member
      simp only [leaves, List.mem_append]
      rcases member with inBody | inEmpty
      · exact .inl (inTable_blocksOf body ⟨entry, inBody, inEntry⟩)
      · exact .inr (inTable_blocksOf empty ⟨entry, inEmpty, inEntry⟩)
  | .while _ _ body, ⟨entry, member, inEntry⟩ =>
      inTable_blocksOf body ⟨entry, by simpa [blocks] using member, inEntry⟩
  | spaceless _ body, ⟨entry, member, inEntry⟩ =>
      inTable_blocksOf body ⟨entry, by simpa [blocks] using member, inEntry⟩
  | text _ _, ⟨_, member, _⟩ => by simp [blocks] at member
  | output _ _ _, ⟨_, member, _⟩ => by simp [blocks] at member
  | .include _ _, ⟨_, member, _⟩ => by simp [blocks] at member
  | .set _ _ _, ⟨_, member, _⟩ => by simp [blocks] at member
  | debug _ _ _, ⟨_, member, _⟩ => by simp [blocks] at member

theorem inTable_blocksOf {leaf : Stmt} :
    (body : List Stmt) → InTable (blocksOf body) leaf → leaf ∈ leavesOf body
  | [], ⟨_, member, _⟩ => by simp [blocksOf] at member
  | s :: rest, ⟨entry, member, inEntry⟩ => by
      simp only [blocksOf, List.mem_append] at member
      simp only [leavesOf, List.mem_append]
      rcases member with inFirst | inRest
      · exact .inl (inTable_blocks s ⟨entry, inFirst, inEntry⟩)
      · exact .inr (inTable_blocksOf rest ⟨entry, inRest, inEntry⟩)

theorem inTable_blocksOfOthers {leaf : Stmt} :
    (others : List (Expr × List Stmt)) → InTable (blocksOfOthers others) leaf →
      leaf ∈ leavesOfOthers others
  | [], ⟨_, member, _⟩ => by simp [blocksOfOthers] at member
  | (_, body) :: rest, ⟨entry, member, inEntry⟩ => by
      simp only [blocksOfOthers, List.mem_append] at member
      simp only [leavesOfOthers, List.mem_append]
      rcases member with inBody | inRest
      · exact .inl (inTable_blocksOf body ⟨entry, inBody, inEntry⟩)
      · exact .inr (inTable_blocksOfOthers rest ⟨entry, inRest, inEntry⟩)

end

theorem inTable_blockTable {body : List Stmt} {leaf : Stmt}
    (inTable : InTable (blockTable body) leaf) : leaf ∈ leavesOf body := by
  obtain ⟨entry, member, inEntry⟩ := inTable
  exact inTable_blocksOf body ⟨entry, List.mem_reverse.mp member, inEntry⟩

end Stencil.Stmt
