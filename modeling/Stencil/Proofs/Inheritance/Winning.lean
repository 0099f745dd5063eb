import Mathlib.Data.List.Nodup
import Mathlib.Data.List.Perm.Basic
import Stencil.Proofs.Grammar.Order
import Stencil.Proofs.Grammar.RoundTrip

/-!
Which of several definitions of a block counts: the last one of the source, unless it stands in the
else part of a branch one of whose alternative conditions defines the block too. Such a definition
is collected after those in the else part.
-/

namespace Stencil.Stmt

def definition? : Stmt → Option (String × List Stmt)
  | block _ name body => some (name, body)
  | _ => none

/-! Block statements in the order in which their definitions are collected. -/

mutual

def collected : Stmt → List Stmt
  | block p name body => block p name body :: collectedOf body
  | branch _ _ body others otherwise =>
      collectedOf body ++ collectedOf otherwise ++ collectedOfOthers others
  | loop _ _ _ body empty => collectedOf body ++ collectedOf empty
  | .while _ _ body => collectedOf body
  | spaceless _ body => collectedOf body
  | text _ _ | output _ _ _ | .include _ _ | .set _ _ _ | debug _ _ _ => []

def collectedOf : List Stmt → List Stmt
  | [] => []
  | s :: rest => s.collected ++ collectedOf rest

def collectedOfOthers : List (Expr × List Stmt) → List Stmt
  | [] => []
  | (_, body) :: rest => collectedOf body ++ collectedOfOthers rest

end

mutual

theorem blocks_eq_filterMap : (s : Stmt) → s.blocks = s.collected.filterMap definition?
  | block _ _ body => by simp [blocks, collected, definition?, blocksOf_eq_filterMap body]
  | branch _ _ body others otherwise => by
      simp [blocks, collected, List.filterMap_append, blocksOf_eq_filterMap body,
        blocksOf_eq_filterMap otherwise, blocksOfOthers_eq_filterMap others]
  | loop _ _ _ body empty => by
      simp [blocks, collected, List.filterMap_append, blocksOf_eq_filterMap body,
        blocksOf_eq_filterMap empty]
  | .while _ _ body => by rw [blocks, collected, blocksOf_eq_filterMap body]
  | spaceless _ body => by rw [blocks, collected, blocksOf_eq_filterMap body]
  | text _ _ | output _ _ _ | .include _ _ | .set _ _ _ | debug _ _ _ => rfl

theorem blocksOf_eq_filterMap :
    (written : List Stmt) → blocksOf written = (collectedOf written).filterMap definition?
  | [] => rfl
  | s :: rest => by
      simp [blocksOf, collectedOf, List.filterMap_append, blocks_eq_filterMap s,
        blocksOf_eq_filterMap rest]

theorem blocksOfOthers_eq_filterMap :
    (others : List (Expr × List Stmt)) →
      blocksOfOthers others = (collectedOfOthers others).filterMap definition?
  | [] => rfl
  | (_, body) :: rest => by
      simp [blocksOfOthers, collectedOfOthers, List.filterMap_append, blocksOf_eq_filterMap body,
        blocksOfOthers_eq_filterMap rest]

end

/-! What is collected are the blocks among the statements at all depths. -/

def isBlock (s : Stmt) : Bool := s.definition?.isSome

mutual

theorem collected_perm : (s : Stmt) → s.collected.Perm (s.parts.filter isBlock)
  | block p name body => by
      rw [collected, parts, List.filter_cons_of_pos rfl]
      exact (collectedOf_perm body).cons _
  | branch p condition body others otherwise => by
      rw [collected, parts, List.filter_cons_of_neg (by simp [isBlock, definition?]),
        List.filter_append, List.filter_append, List.append_assoc]
      refine (collectedOf_perm body).append ?_
      exact ((collectedOf_perm otherwise).append (collectedOfOthers_perm others)).trans
        List.perm_append_comm
  | loop p target items body empty => by
      rw [collected, parts, List.filter_cons_of_neg (by simp [isBlock, definition?]),
        List.filter_append]
      exact (collectedOf_perm body).append (collectedOf_perm empty)
  | .while p condition body => by
      rw [collected, parts, List.filter_cons_of_neg (by simp [isBlock, definition?])]
      exact collectedOf_perm body
  | spaceless p body => by
      rw [collected, parts, List.filter_cons_of_neg (by simp [isBlock, definition?])]
      exact collectedOf_perm body
  | text _ _ | output _ _ _ | .include _ _ | .set _ _ _ | debug _ _ _ => .refl _

theorem collectedOf_perm :
    (written : List Stmt) → (collectedOf written).Perm ((partsOf written).filter isBlock)
  | [] => .refl _
  | s :: rest => by
      rw [collectedOf, partsOf, List.filter_append]
      exact (collected_perm s).append (collectedOf_perm rest)

theorem collectedOfOthers_perm :
    (others : List (Expr × List Stmt)) →
      (collectedOfOthers others).Perm ((partsOfOthers others).filter isBlock)
  | [] => .refl _
  | (_, body) :: rest => by
      rw [collectedOfOthers, partsOfOthers, List.filter_append]
      exact (collectedOf_perm body).append (collectedOfOthers_perm rest)

end

theorem collectedOf_subset (written : List Stmt) : collectedOf written ⊆ partsOf written :=
  fun _ member => List.mem_of_mem_filter ((collectedOf_perm written).mem_iff.mp member)

theorem collectedOfOthers_subset (others : List (Expr × List Stmt)) :
    collectedOfOthers others ⊆ partsOfOthers others :=
  fun _ member => List.mem_of_mem_filter ((collectedOfOthers_perm others).mem_iff.mp member)

theorem block_mem_collectedOf {written : List Stmt} {p : Pos} {name : String} {body : List Stmt} :
    block p name body ∈ collectedOf written ↔ block p name body ∈ partsOf written := by
  rw [(collectedOf_perm written).mem_iff, List.mem_filter]
  exact and_iff_left rfl

theorem block_mem_collectedOfOthers {others : List (Expr × List Stmt)} {p : Pos} {name : String}
    {body : List Stmt} :
    block p name body ∈ collectedOfOthers others ↔ block p name body ∈ partsOfOthers others := by
  rw [(collectedOfOthers_perm others).mem_iff, List.mem_filter]
  exact and_iff_left rfl

/-! The order of collection is that of the source, but in branches. -/

/-- Whether a branch among some statements has one statement in its else part, and another one
behind one of its alternative conditions. -/
def Crossed (among : List Stmt) (first second : Stmt) : Prop :=
  ∃ p condition body others otherwise, branch p condition body others otherwise ∈ among ∧
    first ∈ partsOf otherwise ∧ second ∈ partsOfOthers others

/-- Whether one of two statements comes before the other, or a branch crosses them. -/
def InOrder (among : List Stmt) (first second : Stmt) : Prop :=
  [first, second].Sublist among ∨ Crossed among first second

theorem pair_sublist_append {α : Type} {a b : α} {first second : List α} :
    [a, b].Sublist (first ++ second) ↔
      [a, b].Sublist first ∨ (a ∈ first ∧ b ∈ second) ∨ [a, b].Sublist second := by
  constructor
  · intro within
    obtain ⟨left, right, split, inFirst, inSecond⟩ := List.sublist_append_iff.mp within
    rcases left with _ | ⟨x, _ | ⟨y, left⟩⟩
    · cases split
      exact .inr (.inr inSecond)
    · cases split
      exact .inr (.inl ⟨inFirst.subset List.mem_cons_self, inSecond.subset List.mem_cons_self⟩)
    · simp only [List.cons_append, List.cons.injEq, List.nil_eq, List.append_eq_nil_iff] at split
      obtain ⟨rfl, rfl, rfl, rfl⟩ := split
      exact .inl inFirst
  · rintro (inFirst | ⟨inFirst, inSecond⟩ | inSecond)
    · exact inFirst.trans (List.sublist_append_left _ _)
    · exact (List.singleton_sublist.mpr inFirst).append (List.singleton_sublist.mpr inSecond)
    · exact inSecond.trans (List.sublist_append_right _ _)

section InOrder

variable {among more : List Stmt} {first second : Stmt}

theorem InOrder.mono (ordered : InOrder among first second) (within : among.Sublist more) :
    InOrder more first second := by
  rcases ordered with before | ⟨p, condition, body, others, otherwise, member, crossed⟩
  · exact .inl (before.trans within)
  · exact .inr ⟨p, condition, body, others, otherwise, within.subset member, crossed⟩

theorem InOrder.append (inFirst : first ∈ among) (inSecond : second ∈ more) :
    InOrder (among ++ more) first second :=
  .inl (pair_sublist_append.mpr (.inr (.inl ⟨inFirst, inSecond⟩)))

theorem InOrder.inFront (ordered : InOrder among first second) :
    InOrder (among ++ more) first second := ordered.mono (List.sublist_append_left _ _)

theorem InOrder.behind (ordered : InOrder more first second) :
    InOrder (among ++ more) first second := ordered.mono (List.sublist_append_right _ _)

theorem InOrder.inside (ordered : InOrder among first second) (s : Stmt) :
    InOrder (s :: among) first second := ordered.mono (List.sublist_cons_self _ _)

end InOrder

mutual

theorem collected_inOrder {first second : Stmt} :
    (s : Stmt) → [first, second].Sublist s.collected → InOrder s.parts first second
  | block p name body, within => by
      rw [collected] at within
      rw [parts]
      cases within with
      | cons _ inner => exact (collectedOf_inOrder body inner).inside _
      | cons_cons _ rest =>
          have inBody := collectedOf_subset body (rest.subset List.mem_cons_self)
          exact .inl ((List.singleton_sublist.mpr inBody).cons_cons _)
  | branch p condition body others otherwise, within => by
      rw [collected, List.append_assoc, pair_sublist_append, pair_sublist_append,
        List.mem_append] at within
      rw [parts]
      rcases within with
        inBody | ⟨inBody, second⟩ | inOtherwise | ⟨inOtherwise, inOthers⟩ | inOthers
      · exact (collectedOf_inOrder body inBody).inFront.inside _
      · refine (InOrder.append (collectedOf_subset body inBody) ?_).inside _
        rw [List.mem_append]
        rcases second with inOtherwise | inOthers
        · exact .inr (collectedOf_subset otherwise inOtherwise)
        · exact .inl (collectedOfOthers_subset others inOthers)
      · exact (collectedOf_inOrder otherwise inOtherwise).behind.behind.inside _
      · exact .inr ⟨p, condition, body, others, otherwise, List.mem_cons_self,
          collectedOf_subset otherwise inOtherwise, collectedOfOthers_subset others inOthers⟩
      · exact (collectedOfOthers_inOrder others inOthers).inFront.behind.inside _
  | loop p target items body empty, within => by
      rw [collected, pair_sublist_append] at within
      rw [parts]
      rcases within with inBody | ⟨inBody, inEmpty⟩ | inEmpty
      · exact (collectedOf_inOrder body inBody).inFront.inside _
      · exact (InOrder.append (collectedOf_subset body inBody)
          (collectedOf_subset empty inEmpty)).inside _
      · exact (collectedOf_inOrder empty inEmpty).behind.inside _
  | .while p condition body, within => (collectedOf_inOrder body within).inside _
  | spaceless p body, within => (collectedOf_inOrder body within).inside _
  | text _ _, within => nomatch within
  | output _ _ _, within => nomatch within
  | .include _ _, within => nomatch within
  | .set _ _ _, within => nomatch within
  | debug _ _ _, within => nomatch within

theorem collectedOf_inOrder {first second : Stmt} :
    (written : List Stmt) → [first, second].Sublist (collectedOf written) →
      InOrder (partsOf written) first second
  | [], within => nomatch within
  | s :: rest, within => by
      rw [collectedOf, pair_sublist_append] at within
      rw [partsOf]
      rcases within with inFirst | ⟨inFirst, inRest⟩ | inRest
      · exact (collected_inOrder s inFirst).inFront
      · refine .append ?_ (collectedOf_subset rest inRest)
        exact List.mem_of_mem_filter ((collected_perm s).mem_iff.mp inFirst)
      · exact (collectedOf_inOrder rest inRest).behind

theorem collectedOfOthers_inOrder {first second : Stmt} :
    (others : List (Expr × List Stmt)) → [first, second].Sublist (collectedOfOthers others) →
      InOrder (partsOfOthers others) first second
  | [], within => nomatch within
  | (_, body) :: rest, within => by
      rw [collectedOfOthers, pair_sublist_append] at within
      rw [partsOfOthers]
      rcases within with inBody | ⟨inBody, inRest⟩ | inRest
      · exact (collectedOf_inOrder body inBody).inFront
      · exact .append (collectedOf_subset body inBody) (collectedOfOthers_subset rest inRest)
      · exact (collectedOfOthers_inOrder rest inRest).behind

end

mutual

/-- What a statement at any depth has inside is collected in the order it has there. -/
theorem collected_sublist {part : Stmt} :
    (s : Stmt) → part ∈ s.parts → part.collected.Sublist s.collected
  | block p name body, member => by
      rw [parts, List.mem_cons] at member
      rcases member with rfl | inBody
      · exact .refl _
      · exact (collectedOf_sublist body inBody).cons _
  | branch p condition body others otherwise, member => by
      rw [parts, List.mem_cons, List.mem_append, List.mem_append] at member
      rcases member with rfl | inBody | inOthers | inOtherwise
      · exact .refl _
      · rw [collected, List.append_assoc]
        exact (collectedOf_sublist body inBody).trans (List.sublist_append_left _ _)
      · rw [collected]
        exact (collectedOfOthers_sublist others inOthers).trans (List.sublist_append_right _ _)
      · rw [collected, List.append_assoc]
        exact (collectedOf_sublist otherwise inOtherwise).trans
          ((List.sublist_append_left _ _).trans (List.sublist_append_right _ _))
  | loop p target items body empty, member => by
      rw [parts, List.mem_cons, List.mem_append] at member
      rcases member with rfl | inBody | inEmpty
      · exact .refl _
      · exact (collectedOf_sublist body inBody).trans (List.sublist_append_left _ _)
      · exact (collectedOf_sublist empty inEmpty).trans (List.sublist_append_right _ _)
  | .while p condition body, member => by
      rw [parts, List.mem_cons] at member
      rcases member with rfl | inBody
      · exact .refl _
      · exact collectedOf_sublist body inBody
  | spaceless p body, member => by
      rw [parts, List.mem_cons] at member
      rcases member with rfl | inBody
      · exact .refl _
      · exact collectedOf_sublist body inBody
  | text _ _, member => List.mem_singleton.mp member ▸ .refl _
  | output _ _ _, member => List.mem_singleton.mp member ▸ .refl _
  | .include _ _, member => List.mem_singleton.mp member ▸ .refl _
  | .set _ _ _, member => List.mem_singleton.mp member ▸ .refl _
  | debug _ _ _, member => List.mem_singleton.mp member ▸ .refl _

theorem collectedOf_sublist {part : Stmt} :
    (written : List Stmt) → part ∈ partsOf written → part.collected.Sublist (collectedOf written)
  | [], member => nomatch member
  | s :: rest, member => by
      rw [partsOf, List.mem_append] at member
      rcases member with inFirst | inRest
      · exact (collected_sublist s inFirst).trans (List.sublist_append_left _ _)
      · exact (collectedOf_sublist rest inRest).trans (List.sublist_append_right _ _)

theorem collectedOfOthers_sublist {part : Stmt} :
    (others : List (Expr × List Stmt)) → part ∈ partsOfOthers others →
      part.collected.Sublist (collectedOfOthers others)
  | [], member => nomatch member
  | (_, body) :: rest, member => by
      rw [partsOfOthers, List.mem_append] at member
      rcases member with inBody | inRest
      · exact (collectedOf_sublist body inBody).trans (List.sublist_append_left _ _)
      · exact (collectedOfOthers_sublist rest inRest).trans (List.sublist_append_right _ _)

end

section Winner

variable {written body : List Stmt} {p : Pos} {name : String}

theorem Crossed.collected {q : Pos} {other : List Stmt}
    (crossed : Crossed (partsOf written) (block p name body) (block q name other)) :
    [block p name body, block q name other].Sublist (collectedOf written) := by
  obtain ⟨at_, condition, first, others, otherwise, member, inOtherwise, inOthers⟩ := crossed
  refine List.Sublist.trans ?_ (collectedOf_sublist written member)
  rw [Stmt.collected, List.append_assoc]
  refine List.Sublist.trans ?_ (List.sublist_append_right _ _)
  exact (List.singleton_sublist.mpr (block_mem_collectedOf.mpr inOtherwise)).append
    (List.singleton_sublist.mpr (block_mem_collectedOfOthers.mpr inOthers))

theorem exists_last_block (blocks : List Stmt) (occurs : block p name body ∈ blocks) :
    ∃ before q other after, blocks = before ++ block q name other :: after ∧
      (∀ r inner, block r name inner ∉ after) ∧
      ((blocks.filterMap definition?).reverse).lookup name = some other := by
  induction blocks generalizing p body with
  | nil => cases occurs
  | cons s rest ih =>
      by_cases further : ∃ q other, block q name other ∈ rest
      · obtain ⟨q, other, member⟩ := further
        obtain ⟨before, q, other, after, split, none, found⟩ := ih member
        refine ⟨s :: before, q, other, after, by rw [split, List.cons_append], none, ?_⟩
        rw [List.filterMap_cons]
        split
        · exact found
        · rw [List.reverse_cons, List.lookup_append, found, Option.some_or]
      · have none : ∀ r inner, block r name inner ∉ rest :=
          fun r inner member => further ⟨r, inner, member⟩
        rcases List.mem_cons.mp occurs with rfl | member
        · refine ⟨[], p, body, rest, rfl, none, ?_⟩
          have unnamed : ((rest.filterMap definition?).reverse).lookup name = Option.none := by
            rw [List.lookup_eq_none_iff]
            rintro ⟨other, inner⟩ member
            obtain ⟨s, inRest, defines⟩ := List.mem_filterMap.mp (List.mem_reverse.mp member)
            cases s with
            | block r _ _ =>
                cases defines
                simp only [bne_iff_ne]
                rintro rfl
                exact none r inner inRest
            | _ => cases defines
          have first : (block p name body :: rest).filterMap definition? =
              (name, body) :: rest.filterMap definition? := rfl
          rw [first, List.reverse_cons, List.lookup_append, unnamed, Option.none_or]
          simp
        · exact absurd member (none p body)

theorem mem_behind_of_pair {α : Type} {a b : α} {before after : List α}
    (distinct : (before ++ a :: after).Nodup) (within : [a, b].Sublist (before ++ a :: after)) :
    b ∈ after := by
  have fresh : a ∉ before :=
    fun member => (List.nodup_append.mp distinct).2.2 a member a List.mem_cons_self rfl
  rcases pair_sublist_append.mp within with inFront | ⟨inFront, _⟩ | behind
  · exact absurd (inFront.subset List.mem_cons_self) fresh
  · exact absurd inFront fresh
  · cases behind with
    | cons _ further => exact further.subset (List.mem_cons_of_mem _ List.mem_cons_self)
    | cons_cons _ rest => exact rest.subset List.mem_cons_self

theorem before_or_before {among : List Stmt} {s s' : Stmt}
    (ordered : among.Pairwise fun s s' => s.pos.Before s'.pos) (hs : s ∈ among) (hs' : s' ∈ among)
    (different : s ≠ s') : s.pos.Before s'.pos ∨ s'.pos.Before s.pos := by
  induction ordered with
  | nil => cases hs
  | cons first _ ih =>
      rcases List.mem_cons.mp hs with rfl | inRest
      · rcases List.mem_cons.mp hs' with rfl | inRest'
        · exact absurd rfl different
        · exact .inl (first s' inRest')
      · rcases List.mem_cons.mp hs' with rfl | inRest'
        · exact .inr (first s inRest)
        · exact ih inRest inRest'

/-- Whether a block is in the else part of a branch that defines it again before that. -/
def Overruled (written : List Stmt) (p : Pos) (name : String) (body : List Stmt) : Prop :=
  ∃ q other, Crossed (partsOf written) (block p name body) (block q name other)

/-- Where statements are in order, the last definition of a block counts, unless it is overruled;
then one before it does. -/
theorem lookup_blockTable_of_ordered
    (ordered : (partsOf written).Pairwise fun s s' => s.pos.Before s'.pos)
    (occurs : block p name body ∈ partsOf written)
    (last : ∀ q other, block q name other ∈ partsOf written → ¬p.Before q) :
    (¬Overruled written p name body → (blockTable written).lookup name = some body) ∧
      (Overruled written p name body → ∃ q other, block q name other ∈ partsOf written ∧
        q.Before p ∧ (blockTable written).lookup name = some other) := by
  have distinct : (collectedOf written).Nodup := by
    rw [(collectedOf_perm written).nodup_iff]
    refine List.Nodup.filter _ (ordered.imp ?_)
    rintro s _ before rfl
    exact Pos.not_before_self _ before
  have isCollected := block_mem_collectedOf.mpr occurs
  obtain ⟨before, q, other, after, split, noLater, found⟩ := exists_last_block _ isCollected
  rw [← blocksOf_eq_filterMap, ← blockTable] at found
  rw [split] at distinct isCollected
  by_cases same : block q name other = block p name body
  · cases same
    refine ⟨fun _ => found, ?_⟩
    rintro ⟨r, inner, crossed⟩
    have pair := crossed.collected
    rw [split] at pair
    exact absurd (mem_behind_of_pair distinct pair) (noLater r inner)
  · have earlier : block p name body ∈ before := by
      rcases List.mem_append.mp isCollected with inFront | rest
      · exact inFront
      · rcases List.mem_cons.mp rest with here | behind
        · exact absurd here.symm same
        · exact absurd behind (noLater p body)
    have pair : [block p name body, block q name other].Sublist (collectedOf written) := by
      rw [split, pair_sublist_append]
      exact .inr (.inl ⟨earlier, List.mem_cons_self⟩)
    have member : block q name other ∈ partsOf written :=
      collectedOf_subset written (pair.subset (List.mem_cons_of_mem _ List.mem_cons_self))
    have crossed : Crossed (partsOf written) (block p name body) (block q name other) := by
      rcases collectedOf_inOrder written pair with inSource | crossed
      · have placed := ordered.sublist inSource
        exact absurd (List.rel_of_pairwise_cons placed List.mem_cons_self) (last q other member)
      · exact crossed
    refine ⟨fun spared => absurd ⟨q, other, crossed⟩ spared, fun _ => ⟨q, other, member, ?_, found⟩⟩
    rcases before_or_before ordered member occurs same with isBefore | isAfter
    · exact isBefore
    · exact absurd isAfter (last q other member)

end Winner

end Stencil.Stmt

namespace Stencil.Source

open Stmt

/-- Of the blocks of one name in a source, the last one gives the body that is collected for the
name, unless it is overruled; then one before it does. -/
theorem lookup_blockTable {s : Source} {limit : Int} {t : Template}
    (written : s.template limit = .ok t) {p : Pos} {name : String} {body : List Stmt}
    (occurs : .block p name body ∈ partsOf t.body)
    (last : ∀ q other, .block q name other ∈ partsOf t.body → ¬p.Before q) :
    (¬Overruled t.body p name body → (blockTable t.body).lookup name = some body) ∧
      (Overruled t.body p name body → ∃ q other, .block q name other ∈ partsOf t.body ∧
        q.Before p ∧ (blockTable t.body).lookup name = some other) :=
  lookup_blockTable_of_ordered (template_ordered written) occurs last

/-- A branch with a block behind its alternative condition and in its else part. -/
def crossing : Source where
  text := "\x7b% if a %\x7d\x7b% elif b %\x7d\x7b% block x %\x7d1\x7b% endblock %\x7d" ++
    "\x7b% else %\x7d\x7b% block x %\x7d\x7b% endblock %\x7d\x7b% endif %\x7d"
  name := none
  filename := none

def crossingStream : TokenStream where
  tokens :=
    [⟨.opening .statement, "\x7b%", ⟨1, 0⟩⟩, ⟨.name, "if", ⟨1, 3⟩⟩, ⟨.name, "a", ⟨1, 6⟩⟩,
      ⟨.closing .statement, "%\x7d", ⟨1, 8⟩⟩, ⟨.opening .statement, "\x7b%", ⟨1, 10⟩⟩,
      ⟨.name, "elif", ⟨1, 13⟩⟩, ⟨.name, "b", ⟨1, 18⟩⟩, ⟨.closing .statement, "%\x7d", ⟨1, 20⟩⟩,
      ⟨.opening .statement, "\x7b%", ⟨1, 22⟩⟩, ⟨.name, "block", ⟨1, 25⟩⟩, ⟨.name, "x", ⟨1, 31⟩⟩,
      ⟨.closing .statement, "%\x7d", ⟨1, 33⟩⟩, ⟨.data, "1", ⟨1, 35⟩⟩,
      ⟨.opening .statement, "\x7b%", ⟨1, 36⟩⟩, ⟨.name, "endblock", ⟨1, 39⟩⟩,
      ⟨.closing .statement, "%\x7d", ⟨1, 48⟩⟩, ⟨.opening .statement, "\x7b%", ⟨1, 50⟩⟩,
      ⟨.name, "else", ⟨1, 53⟩⟩, ⟨.closing .statement, "%\x7d", ⟨1, 58⟩⟩,
      ⟨.opening .statement, "\x7b%", ⟨1, 60⟩⟩, ⟨.name, "block", ⟨1, 63⟩⟩, ⟨.name, "x", ⟨1, 69⟩⟩,
      ⟨.closing .statement, "%\x7d", ⟨1, 71⟩⟩, ⟨.opening .statement, "\x7b%", ⟨1, 73⟩⟩,
      ⟨.name, "endblock", ⟨1, 76⟩⟩, ⟨.closing .statement, "%\x7d", ⟨1, 85⟩⟩,
      ⟨.opening .statement, "\x7b%", ⟨1, 87⟩⟩, ⟨.name, "endif", ⟨1, 90⟩⟩,
      ⟨.closing .statement, "%\x7d", ⟨1, 96⟩⟩]
  stop := ⟨1, 98⟩

def crossingBody : List Stmt :=
  [.branch ⟨1, 3⟩ (.name ⟨1, 6⟩ "a") []
    [(.name ⟨1, 18⟩ "b", [.block ⟨1, 25⟩ "x" [.text ⟨1, 35⟩ "1"]])] [.block ⟨1, 63⟩ "x" []]]

theorem crossing_written : crossing.template 50 = .ok ⟨crossingBody, none⟩ := by
  have accepted : TokenStream.ofSource? crossing.text.toList = .ok crossingStream := by
    decide +kernel
  have tokens : crossing.tokens = .ok crossingStream := by rw [Source.tokens, accepted]
  exact template_of_tokens tokens rfl

theorem crossing_occurs : .block ⟨1, 63⟩ "x" [] ∈ partsOf crossingBody := by
  simp [crossingBody, partsOf, parts, partsOfOthers]

theorem crossing_last (q : Pos) (other : List Stmt)
    (member : .block q "x" other ∈ partsOf crossingBody) : ¬Pos.Before ⟨1, 63⟩ q := by
  have places : ∀ q ∈ placesOf crossingBody, ¬Pos.Before ⟨1, 63⟩ q := by decide
  exact places q (List.mem_map_of_mem (f := Stmt.pos) member)

theorem crossing_overruled : Overruled crossingBody ⟨1, 63⟩ "x" [] := by
  refine ⟨⟨1, 25⟩, [.text ⟨1, 35⟩ "1"], _, _, _, _, _, List.mem_cons_self, ?_, ?_⟩
  · simp [partsOf, parts]
  · simp [partsOf, parts, partsOfOthers]

theorem lookup_blockTable_crossing : ∃ q other, .block q "x" other ∈ partsOf crossingBody ∧
    q.Before ⟨1, 63⟩ ∧ (blockTable crossingBody).lookup "x" = some other :=
  (lookup_blockTable crossing_written crossing_occurs crossing_last).2 crossing_overruled

theorem last_block_not_collected : ¬∀ (s : Source) (limit : Int) (t : Template) (p : Pos)
    (name : String) (body : List Stmt), s.template limit = .ok t →
      .block p name body ∈ partsOf t.body →
      (∀ q other, .block q name other ∈ partsOf t.body → ¬p.Before q) →
      (blockTable t.body).lookup name = some body := by
  intro lastWins
  have found := lastWins _ _ _ _ _ _ crossing_written crossing_occurs crossing_last
  have given : (blockTable crossingBody).lookup "x" = some [.text ⟨1, 35⟩ "1"] := rfl
  rw [given] at found
  cases found

end Stencil.Source
