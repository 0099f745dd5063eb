import Stencil.Html.Tags

/-!
Text without its tags. Tags and comments are deleted from left to right, each as a whole, and what
is left of the text around them never makes up a further tag.
-/

namespace Stencil.Html

open Text
open scoped List

/-- Texts that are deleted: comments, and all else from a `<` to the next `>`. -/
inductive IsTag : List Char → Prop
  | comment (content : List Char) : IsTag ("<!--".toList ++ content ++ "-->".toList)
  | tag {inside : List Char} (unclosed : '>' ∉ inside) : IsTag ('<' :: (inside ++ ['>']))

namespace IsTag

variable {tag : List Char}

theorem ends (isTag : IsTag tag) : ∃ inside, tag = '<' :: (inside ++ ['>']) := by
  cases isTag with
  | comment content => exact ⟨"!--".toList ++ content ++ "--".toList, by simp⟩
  | tag _ => exact ⟨_, rfl⟩

theorem ne_nil (isTag : IsTag tag) : tag ≠ [] := by
  obtain ⟨inside, rfl⟩ := isTag.ends
  exact List.cons_ne_nil _ _

theorem opens (isTag : IsTag tag) : ['<', '>'] <+ tag := by
  obtain ⟨inside, rfl⟩ := isTag.ends
  exact (List.sublist_append_right inside ['>']).cons_cons '<'

end IsTag

/-- How tags are deleted from left to right. What stays opens no tag where it stands. -/
inductive Untags : List Char → List Char → Prop
  | nil : Untags [] []
  | delete {tag cs rest : List Char} (isTag : IsTag tag) (more : Untags cs rest) :
      Untags (tag ++ cs) rest
  | keep {c : Char} {cs rest : List Char} (opensNone : c = '<' → '>' ∉ cs)
      (more : Untags cs rest) : Untags (c :: cs) (c :: rest)

namespace Untags

variable {cs rest : List Char}

theorem sublist (untags : Untags cs rest) : rest <+ cs := by
  induction untags with
  | nil => exact List.Sublist.refl []
  | delete _ _ ih => exact ih.trans (List.sublist_append_right _ _)
  | keep _ _ ih => exact ih.cons_cons _

/-- Nothing that is left opens a tag, since what closes it would have closed it before. -/
theorem tagless (untags : Untags cs rest) : ¬['<', '>'] <+ rest := by
  induction untags with
  | nil => exact nofun
  | delete _ _ ih => exact ih
  | keep opensNone more ih =>
      intro opens
      cases opens with
      | cons _ later => exact ih later
      | cons_cons _ closes =>
          exact opensNone rfl (more.sublist.subset (List.singleton_sublist.mp closes))

end Untags

/-! What is deleted where a tag begins. -/

theorem tagSize?_close {inside rest : List Char} (unclosed : '>' ∉ inside) :
    tagSize? ('<' :: (inside ++ '>' :: rest)) = some (inside.length + 2) := by
  have other : ∀ c ∈ inside, (!decide (c = '>')) = true := by
    intro c mem
    simpa using ne_of_mem_of_not_mem mem unclosed
  simp [tagSize?, List.dropWhile_append_of_pos other, List.takeWhile_append_of_pos other]

theorem removable?_of_ne {c : Char} (other : c ≠ '<') (cs : List Char) :
    removable? (c :: cs) = none := by
  have noComment : commentSize? (c :: cs) = none := by
    simp [commentSize?, dropBeginning?, other.symm]
  have noTag : tagSize? (c :: cs) = none := by
    unfold tagSize?
    split
    · next same => exact absurd (List.cons.inj same).1 other
    · rfl
  rw [removable?, noComment, noTag]
  rfl

/-- Where a `<` is closed further on, a tag or a comment is deleted. -/
theorem removable?_close {cs : List Char} (closes : '>' ∈ cs) :
    ∃ tag rest, IsTag tag ∧ '<' :: cs = tag ++ rest ∧
      removable? (tag ++ rest) = some (tag.length, []) := by
  cases comment : commentSize? ('<' :: cs) with
  | some size =>
      have found := comment
      simp only [commentSize?, Option.bind_eq_bind, Option.bind_eq_some_iff] at found
      obtain ⟨inside, opener, ⟨content, rest⟩, closer, same⟩ := found
      obtain rfl := Option.some.inj same
      have whole : '<' :: cs = "<!--".toList ++ content ++ "-->".toList ++ rest := by
        rw [dropBeginning?_eq_some opener, splitAt?_eq_some closer]
        simp
      refine ⟨_, rest, .comment content, whole, ?_⟩
      rw [← whole, removable?, comment]
      simp
  | none =>
      obtain ⟨inside, rest, rfl, unclosed⟩ := List.eq_append_cons_of_mem closes
      refine ⟨_, rest, .tag unclosed, by simp, ?_⟩
      rw [List.cons_append, List.append_assoc, List.singleton_append, removable?, comment,
        tagSize?_close unclosed]
      simp

/-- A `<` that is closed nowhere stays: it begins no comment, either. -/
theorem removable?_unclosed {cs : List Char} (unclosed : '>' ∉ cs) :
    removable? ('<' :: cs) = none := by
  have noComment : commentSize? ('<' :: cs) = none := by
    refine Option.eq_none_iff_forall_ne_some.mpr fun size found => unclosed ?_
    simp only [commentSize?, Option.bind_eq_bind, Option.bind_eq_some_iff] at found
    obtain ⟨inside, opener, ⟨content, rest⟩, closer, _⟩ := found
    have whole := dropBeginning?_eq_some opener
    rw [splitAt?_eq_some closer] at whole
    rw [(List.cons.inj whole).2]
    simp
  have noTag : tagSize? ('<' :: cs) = none := by
    have other : ∀ c ∈ cs, decide (c ≠ '>') = true := fun c mem =>
      decide_eq_true (ne_of_mem_of_not_mem mem unclosed)
    rw [tagSize?, ← List.append_nil cs, List.dropWhile_append_of_pos other]
    rfl
  rw [removable?, noComment, noTag]
  rfl

theorem untags_stripTags (cs : List Char) : Untags cs (stripTags cs) := by
  match cs with
  | [] => exact .nil
  | c :: cs =>
      by_cases opens : c = '<' ∧ '>' ∈ cs
      · obtain ⟨rfl, closes⟩ := opens
        obtain ⟨tag, rest, isTag, whole, found⟩ := removable?_close closes
        rw [whole, stripTags, replaceMatches_found isTag.ne_nil found]
        exact .delete isTag (untags_stripTags rest)
      · have missed : removable? (c :: cs) = none := by
          by_cases opener : c = '<'
          · subst opener
            exact removable?_unclosed fun closes => opens ⟨rfl, closes⟩
          · exact removable?_of_ne opener cs
        rw [stripTags, replaceMatches_missed missed]
        exact .keep (fun opener closes => opens ⟨opener, closes⟩) (untags_stripTags cs)
termination_by cs.length
decreasing_by
  · have := congrArg List.length whole
    have := List.length_pos_iff.mpr isTag.ne_nil
    simp only [List.length_append, List.length_cons] at *
    omega
  · exact Nat.lt_succ_self _

theorem Untags.eq_of_tagless {cs rest : List Char} (untags : Untags cs rest)
    (tagless : ¬['<', '>'] <+ cs) : rest = cs := by
  induction untags with
  | nil => rfl
  | delete isTag _ _ =>
      exact absurd (isTag.opens.trans (List.sublist_append_left _ _)) tagless
  | keep _ _ ih => rw [ih fun opens => tagless (opens.cons _)]

/-- Deleting tags takes whole tags and comments out of a text, from left to right, and leaves no `<`
that is followed by a `>` further on. A text stays as it is exactly when it has no such `<`; so
deleting tags once more changes nothing. -/
theorem stripTags_tagless (cs : List Char) :
    Untags cs (stripTags cs) ∧ stripTags cs <+ cs ∧ ¬['<', '>'] <+ stripTags cs ∧
      (stripTags cs = cs ↔ ¬['<', '>'] <+ cs) ∧ stripTags (stripTags cs) = stripTags cs := by
  have untags := untags_stripTags cs
  refine ⟨untags, untags.sublist, untags.tagless, ⟨fun same => same ▸ untags.tagless,
    untags.eq_of_tagless⟩, ?_⟩
  exact (untags_stripTags (stripTags cs)).eq_of_tagless untags.tagless

/-- A comment ends with its own closing; a `<` in front of a deleted tag stays open. -/
example : stripTags "1 <!-- a > b -->< 2><".toList = "1 <".toList := by decide +kernel

end Stencil.Html
