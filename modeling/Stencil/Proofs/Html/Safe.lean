import Stencil.Builtin.Text

namespace Stencil.Text

theorem beginsWith_append (needle cs : List Char) : beginsWith needle (needle ++ cs) = true := by
  induction needle with
  | nil => rfl
  | cons n ns ih => simp [beginsWith, ih]

theorem isPrefix_of_beginsWith {needle cs : List Char} (begins : beginsWith needle cs = true) :
    needle <+: cs := by
  induction needle generalizing cs with
  | nil => exact List.nil_prefix
  | cons n ns ih =>
      cases cs with
      | nil => simp [beginsWith] at begins
      | cons c cs =>
          simp only [beginsWith, Bool.and_eq_true, beq_iff_eq] at begins
          obtain ⟨rfl, begins⟩ := begins
          exact (List.cons_prefix_cons).mpr ⟨rfl, ih begins⟩

section Delete

variable {c : Char} {needle : List Char}

theorem replaceAll_found (cs : List Char) :
    replaceAll (c :: needle) [] (c :: needle ++ cs) = replaceAll (c :: needle) [] cs := by
  have begins := beginsWith_append (c :: needle) cs
  exact (replaceMatches_found (List.cons_ne_nil c needle) (if_pos begins)).trans
    (List.nil_append _)

theorem replaceAll_missed {d : Char} {cs : List Char}
    (misses : beginsWith (c :: needle) (d :: cs) = false) :
    replaceAll (c :: needle) [] (d :: cs) = d :: replaceAll (c :: needle) [] cs := by
  exact replaceMatches_missed (if_neg (Bool.eq_false_iff.mp misses))

theorem replaceAll_of_ne {d : Char} (different : d ≠ c) (cs : List Char) :
    replaceAll (c :: needle) [] (d :: cs) = d :: replaceAll (c :: needle) [] cs := by
  apply replaceAll_missed
  simp [beginsWith, Ne.symm different]

theorem replaceAll_append_of_notMem {plain : List Char} (absent : c ∉ plain) (cs : List Char) :
    replaceAll (c :: needle) [] (plain ++ cs) = plain ++ replaceAll (c :: needle) [] cs := by
  induction plain with
  | nil => rfl
  | cons d rest ih =>
      rw [List.mem_cons, not_or] at absent
      rw [List.cons_append, replaceAll_of_ne (Ne.symm absent.1), ih absent.2, List.cons_append]

end Delete

end Stencil.Text

namespace Stencil.Html

def markupChars : List Char := ['<', '>', '"', '\'']

def filterTags : List (List Char) := ["<br />".toList, "<pre>".toList, "</pre>".toList]

def withoutTags (tags : List (List Char)) (cs : List Char) : List Char :=
  tags.foldl (fun rest tag => Text.replaceAll tag [] rest) cs

/-- Texts of the given tags and of characters that are no markup. -/
inductive Safe (tags : List (List Char)) : List Char → Prop
  | nil : Safe tags []
  | char {c : Char} {cs : List Char} : c ∉ markupChars → Safe tags cs → Safe tags (c :: cs)
  | tag {t cs : List Char} : t ∈ tags → Safe tags cs → Safe tags (t ++ cs)

namespace Safe

variable {tags : List (List Char)} {cs ds : List Char}

theorem append (first : Safe tags cs) (second : Safe tags ds) : Safe tags (cs ++ ds) := by
  induction first with
  | nil => exact second
  | char plain _ ih => exact .char plain ih
  | tag member _ ih =>
      rw [List.append_assoc]
      exact .tag member ih

theorem of_tag {t : List Char} (member : t ∈ tags) : Safe tags t := by
  rw [← List.append_nil t]
  exact .tag member .nil

theorem of_plain (plain : ∀ c ∈ cs, c ∉ markupChars) : Safe tags cs := by
  induction cs with
  | nil => exact .nil
  | cons c rest ih =>
      rw [List.forall_mem_cons] at plain
      exact .char plain.1 (ih plain.2)

theorem plain (safe : Safe [] cs) : ∀ c ∈ cs, c ∉ markupChars := by
  induction safe with
  | nil => simp
  | char plain _ ih => exact List.forall_mem_cons.mpr ⟨plain, ih⟩
  | tag member _ _ => simp at member

/-! Escaped text is safe, and it stays safe when line breaks are written into it. -/

theorem escapeChar (c : Char) : Safe tags (Html.escapeChar c) := by
  apply of_plain
  unfold Html.escapeChar
  split <;> simp_all [markupChars]

theorem escapeChars (cs : List Char) : Safe tags (Html.escapeChars cs) := by
  induction cs with
  | nil => exact .nil
  | cons c rest ih => exact (escapeChar c).append ih

end Safe

/-! A tag may be deleted from a text if it neither begins another tag nor begins with one, and if
nothing in a tag but its first character opens a tag. -/

/-- Whether a text opens like a tag, and only at its beginning. -/
def OpensOnce (t : List Char) : Prop := ∃ inner, t = '<' :: inner ∧ '<' ∉ inner

theorem Safe.delete {t : List Char} {tags : List (List Char)} {cs : List Char}
    (opens : ∀ other ∈ t :: tags, OpensOnce other)
    (apart : ∀ other ∈ tags, ¬ t <+: other ∧ ¬ other <+: t) (safe : Safe (t :: tags) cs) :
    Safe tags (Text.replaceAll t [] cs) := by
  obtain ⟨inner, rfl, _⟩ := opens t List.mem_cons_self
  induction safe with
  | nil => exact .nil
  | @char c cs plain _ ih =>
      have different : c ≠ '<' := fun same => plain (by simp [same, markupChars])
      rw [Text.replaceAll_of_ne different]
      exact .char plain ih
  | @tag other cs member _ ih =>
      rcases List.mem_cons.mp member with rfl | inTags
      · rw [Text.replaceAll_found]
        exact ih
      · obtain ⟨rest, rfl, once⟩ := opens other member
        have misses : Text.beginsWith ('<' :: inner) ('<' :: (rest ++ cs)) = false := by
          rw [← Bool.not_eq_true]
          intro begins
          have atFront := Text.isPrefix_of_beginsWith begins
          have otherAtFront : '<' :: rest <+: '<' :: (rest ++ cs) := ⟨cs, rfl⟩
          rcases List.prefix_or_prefix_of_prefix atFront otherAtFront with within | around
          · exact (apart _ inTags).1 within
          · exact (apart _ inTags).2 around
        rw [List.cons_append, Text.replaceAll_missed misses,
          Text.replaceAll_append_of_notMem once, ← List.cons_append]
        exact .tag inTags ih

/-- Whether no markup is left of a text when the tags that built-in filters write are deleted. -/
def Inert (text : String) : Prop :=
  ∀ c ∈ withoutTags filterTags text.toList, c ∉ markupChars

theorem Safe.inert {text : String} (safe : Safe filterTags text.toList) : Inert text := by
  have opens : ∀ t ∈ filterTags, OpensOnce t := by
    intro t member
    simp only [filterTags, List.mem_cons, List.not_mem_nil, or_false] at member
    rcases member with rfl | rfl | rfl <;> exact ⟨_, rfl, by decide⟩
  have first := safe.delete opens (by decide)
  have second := first.delete (fun t member => opens t (.tail _ member)) (by decide)
  have third := second.delete (fun t member => opens t (.tail _ (.tail _ member))) (by simp)
  exact third.plain

end Stencil.Html

namespace Stencil.Filter

open Html

theorem breakLines_cons {c : Char} {cs : List Char} (notReturn : c ≠ '\r') (notFeed : c ≠ '\n') :
    breakLines (c :: cs) = c :: breakLines cs := by
  rw [breakLines.eq_def]
  split <;> simp_all

theorem breakLines_return {cs : List Char} (noFeed : ∀ rest, cs ≠ '\n' :: rest) :
    breakLines ('\r' :: cs) = "<br />\r".toList ++ breakLines cs := by
  rw [breakLines.eq_def]
  split
  · next isNil => cases isNil
  · next rest isPair =>
      cases isPair
      exact absurd rfl (noFeed rest)
  · next isFeed => exact absurd (List.cons.inj isFeed).1 (by decide)
  · next isReturn =>
      cases isReturn
      rfl
  · next c _ _ notReturn isOther => exact (notReturn (List.cons.inj isOther).1.symm).elim

theorem breakLines_append {line cs : List Char} (noReturn : '\r' ∉ line) (noFeed : '\n' ∉ line) :
    breakLines (line ++ cs) = line ++ breakLines cs := by
  induction line with
  | nil => rfl
  | cons c rest ih =>
      rw [List.mem_cons, not_or] at noReturn noFeed
      rw [List.cons_append, breakLines_cons (Ne.symm noReturn.1) (Ne.symm noFeed.1),
        ih noReturn.2 noFeed.2, List.cons_append]

theorem safe_breakElement (ending : List Char) {cs : List Char}
    (plain : ∀ c ∈ ending, c ∉ markupChars) (safe : Safe filterTags cs) :
    Safe filterTags ("<br />".toList ++ ending ++ cs) :=
  ((Safe.of_tag (by decide)).append (Safe.of_plain plain)).append safe

/-- A safe text stays safe when line breaks are written into it, also behind a carriage return: a
line feed there is part of the same line end. -/
theorem breakLines_safe_both {cs : List Char} (safe : Safe filterTags cs) :
    Safe filterTags (breakLines cs) ∧ Safe filterTags (breakLines ('\r' :: cs)) := by
  have returned : ∀ {rest : List Char}, Safe filterTags (breakLines rest) →
      (∀ more, rest ≠ '\n' :: more) → Safe filterTags (breakLines ('\r' :: rest)) := by
    intro rest safeRest noFeed
    rw [breakLines_return noFeed]
    exact safe_breakElement ['\r'] (by simp [markupChars]) safeRest
  induction safe with
  | nil => exact ⟨.nil, returned .nil (by simp)⟩
  | @char c cs plain _ ih =>
      by_cases isFeed : c = '\n'
      · subst isFeed
        exact ⟨safe_breakElement ['\n'] (by simp [markupChars]) ih.1,
          safe_breakElement ['\r', '\n'] (by simp [markupChars]) ih.1⟩
      · have here : Safe filterTags (breakLines (c :: cs)) := by
          by_cases isReturn : c = '\r'
          · subst isReturn
            exact ih.2
          · rw [breakLines_cons isReturn isFeed]
            exact .char plain ih.1
        exact ⟨here, returned here (by simp [isFeed])⟩
  | @tag t cs member _ ih =>
      have inOneLine : '\r' ∉ t ∧ '\n' ∉ t ∧ ∀ more, t ++ cs ≠ '\n' :: more := by
        simp only [filterTags, List.mem_cons, List.not_mem_nil, or_false] at member
        rcases member with rfl | rfl | rfl <;> exact ⟨by decide, by decide, by simp⟩
      have here : Safe filterTags (breakLines (t ++ cs)) := by
        rw [breakLines_append inOneLine.1 inOneLine.2.1]
        exact .tag member ih.1
      exact ⟨here, returned here inOneLine.2.2⟩

end Stencil.Filter
