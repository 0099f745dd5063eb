import Mathlib.Data.List.TakeWhile
import Stencil.Proofs.Html.Division

/-!
HTML without blanks between tags: only blanks are deleted, and none in elements whose contents are
kept. The elements of the result are those of the text, and compacting it again changes nothing.
-/

namespace Stencil.Html

open Text

/-- Whether no blanks stand between tags, unless an element holds them. -/
def Tight (chunks : List Chunk) : Prop :=
  ∀ x blanks y, x.endsTag = true → (∀ b ∈ blanks, b.isBlank = true) → y.beginsTag = true →
    x :: (blanks ++ [y]) <:+: chunks → blanks = []

/-! Nothing stays between tags. -/

def closeGap (x : Chunk) (chunks : List Chunk) : List Chunk :=
  let behind := chunks.dropWhile Chunk.isBlank
  if x.endsTag && behind.head?.any Chunk.beginsTag then behind else chunks

def tighten : List Chunk → List Chunk
  | [] => []
  | x :: chunks => x :: closeGap x (tighten chunks)

section Gap

variable {x y : Chunk} {blanks rest chunks : List Chunk}

theorem Chunk.isBlank_of_endsTag (ends : x.endsTag = true) : x.isBlank = false := by
  cases x with
  | char c =>
      obtain rfl := beq_iff_eq.mp ends
      decide
  | element _ => rfl

theorem Chunk.isBlank_of_beginsTag (begins : x.beginsTag = true) : x.isBlank = false := by
  cases x with
  | char c =>
      obtain rfl := beq_iff_eq.mp begins
      decide
  | element _ => rfl

theorem exists_blanks (chunks : List Chunk) : ∃ blanks rest, chunks = blanks ++ rest ∧
    (∀ b ∈ blanks, b.isBlank = true) ∧ ∀ y ∈ rest.head?, y.isBlank = false := by
  refine ⟨chunks.takeWhile Chunk.isBlank, chunks.dropWhile Chunk.isBlank,
    List.takeWhile_append_dropWhile.symm, List.all_eq_true.mp List.all_takeWhile, ?_⟩
  intro y first
  have solid := List.head?_dropWhile_not Chunk.isBlank chunks
  rw [Option.mem_def.mp first] at solid
  simpa using solid

theorem closeGap_blanks (x : Chunk) (blank : ∀ b ∈ blanks, b.isBlank = true) :
    closeGap x blanks = blanks := by
  have none : blanks.dropWhile Chunk.isBlank = [] := List.dropWhile_eq_nil_iff.mpr blank
  simp [closeGap, none]

theorem closeGap_append (blank : ∀ b ∈ blanks, b.isBlank = true) (solid : y.isBlank = false) :
    closeGap x (blanks ++ y :: rest) =
      if x.endsTag && y.beginsTag then y :: rest else blanks ++ y :: rest := by
  have behind : (blanks ++ y :: rest).dropWhile Chunk.isBlank = y :: rest := by
    refine dropWhile_front blank fun _ mem => ?_
    cases mem
    exact solid
  rw [closeGap, behind]
  rfl

theorem closeGap_between (ends : x.endsTag = true) (blank : ∀ b ∈ blanks, b.isBlank = true)
    (begins : y.beginsTag = true) : closeGap x (blanks ++ y :: rest) = y :: rest := by
  rw [closeGap_append blank (Chunk.isBlank_of_beginsTag begins), ends, begins]
  rfl

theorem closeGap_cases (x : Chunk) (chunks : List Chunk) : closeGap x chunks = chunks ∨
    ∃ blanks y rest, x.endsTag = true ∧ (∀ b ∈ blanks, b.isBlank = true) ∧ y.beginsTag = true ∧
      chunks = blanks ++ y :: rest ∧ closeGap x chunks = y :: rest := by
  obtain ⟨blanks, rest, rfl, blank, solid⟩ := exists_blanks chunks
  cases rest with
  | nil =>
      rw [List.append_nil]
      exact .inl (closeGap_blanks x blank)
  | cons y rest =>
      rw [closeGap_append blank (solid y rfl)]
      split
      · next between =>
          obtain ⟨ends, begins⟩ := Bool.and_eq_true_iff.mp between
          exact .inr ⟨blanks, y, rest, ends, blank, begins, rfl, rfl⟩
      · exact .inl rfl

theorem closeGap_tight (ends : x.endsTag = true) (blank : ∀ b ∈ blanks, b.isBlank = true)
    (begins : y.beginsTag = true) (left : closeGap x chunks = blanks ++ y :: rest) :
    blanks = [] := by
  rcases closeGap_cases x chunks with same | ⟨_, z, behind, _, _, begins', _, closed⟩
  · rw [same] at left
    subst left
    rw [closeGap_between ends blank begins] at same
    exact List.append_cancel_right (same.symm.trans (List.nil_append _).symm)
  · rw [left] at closed
    cases blanks with
    | nil => rfl
    | cons b blanks =>
        obtain ⟨rfl, _⟩ := List.cons.inj closed
        have solid := Chunk.isBlank_of_beginsTag begins'
        rw [blank b List.mem_cons_self] at solid
        cases solid

theorem tighten_dropWhile (chunks : List Chunk) :
    (tighten chunks).dropWhile Chunk.isBlank = tighten (chunks.dropWhile Chunk.isBlank) := by
  induction chunks with
  | nil => rfl
  | cons x chunks ih =>
      cases blank : x.isBlank with
      | true =>
          have last : x.endsTag = false := Bool.eq_false_iff.mpr fun ends => by
            rw [Chunk.isBlank_of_endsTag ends] at blank
            cases blank
          have whole : closeGap x (tighten chunks) = tighten chunks := by simp [closeGap, last]
          simp [tighten, blank, whole, ih]
      | false => simp [tighten, blank]

theorem tighten_head? (chunks : List Chunk) : (tighten chunks).head? = chunks.head? := by
  cases chunks <;> rfl

theorem tighten_cons (x : Chunk) (chunks : List Chunk) :
    tighten (x :: chunks) = x :: tighten (closeGap x chunks) := by
  simp only [tighten, closeGap, tighten_dropWhile, tighten_head?]
  split <;> rfl

theorem tighten_eased (chunks : List Chunk) : Eased (tighten chunks) chunks := by
  match chunks with
  | [] => exact .ending nofun
  | x :: chunks =>
      rw [tighten_cons]
      rcases closeGap_cases x chunks with same | ⟨blanks, y, rest, ends, blank, _, whole, closed⟩
      · rw [same]
        exact .keep x (tighten_eased chunks)
      · rw [closed, whole]
        exact .gap ends blank (tighten_eased (y :: rest))
termination_by chunks.length
decreasing_by
  · exact Nat.lt_succ_self _
  · rw [whole]
    simp only [List.length_cons, List.length_append]
    omega

theorem Tight.part {part : List Chunk} (tight : Tight chunks) (within : part <:+: chunks) :
    Tight part :=
  fun x blanks y ends blank begins inside =>
    tight x blanks y ends blank begins (inside.trans within)

theorem tighten_tight (chunks : List Chunk) : Tight (tighten chunks) := by
  induction chunks with
  | nil => exact fun _ _ _ _ _ _ inside => nomatch List.infix_nil.mp inside
  | cons z chunks ih =>
      intro x blanks y ends blank begins inside
      rcases List.infix_cons_iff.mp inside with atFront | behind
      · obtain ⟨rfl, rest, left⟩ := List.cons_prefix_cons.mp atFront
        rw [List.append_assoc] at left
        exact closeGap_tight ends blank begins left.symm
      · refine ih x blanks y ends blank begins (behind.trans ?_)
        rcases closeGap_cases z (tighten chunks) with same | ⟨_, _, _, _, _, _, whole, closed⟩
        · rw [same]
        · rw [closed, whole]
          exact (List.suffix_append _ _).isInfix

theorem Tight.tighten_eq (tight : Tight chunks) : tighten chunks = chunks := by
  induction chunks with
  | nil => rfl
  | cons x chunks ih =>
      rw [tighten, ih (tight.part (List.suffix_cons x chunks).isInfix)]
      rcases closeGap_cases x chunks with same | ⟨blanks, y, rest, ends, blank, begins, rfl, closed⟩
      · rw [same]
      · have none := tight x blanks y ends blank begins ⟨[], rest, by simp⟩
        rw [closed, none]
        rfl

theorem closeGap_suffix (x : Chunk) (chunks : List Chunk) : closeGap x chunks <:+ chunks := by
  rcases closeGap_cases x chunks with same | ⟨blanks, _, _, _, _, _, whole, closed⟩
  · rw [same]
  · rw [closed, whole]
    exact List.suffix_append _ _

end Gap

/-! The text with its matches replaced. -/

section Matches

variable {x : Chunk} {chunks : List Chunk}

theorem blanksBeforeTag_append {blanks rest : List Char} {c : Char}
    (blank : ∀ b ∈ blanks, Text.isBlank b = true) (solid : Text.isBlank c = false) :
    blanksBeforeTag (blanks ++ c :: rest) = if c = '<' then blanks.length else 0 := by
  have taken : (blanks ++ c :: rest).takeWhile Text.isBlank = blanks := by
    rw [List.takeWhile_append_of_pos blank, List.takeWhile_cons_of_neg (by simp [solid]),
      List.append_nil]
  have left : (blanks ++ c :: rest).dropWhile Text.isBlank = c :: rest := by
    refine dropWhile_front blank fun _ mem => ?_
    cases mem
    exact solid
  rw [blanksBeforeTag, left, taken]
  split
  · next same => rw [if_pos (List.cons.inj same).1]
  · next other =>
      rw [if_neg]
      rintro rfl
      exact other rest rfl

theorem blanksBeforeTag_blanks {blanks : List Char}
    (blank : ∀ b ∈ blanks, Text.isBlank b = true) : blanksBeforeTag blanks = 0 := by
  have none : blanks.dropWhile Text.isBlank = [] := List.dropWhile_eq_nil_iff.mpr blank
  rw [blanksBeforeTag, none]

theorem Divided.first (divided : Divided (x :: chunks)) (solid : x.isBlank = false) :
    ∃ c more, x.chars = c :: more ∧ Text.isBlank c = false ∧ x.beginsTag = (c == '<') := by
  cases divided with
  | element preserved _ =>
      obtain ⟨inside, rfl⟩ := preserved.ends
      exact ⟨'<', inside ++ ['>'], rfl, by decide, rfl⟩
  | char _ _ => exact ⟨_, [], rfl, solid, rfl⟩

theorem blanksBeforeTag_textOf (ends : x.endsTag = true) (divided : Divided chunks) :
    ∃ blanks, textOf chunks = blanks ++ textOf (closeGap x chunks) ∧
      blanksBeforeTag (textOf chunks) = blanks.length := by
  obtain ⟨blanks, rest, rfl, blank, solid⟩ := exists_blanks chunks
  cases rest with
  | nil =>
      rw [List.append_nil, closeGap_blanks x blank]
      exact ⟨[], rfl, blanksBeforeTag_blanks (textOf_blanks blank)⟩
  | cons y rest =>
      obtain ⟨c, more, chars, first, begins⟩ := divided.behind.first (solid y rfl)
      rw [textOf_append, textOf_cons, chars, List.cons_append,
        blanksBeforeTag_append (textOf_blanks blank) first, closeGap_append blank (solid y rfl),
        ends, begins, Bool.true_and]
      by_cases opens : c = '<'
      · rw [if_pos opens, if_pos (beq_iff_eq.mpr opens)]
        exact ⟨textOf blanks, by simp [chars], rfl⟩
      · rw [if_neg opens, if_neg (by simpa using opens)]
        exact ⟨[], by simp [chars], rfl⟩

theorem replaceMatches_cons (divided : Divided (x :: chunks)) :
    replaceMatches compactable? (textOf (x :: chunks)) =
      x.chars ++ replaceMatches compactable? (textOf (closeGap x chunks)) := by
  cases divided with
  | @element e _ preserved more =>
      obtain ⟨blanks, whole, passed⟩ := blanksBeforeTag_textOf (x := .element e) rfl more
      have found : compactable? (e ++ textOf chunks) = some ((e ++ blanks).length, e) := by
        simp [compactable?, preserved.found, passed]
      rw [textOf_cons, Chunk.chars]
      rw [whole, ← List.append_assoc] at found ⊢
      refine replaceMatches_found (List.append_ne_nil_of_left_ne_nil ?_ _) found
      obtain ⟨inside, rfl⟩ := preserved.ends
      exact List.cons_ne_nil _ _
  | @char c _ outside more =>
      have none := afterPreserved?_eq_none.mpr outside
      rw [textOf_cons, Chunk.chars, List.singleton_append]
      by_cases closes : c = '>'
      · subst closes
        obtain ⟨blanks, whole, passed⟩ := blanksBeforeTag_textOf (x := .char '>') rfl more
        cases blanks with
        | nil =>
            rw [replaceMatches_missed (by simp [compactable?, none, passed]), whole]
            rfl
        | cons b blanks =>
            have found : compactable? ('>' :: textOf chunks) =
                some (('>' :: b :: blanks).length, ['>']) := by
              simp [compactable?, none, passed]
            rw [whole] at found ⊢
            exact replaceMatches_found (List.cons_ne_nil _ _) found
      · have same : closeGap (.char c) chunks = chunks := by simp [closeGap, Chunk.endsTag, closes]
        rw [same, replaceMatches_missed]
        · rfl
        · simp [compactable?, none, closes]

theorem replaceMatches_textOf (chunks : List Chunk) (divided : Divided chunks) :
    replaceMatches compactable? (textOf chunks) = textOf (tighten chunks) := by
  match chunks with
  | [] => rfl
  | x :: chunks =>
      obtain ⟨front, whole⟩ := closeGap_suffix x chunks
      have behind : Divided (closeGap x chunks) := (whole.symm ▸ divided.tail).behind
      rw [replaceMatches_cons divided, replaceMatches_textOf _ behind, tighten_cons, textOf_cons]
termination_by chunks.length
decreasing_by exact Nat.lt_succ_of_le (closeGap_suffix x chunks).length_le

end Matches

/-! Blanks at the ends. -/

section Ends

variable {x : Chunk} {chunks : List Chunk}

def Trim (cs : List Char) : Prop :=
  (∀ c ∈ cs.head?, Text.isBlank c = false) ∧ ∀ c ∈ cs.getLast?, Text.isBlank c = false

theorem stripWhere_append {p : Char → Bool} {front cs back : List Char}
    (dropped : ∀ c ∈ front, p c = true) (dropped' : ∀ c ∈ back, p c = true)
    (first : ∀ c ∈ cs.head?, p c = false) (last : ∀ c ∈ cs.getLast?, p c = false) :
    stripWhere p (front ++ (cs ++ back)) = cs := by
  have dropped'' : ∀ c ∈ back.reverse, p c = true := fun c mem =>
    dropped' c (List.mem_reverse.mp mem)
  cases cs with
  | nil =>
      have all : ∀ c ∈ front ++ ([] ++ back), p c = true :=
        List.forall_mem_append.mpr ⟨dropped, dropped'⟩
      rw [stripWhere, List.dropWhile_eq_nil_iff.mpr all]
      rfl
  | cons c cs =>
      have kept : (front ++ (c :: cs ++ back)).dropWhile p = c :: cs ++ back :=
        dropWhile_front dropped first
      rw [stripWhere, kept, List.reverse_append,
        dropWhile_front dropped'' (by rwa [List.head?_reverse]), List.reverse_reverse]

theorem Divided.last (divided : Divided (x :: chunks)) (solid : x.isBlank = false) :
    ∃ front c, x.chars = front ++ [c] ∧ Text.isBlank c = false := by
  cases divided with
  | element preserved _ =>
      obtain ⟨inside, rfl⟩ := preserved.ends
      exact ⟨'<' :: inside, '>', rfl, by decide⟩
  | char _ _ => exact ⟨[], _, rfl, solid⟩

theorem exists_middle (chunks : List Chunk) : ∃ front middle back,
    chunks = front ++ (middle ++ back) ∧ (∀ b ∈ front, b.isBlank = true) ∧
      (∀ b ∈ back, b.isBlank = true) ∧ (∀ y ∈ middle.head?, y.isBlank = false) ∧
      ∀ y ∈ middle.getLast?, y.isBlank = false := by
  obtain ⟨front, rest, rfl, blank, first⟩ := exists_blanks chunks
  obtain ⟨back, middle, whole, blank', last⟩ := exists_blanks rest.reverse
  obtain rfl := List.reverse_eq_iff.mp whole
  rw [List.reverse_append] at first
  refine ⟨front, middle.reverse, back.reverse, by rw [List.reverse_append], blank, ?_, ?_, ?_⟩
  · exact fun b mem => blank' b (List.mem_reverse.mp mem)
  · intro y mem
    exact first y (by simp [List.head?_append, Option.mem_def.mp mem])
  · rwa [List.getLast?_reverse]

theorem Divided.trim {middle back : List Chunk} (divided : Divided (middle ++ back))
    (first : ∀ y ∈ middle.head?, y.isBlank = false)
    (last : ∀ y ∈ middle.getLast?, y.isBlank = false) : Trim (textOf middle) := by
  constructor
  · cases middle with
    | nil => exact nofun
    | cons y middle =>
        obtain ⟨c, more, chars, solid, _⟩ := Divided.first divided (first y rfl)
        rintro d mem
        rw [textOf_cons, chars] at mem
        cases mem
        exact solid
  · rcases List.eq_nil_or_concat middle with rfl | ⟨middle, y, rfl⟩
    · exact nofun
    · rw [List.concat_eq_append] at last divided ⊢
      rw [List.append_assoc] at divided
      obtain ⟨front, c, chars, solid⟩ := divided.behind.last (last y (by simp))
      rintro d mem
      have same : c = d := by simpa [chars] using mem
      exact same ▸ solid

end Ends

theorem Thins.trans {before between after : List Chunk} (first : Thins before between)
    (second : Thins between after) : Thins before after := by
  induction first generalizing after with
  | nil => exact second
  | keep x _ ih =>
      cases second with
      | keep _ more => exact .keep x (ih more)
      | delete blank more => exact .delete blank (ih more)
  | delete blank _ ih => exact .delete blank (ih second)

theorem Divided.exists_after {before : List Chunk} (divided : Divided before) :
    ∃ after, Divided after ∧ textOf after = spaceless (textOf before) ∧ Thins before after ∧
      Tight after ∧ Trim (textOf after) := by
  obtain ⟨front, middle, back, whole, blank, blank', first, last⟩ := exists_middle (tighten before)
  have rest : Divided (middle ++ back) := (whole ▸ (tighten_eased before).divided divided).behind
  have ending : Eased middle (middle ++ back) := Eased.appended middle blank'
  have trim := rest.trim first last
  have text : spaceless (textOf before) = textOf middle := by
    rw [spaceless, replaceMatches_textOf before divided, whole, textOf_append, textOf_append]
    exact stripWhere_append (textOf_blanks blank) (textOf_blanks blank') trim.1 trim.2
  refine ⟨middle, ending.divided rest, text.symm, ?_, (tighten_tight before).part ?_, trim⟩
  · refine (tighten_eased before).thins.trans ?_
    rw [whole]
    exact ending.thins.blanks blank
  · rw [whole]
    exact ⟨front, back, by simp⟩

theorem Divided.spaceless_eq {chunks : List Chunk} (divided : Divided chunks)
    (tight : Tight chunks) (trim : Trim (textOf chunks)) :
    spaceless (textOf chunks) = textOf chunks := by
  have kept : strip ([] ++ (textOf chunks ++ [])) = textOf chunks :=
    stripWhere_append nofun nofun trim.1 trim.2
  rw [spaceless, replaceMatches_textOf chunks divided, tight.tighten_eq]
  simpa using kept

/-- A text is divided in one way into elements that are kept and characters outside of them.
Compacting deletes blanks outside of elements, and what is left is divided into what is left of
the division: the same elements in the same order, without blanks between tags or at the ends. So
compacting once more changes nothing. -/
theorem spaceless_compacts (h : List Char) : ∃ before after,
    (∀ chunks, Divided chunks ∧ textOf chunks = h ↔ chunks = before) ∧
    (∀ chunks, Divided chunks ∧ textOf chunks = spaceless h ↔ chunks = after) ∧
    Thins before after ∧ Tight after ∧ Trim (spaceless h) ∧
    spaceless (spaceless h) = spaceless h := by
  obtain ⟨before, divided, rfl⟩ := exists_divided h
  obtain ⟨after, divided', text, thins, tight, trim⟩ := divided.exists_after
  rw [← text]
  refine ⟨before, after, fun chunks => ⟨fun ⟨other, same⟩ => other.unique divided same, ?_⟩,
    fun chunks => ⟨fun ⟨other, same⟩ => other.unique divided' same, ?_⟩, thins, tight, trim,
    divided'.spaceless_eq tight trim⟩
  · rintro rfl
    exact ⟨divided, rfl⟩
  · rintro rfl
    exact ⟨divided', rfl⟩

/-- An element that is closed nowhere is not kept; one in which another begins is kept whole. -/
example : spaceless " <pre> <b> <pre> </PRE > <i> <script> </i> ".toList =
    "<pre> <b> <pre> </PRE ><i><script></i>".toList := by decide +kernel

end Stencil.Html
