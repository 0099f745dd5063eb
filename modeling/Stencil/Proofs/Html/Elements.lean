import Mathlib.Data.List.Forall2
import Mathlib.Data.List.Infix
import Stencil.Html.Tags

namespace Stencil.Html

open Text

def Spells (name written : List Char) : Prop :=
  List.Forall₂ (fun letter c => isLetterOf letter c = true) name written

/-- The tags that close an element: its name is written alike but for the case. -/
inductive Closes (written : List Char) : List Char → Prop
  | intro {same blanks : List Char} (alike : same.map foldCase = written.map foldCase)
      (blank : ∀ c ∈ blanks, isBlank c = true) :
      Closes written ('<' :: '/' :: (same ++ (blanks ++ ['>'])))

/-- Whether no tag closes the element before the end of a text. -/
def OpenBefore (written cs : List Char) : Prop :=
  ∀ tag, Closes written tag → ¬tag <:+: cs.dropLast

/-- Elements that are kept: one of the names as a whole word, and all that follows up to the first
tag that closes it. -/
inductive Preserved : List Char → Prop
  | intro {name written content closing : List Char} (known : name ∈ preservedNames)
      (spells : Spells name written) (wordEnd : atWordEnd (content ++ closing) = true)
      (closes : Closes written closing)
      (first : OpenBefore written (content ++ closing)) :
      Preserved ('<' :: (written ++ (content ++ closing)))

/-! No bracket stands for a letter of a name. -/

def isBracket (c : Char) : Bool := c == '<' || c == '>'

def Unbracketed (cs : List Char) : Prop := ∀ c ∈ cs, isBracket c = false

theorem isBracket_foldCase (c : Char) : isBracket (foldCase c) = isBracket c := by
  unfold foldCase
  split
  · next same =>
      subst same
      decide
  · unfold Char.toLower
    split
    · next upper =>
        have letter : 65 ≤ c.toNat ∧ c.toNat ≤ 90 := by
          simpa [UInt32.le_iff_toNat_le] using upper
        rw [Bool.eq_iff_iff]
        simp only [isBracket, Bool.or_eq_true, beq_iff_eq, ← Char.toNat_inj]
        simp
        omega
    · rfl

theorem isBracket_of_isLetterOf {letter c : Char} (stands : isLetterOf letter c = true)
    (bracket : isBracket c = true) : isBracket letter = true := by
  have isLetter : c = letter := by
    have cases : c = '<' ∨ c = '>' := by simpa [isBracket] using bracket
    rcases cases with rfl | rfl <;> simpa [isLetterOf, foldCase] using stands
  rwa [← isLetter]

theorem preservedNames_unbracketed :
    ∀ name ∈ preservedNames, ∀ c ∈ name, isBracket c = false := by
  have all : ∀ name ∈ preservedNames, name.all (!isBracket ·) = true := by decide
  simpa only [List.all_eq_true, Bool.not_eq_true'] using all

theorem Spells.unbracketed {name written : List Char} (known : name ∈ preservedNames)
    (spells : Spells name written) : Unbracketed written := by
  have plain := preservedNames_unbracketed name known
  clear known
  induction spells with
  | nil => exact nofun
  | @cons letter c name written stands _ ih =>
      obtain ⟨first, others⟩ := List.forall_mem_cons.mp plain
      refine List.forall_mem_cons.mpr ⟨Bool.eq_false_iff.mpr fun bracket => ?_, ih others⟩
      rw [isBracket_of_isLetterOf stands bracket] at first
      cases first

section Closing

variable {written tag : List Char}

theorem Closes.ends (plain : Unbracketed written) (closes : Closes written tag) :
    ∃ inside, tag = '<' :: (inside ++ ['>']) ∧ Unbracketed inside := by
  cases closes with
  | @intro same blanks alike blank =>
      refine ⟨'/' :: (same ++ blanks), by simp, List.forall_mem_cons.mpr ⟨by decide, ?_⟩⟩
      refine List.forall_mem_append.mpr ⟨fun c mem => ?_, fun c mem => ?_⟩
      · have found := List.mem_map_of_mem (f := foldCase) mem
        rw [alike] at found
        obtain ⟨d, inWritten, folded⟩ := List.mem_map.mp found
        rw [← isBracket_foldCase, ← folded, isBracket_foldCase]
        exact plain d inWritten
      · refine Bool.eq_false_iff.mpr fun bracket => ?_
        have blank := blank c mem
        have cases : c = '<' ∨ c = '>' := by simpa [isBracket] using bracket
        rcases cases with rfl | rfl <;> exact absurd blank (by decide)

theorem Closes.unbroken (plain : Unbracketed written) (closes : Closes written tag) :
    '>' ∉ tag.dropLast := by
  obtain ⟨inside, rfl, unbracketed⟩ := closes.ends plain
  rw [← List.cons_append, List.dropLast_concat, List.mem_cons, not_or]
  exact ⟨by decide, fun mem => Bool.noConfusion (unbracketed _ mem)⟩

theorem Closes.ne_nil (closes : Closes written tag) : tag ≠ [] := by
  cases closes
  exact List.cons_ne_nil _ _

/-! Where a closing tag is found. -/

theorem afterSame?_append {name same : List Char}
    (alike : same.map foldCase = name.map foldCase) (rest : List Char) :
    afterSame? name (same ++ rest) = some rest := by
  induction name generalizing same with
  | nil =>
      rw [List.map_eq_nil_iff.mp alike]
      rfl
  | cons n name ih =>
      obtain ⟨c, others, rfl, first, alike⟩ := List.map_eq_cons_iff.mp alike
      rw [List.cons_append, afterSame?, if_pos (beq_iff_eq.mpr first.symm), ih alike]

theorem exists_of_afterSame? {name cs rest : List Char} (found : afterSame? name cs = some rest) :
    ∃ same, same.map foldCase = name.map foldCase ∧ cs = same ++ rest := by
  induction name generalizing cs with
  | nil => exact ⟨[], rfl, Option.some.inj found⟩
  | cons n name ih =>
      cases cs with
      | nil => cases found
      | cons c cs =>
          rw [afterSame?] at found
          split at found
          · next first =>
              obtain ⟨same, alike, rfl⟩ := ih found
              refine ⟨c :: same, ?_, rfl⟩
              rw [List.map_cons, List.map_cons, alike, beq_iff_eq.mp first]
          · cases found

theorem dropWhile_front {α : Type} {p : α → Bool} {front rest : List α}
    (dropped : ∀ a ∈ front, p a = true) (first : ∀ a ∈ rest.head?, p a = false) :
    (front ++ rest).dropWhile p = rest := by
  rw [List.dropWhile_append_of_pos dropped]
  cases rest with
  | nil => rfl
  | cons a rest => rw [List.dropWhile_cons_of_neg (by simp [first a rfl])]

theorem Closes.found (closes : Closes written tag) (rest : List Char) :
    afterClosing? written (tag ++ rest) = some rest := by
  cases closes with
  | @intro same blanks alike blank =>
      have closed : (blanks ++ '>' :: rest).dropWhile isBlank = '>' :: rest := by
        refine dropWhile_front blank fun c mem => ?_
        cases mem
        decide
      simp [afterClosing?, afterSame?_append alike, closed]

theorem exists_closes {cs rest : List Char} (found : afterClosing? written cs = some rest) :
    ∃ tag, Closes written tag ∧ cs = tag ++ rest := by
  unfold afterClosing? at found
  split at found
  · next cs =>
      obtain ⟨behind, name, closed⟩ := Option.bind_eq_some_iff.mp found
      obtain ⟨same, alike, rfl⟩ := exists_of_afterSame? name
      split at closed
      · next after whole =>
          cases closed
          have blank : ∀ c ∈ behind.takeWhile isBlank, isBlank c = true :=
            List.all_eq_true.mp List.all_takeWhile
          refine ⟨_, .intro alike blank, ?_⟩
          have split := List.takeWhile_append_dropWhile (p := isBlank) (l := behind)
          rw [whole] at split
          simp [split]
      · cases closed
  · cases found

theorem Closes.not_prefix_behind (plain : Unbracketed written) (closes : Closes written tag)
    {c : Char} {cs : List Char} (opens : '<' ∈ cs) : ¬c :: cs <+: tag := by
  rintro ⟨rest, whole⟩
  obtain ⟨inside, rfl, unbracketed⟩ := closes.ends plain
  have mem : '<' ∈ inside ++ ['>'] := (List.cons.inj whole).2 ▸ List.mem_append_left rest opens
  rcases List.mem_append.mp mem with inside | atEnd
  · cases unbracketed _ inside
  · cases List.mem_singleton.mp atEnd

theorem Closes.not_infix_dropLast (plain : Unbracketed written) {other : List Char}
    (closes : Closes written tag) (closes' : Closes written other) : ¬other <:+: tag.dropLast := by
  intro found
  obtain ⟨inside, rfl, _⟩ := closes'.ends plain
  exact closes.unbroken plain (found.subset (by simp))

theorem exists_of_findClosing? (plain : Unbracketed written) {cs rest : List Char}
    (found : findClosing? written cs = some rest) :
    ∃ content closing, Closes written closing ∧
      OpenBefore written (content ++ closing) ∧ cs = content ++ closing ++ rest := by
  induction cs with
  | nil => cases found
  | cons c cs ih =>
      rw [findClosing?] at found
      split at found
      · next closed =>
          cases found
          obtain ⟨closing, closes, whole⟩ := exists_closes closed
          exact ⟨[], closing, closes, fun tag => closes.not_infix_dropLast plain, whole⟩
      · next missed =>
          obtain ⟨content, closing, closes, first, rfl⟩ := ih found
          refine ⟨c :: content, closing, closes, fun tag other inside => ?_, rfl⟩
          rw [List.cons_append, List.dropLast_cons_of_ne_nil (by simp [closes.ne_nil])] at inside
          rcases List.infix_cons_iff.mp inside with begins | behind
          · have shorter : (content ++ closing).dropLast <+: content ++ closing ++ rest :=
              (List.dropLast_prefix _).trans (List.prefix_append _ rest)
            obtain ⟨after, whole⟩ := begins.trans (List.cons_prefix_cons.mpr ⟨rfl, shorter⟩)
            rw [← whole, other.found] at missed
            cases missed
          · exact first tag other behind

theorem findClosing?_append (plain : Unbracketed written) {content closing : List Char}
    (closes : Closes written closing) (first : OpenBefore written (content ++ closing))
    (rest : List Char) : findClosing? written (content ++ closing ++ rest) = some rest := by
  have found := closes.found rest
  obtain ⟨inside, bracketed, _⟩ := closes.ends plain
  induction content with
  | nil =>
      rw [List.nil_append]
      rw [bracketed, List.cons_append] at found ⊢
      rw [findClosing?, found]
  | cons c content ih =>
      have dropped : (c :: (content ++ closing)).dropLast = c :: (content ++ closing.dropLast) := by
        rw [List.dropLast_cons_of_ne_nil (by simp [closes.ne_nil]),
          List.dropLast_append_of_ne_nil closes.ne_nil]
      have missed : afterClosing? written (c :: (content ++ closing ++ rest)) = none := by
        refine Option.eq_none_iff_forall_ne_some.mpr fun after closed => ?_
        obtain ⟨tag, other, whole⟩ := exists_closes closed
        have atFront : tag <+: c :: (content ++ closing ++ rest) := ⟨after, whole.symm⟩
        have before : c :: (content ++ closing.dropLast) <+: c :: (content ++ closing ++ rest) := by
          rw [← dropped]
          exact (List.dropLast_prefix _).trans (List.prefix_append (c :: (content ++ closing)) rest)
        rcases List.prefix_or_prefix_of_prefix atFront before with within | around
        · rw [← dropped] at within
          exact first tag other within.isInfix
        · refine other.not_prefix_behind plain ?_ around
          rw [bracketed, ← List.cons_append, List.dropLast_concat]
          simp
      rw [List.cons_append, List.cons_append, findClosing?, missed]
      refine ih fun tag other inside => first tag other (inside.trans ?_)
      rw [List.cons_append, List.dropLast_cons_of_ne_nil (by simp [closes.ne_nil])]
      exact (List.suffix_cons c _).isInfix

theorem findClosing?_isSome {cs : List Char} :
    (findClosing? written cs).isSome = true ↔ ∃ tag, Closes written tag ∧ tag <:+: cs := by
  induction cs with
  | nil =>
      refine ⟨nofun, fun ⟨tag, closes, inside⟩ => ?_⟩
      exact absurd (List.infix_nil.mp inside) closes.ne_nil
  | cons c cs ih =>
      rw [findClosing?]
      split
      · next closed =>
          obtain ⟨tag, closes, whole⟩ := exists_closes closed
          exact ⟨fun _ => ⟨tag, closes, whole ▸ (List.prefix_append tag _).isInfix⟩, fun _ => rfl⟩
      · next missed =>
          rw [ih]
          refine exists_congr fun tag => and_congr_right fun closes => ?_
          refine ⟨fun inside => inside.trans (List.suffix_cons c cs).isInfix, fun inside => ?_⟩
          rcases List.infix_cons_iff.mp inside with ⟨rest, begins⟩ | behind
          · rw [← begins, closes.found] at missed
            cases missed
          · exact behind

end Closing

/-! Names. -/

section Name

variable {name written : List Char}

theorem Spells.found (spells : Spells name written) (rest : List Char) :
    afterName? name (written ++ rest) = some rest := by
  induction spells with
  | nil => rfl
  | cons stands _ ih => rw [List.cons_append, afterName?, if_pos stands, ih]

theorem exists_spells {cs rest : List Char} (found : afterName? name cs = some rest) :
    ∃ written, Spells name written ∧ cs = written ++ rest := by
  induction name generalizing cs with
  | nil => exact ⟨[], .nil, Option.some.inj found⟩
  | cons letter name ih =>
      cases cs with
      | nil => cases found
      | cons c cs =>
          rw [afterName?] at found
          split at found
          · next stands =>
              obtain ⟨written, spells, rfl⟩ := ih found
              exact ⟨c :: written, .cons stands spells, rfl⟩
          · cases found

def isFurther (c : Char) : Bool := c == 'ſ' || c == 'ı'

theorem letter_unique {a b c : Char} (plain : isFurther a = false) (plain' : isFurther b = false)
    (stands : isLetterOf a c = true) (stands' : isLetterOf b c = true) : a = b := by
  have long : foldCase 'ſ' = 'ſ' := by decide
  have dotless : foldCase 'ı' = 'ı' := by decide
  simp only [isLetterOf, Bool.or_eq_true, Bool.and_eq_true, beq_iff_eq] at stands stands'
  simp only [isFurther, Bool.or_eq_false_iff, beq_eq_false_iff_ne] at plain plain'
  grind

theorem letters_unique {l l' cs : List Char} (plain : ∀ c ∈ l, isFurther c = false)
    (plain' : ∀ c ∈ l', isFurther c = false) (spells : Spells l cs) (spells' : Spells l' cs) :
    l = l' := by
  induction spells generalizing l' with
  | nil =>
      cases spells'
      rfl
  | cons stands _ ih =>
      cases spells' with
      | cons stands' spells' =>
          obtain ⟨first, plain⟩ := List.forall_mem_cons.mp plain
          obtain ⟨first', plain'⟩ := List.forall_mem_cons.mp plain'
          rw [letter_unique first first' stands stands', ih plain plain' spells']

theorem preservedNames_first : ∀ name ∈ preservedNames, 2 ≤ name.length ∧
    (∀ c ∈ name, isFurther c = false) ∧
    ∀ name' ∈ preservedNames, name.take 2 = name'.take 2 → name = name' := by
  have all : ∀ name ∈ preservedNames, 2 ≤ name.length ∧ name.all (!isFurther ·) = true ∧
      ∀ name' ∈ preservedNames, name.take 2 = name'.take 2 → name = name' := by decide
  simpa only [List.all_eq_true, Bool.not_eq_true'] using all

/-- At most one of the names stands at the front of a text: their first two letters differ. -/
theorem Spells.name_unique {name' written' cs : List Char} (known : name ∈ preservedNames)
    (known' : name' ∈ preservedNames) (spells : Spells name written)
    (spells' : Spells name' written') (atFront : written <+: cs) (atFront' : written' <+: cs) :
    name = name' := by
  obtain ⟨long, plain, apart⟩ := preservedNames_first name known
  obtain ⟨long', plain', _⟩ := preservedNames_first name' known'
  have first : ∀ {n w : List Char}, 2 ≤ n.length → Spells n w → w <+: cs →
      Spells (n.take 2) (cs.take 2) := by
    rintro n w long spells ⟨rest, rfl⟩
    have enough : 2 ≤ w.length := spells.length_eq ▸ long
    rw [List.take_append_of_le_length enough]
    exact List.forall₂_take 2 spells
  exact apart name' known' (letters_unique (fun c mem => plain c (List.mem_of_mem_take mem))
    (fun c mem => plain' c (List.mem_of_mem_take mem)) (first long spells atFront)
    (first long' spells' atFront'))

end Name

/-! Where an element that is kept begins. -/

/-- The text behind an element that begins behind a `<` and has a given name. -/
def afterNamed? (cs name : List Char) : Option (List Char) := do
  let rest ← afterName? name cs
  if atWordEnd rest then findClosing? (cs.take name.length) rest else none

theorem afterPreserved?_cons (cs : List Char) :
    afterPreserved? ('<' :: cs) = preservedNames.findSome? (afterNamed? cs) := rfl

theorem atWordEnd_append {cs : List Char} (nonempty : cs ≠ []) (rest : List Char) :
    atWordEnd (cs ++ rest) = atWordEnd cs := by
  cases cs with
  | nil => exact absurd rfl nonempty
  | cons c cs => rfl

theorem afterNamed?_append {name written content closing : List Char}
    (known : name ∈ preservedNames) (spells : Spells name written)
    (wordEnd : atWordEnd (content ++ closing) = true) (closes : Closes written closing)
    (first : OpenBefore written (content ++ closing)) (rest : List Char) :
    afterNamed? (written ++ (content ++ closing ++ rest)) name = some rest := by
  have longer : atWordEnd (content ++ closing ++ rest) = true := by
    rw [atWordEnd_append (by simp [closes.ne_nil]), wordEnd]
  have taken : (written ++ (content ++ closing ++ rest)).take name.length = written :=
    List.take_left' spells.length_eq.symm
  rw [afterNamed?, spells.found, Option.bind_eq_bind, Option.bind_some, if_pos longer, taken]
  exact findClosing?_append (spells.unbracketed known) closes first rest

theorem exists_of_afterNamed? {cs name rest : List Char} (known : name ∈ preservedNames)
    (found : afterNamed? cs name = some rest) :
    ∃ written content closing, Spells name written ∧ atWordEnd (content ++ closing) = true ∧
      Closes written closing ∧ OpenBefore written (content ++ closing) ∧
      cs = written ++ (content ++ closing ++ rest) := by
  obtain ⟨behind, named, found⟩ := Option.bind_eq_some_iff.mp found
  obtain ⟨written, spells, rfl⟩ := exists_spells named
  split at found
  · next wordEnd =>
      rw [List.take_left' spells.length_eq.symm] at found
      obtain ⟨content, closing, closes, first, rfl⟩ :=
        exists_of_findClosing? (spells.unbracketed known) found
      rw [atWordEnd_append (by simp [closes.ne_nil])] at wordEnd
      exact ⟨written, content, closing, spells, wordEnd, closes, first, rfl⟩
  · cases found

theorem exists_preserved {cs rest : List Char} (found : afterPreserved? cs = some rest) :
    ∃ e, Preserved e ∧ cs = e ++ rest := by
  unfold afterPreserved? at found
  split at found
  · next cs =>
      obtain ⟨name, known, found⟩ := List.exists_of_findSome?_eq_some found
      obtain ⟨written, content, closing, spells, wordEnd, closes, first, rfl⟩ :=
        exists_of_afterNamed? known found
      exact ⟨_, .intro known spells wordEnd closes first, by simp⟩
  · cases found

theorem Preserved.found {e : List Char} (preserved : Preserved e) (rest : List Char) :
    afterPreserved? (e ++ rest) = some rest := by
  cases preserved with
  | @intro name written content closing known spells wordEnd closes first =>
      have named := afterNamed?_append known spells wordEnd closes first rest
      rw [List.cons_append, List.append_assoc, afterPreserved?_cons]
      have isSome : (preservedNames.findSome?
          (afterNamed? (written ++ (content ++ closing ++ rest)))).isSome = true := by
        rw [List.findSome?_isSome_iff]
        exact ⟨name, known, by rw [named]; rfl⟩
      obtain ⟨other, found⟩ := Option.isSome_iff_exists.mp isSome
      obtain ⟨name', known', named'⟩ := List.exists_of_findSome?_eq_some found
      obtain ⟨_, _, _, spells', _, _, _, whole⟩ := exists_of_afterNamed? known' named'
      have same := spells.name_unique known known' spells' (List.prefix_append _ _)
        ⟨_, whole.symm⟩
      rw [found, ← named', ← same, named]

def Begins (cs : List Char) : Prop := ∃ e, Preserved e ∧ e <+: cs

theorem afterPreserved?_eq_none {cs : List Char} : afterPreserved? cs = none ↔ ¬Begins cs := by
  constructor
  · rintro missed ⟨e, preserved, rest, rfl⟩
    rw [preserved.found] at missed
    cases missed
  · intro none
    refine Option.eq_none_iff_forall_ne_some.mpr fun rest found => ?_
    obtain ⟨e, preserved, rfl⟩ := exists_preserved found
    exact none ⟨e, preserved, List.prefix_append e rest⟩

/-- An element begins where its name does, if a tag closes it anywhere further on. -/
theorem begins_iff {cs : List Char} : Begins cs ↔ ∃ name ∈ preservedNames,
    ∃ written tail tag, Spells name written ∧ atWordEnd tail = true ∧ Closes written tag ∧
      tag <:+: tail ∧ cs = '<' :: (written ++ tail) := by
  constructor
  · rintro ⟨_, preserved, rest, rfl⟩
    cases preserved with
    | @intro name written content closing known spells wordEnd closes first =>
        refine ⟨name, known, written, content ++ closing ++ rest, closing, spells, ?_, closes,
          ⟨content, rest, rfl⟩, by simp⟩
        rw [atWordEnd_append (by simp [closes.ne_nil]), wordEnd]
  · rintro ⟨name, known, written, tail, tag, spells, wordEnd, closes, inside, rfl⟩
    obtain ⟨rest, found⟩ := Option.isSome_iff_exists.mp
      (findClosing?_isSome.mpr ⟨tag, closes, inside⟩)
    obtain ⟨content, closing, closes, first, rfl⟩ :=
      exists_of_findClosing? (spells.unbracketed known) found
    rw [atWordEnd_append (by simp [closes.ne_nil])] at wordEnd
    exact ⟨_, .intro known spells wordEnd closes first, rest, by simp⟩

end Stencil.Html
