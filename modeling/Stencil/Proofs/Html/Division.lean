import Stencil.Proofs.Html.Elements

namespace Stencil.Html

open Text

/-- What HTML is divided into: elements that are kept, and characters outside of them. -/
inductive Chunk
  | char (c : Char)
  | element (cs : List Char)
  deriving DecidableEq

namespace Chunk

def chars : Chunk → List Char
  | char c => [c]
  | element cs => cs

def isBlank : Chunk → Bool
  | char c => Text.isBlank c
  | element _ => false

def beginsTag : Chunk → Bool
  | char c => c == '<'
  | element _ => true

def endsTag : Chunk → Bool
  | char c => c == '>'
  | element _ => true

end Chunk

def textOf (chunks : List Chunk) : List Char := chunks.flatMap Chunk.chars

@[simp] theorem textOf_nil : textOf [] = [] := rfl

@[simp] theorem textOf_cons (x : Chunk) (chunks : List Chunk) :
    textOf (x :: chunks) = x.chars ++ textOf chunks := List.flatMap_cons

@[simp] theorem textOf_append (first second : List Chunk) :
    textOf (first ++ second) = textOf first ++ textOf second := List.flatMap_append

/-- Whether the elements of a text are all found, from left to right. -/
inductive Divided : List Chunk → Prop
  | nil : Divided []
  | element {e : List Char} {chunks : List Chunk} (preserved : Preserved e)
      (more : Divided chunks) : Divided (.element e :: chunks)
  | char {c : Char} {chunks : List Chunk} (outside : ¬Begins (c :: textOf chunks))
      (more : Divided chunks) : Divided (.char c :: chunks)

inductive Thins : List Chunk → List Chunk → Prop
  | nil : Thins [] []
  | keep (x : Chunk) {before after : List Chunk} (more : Thins before after) :
      Thins (x :: before) (x :: after)
  | delete {x : Chunk} {before after : List Chunk} (blank : x.isBlank = true)
      (more : Thins before after) : Thins (x :: before) after

theorem Preserved.ends {e : List Char} (preserved : Preserved e) :
    ∃ inside, e = '<' :: (inside ++ ['>']) := by
  cases preserved with
  | @intro name written content closing known spells wordEnd closes first =>
      obtain ⟨inside, rfl, _⟩ := closes.ends (spells.unbracketed known)
      exact ⟨written ++ (content ++ '<' :: inside), by simp⟩

/-! Every text is divided in one way. -/

theorem exists_divided (cs : List Char) : ∃ chunks, Divided chunks ∧ textOf chunks = cs := by
  match cs with
  | [] => exact ⟨[], .nil, rfl⟩
  | c :: cs =>
      by_cases begins : Begins (c :: cs)
      · obtain ⟨e, preserved, rest, whole⟩ := begins
        obtain ⟨chunks, divided, rfl⟩ := exists_divided rest
        exact ⟨.element e :: chunks, .element preserved divided, whole⟩
      · obtain ⟨chunks, divided, rfl⟩ := exists_divided cs
        exact ⟨.char c :: chunks, .char begins divided, rfl⟩
termination_by cs.length
decreasing_by
  · obtain ⟨inside, rfl⟩ := preserved.ends
    have := congrArg List.length whole
    simp only [List.cons_append, List.length_cons, List.length_append] at *
    omega
  · exact Nat.lt_succ_self _

theorem Preserved.unique {e e' rest rest' : List Char} (preserved : Preserved e)
    (preserved' : Preserved e') (same : e ++ rest = e' ++ rest') : e = e' ∧ rest = rest' := by
  have found := preserved.found rest
  rw [same, preserved'.found] at found
  cases found
  exact ⟨List.append_cancel_right same, rfl⟩

theorem Divided.unique {first second : List Chunk} (divided : Divided first)
    (divided' : Divided second) (same : textOf first = textOf second) : first = second := by
  induction divided generalizing second with
  | nil =>
      cases divided' with
      | nil => rfl
      | element preserved _ =>
          obtain ⟨inside, rfl⟩ := preserved.ends
          cases same
      | char _ _ => cases same
  | @element e chunks preserved more ih =>
      cases divided' with
      | nil =>
          obtain ⟨inside, rfl⟩ := preserved.ends
          cases same
      | element preserved' more' =>
          obtain ⟨rfl, behind⟩ := preserved.unique preserved' same
          rw [ih more' behind]
      | char outside _ => exact absurd ⟨e, preserved, textOf chunks, same⟩ outside
  | char outside more ih =>
      cases divided' with
      | nil => cases same
      | @element e chunks preserved _ =>
          exact absurd ⟨e, preserved, textOf chunks, same.symm⟩ outside
      | char outside' more' =>
          obtain ⟨rfl, behind⟩ := List.cons.inj same
          rw [ih more' behind]

/-! Blanks are put in between, and no element begins that did not begin before. -/

/-- Texts with blanks put in behind a `>`, or at the end. -/
inductive Loosens : List Char → List Char → Prop
  | ending {blanks : List Char} (blank : ∀ b ∈ blanks, Text.isBlank b = true) : Loosens [] blanks
  | keep (c : Char) {cs ds : List Char} (more : Loosens cs ds) : Loosens (c :: cs) (c :: ds)
  | gap {blanks cs ds : List Char} (more : Loosens cs ds) :
      Loosens ('>' :: cs) ('>' :: (blanks ++ ds))

namespace Loosens

variable {cs ds : List Char}

theorem cons_inv {c : Char} (loosens : Loosens (c :: cs) ds) : ∃ ds', ds = c :: ds' := by
  cases loosens with
  | keep _ _ => exact ⟨_, rfl⟩
  | gap _ => exact ⟨_, rfl⟩

/-- Nothing is put into a text that has no `>`. -/
theorem split {front : List Char} (unbroken : '>' ∉ front) (loosens : Loosens (front ++ cs) ds) :
    ∃ ds', ds = front ++ ds' ∧ Loosens cs ds' := by
  induction front generalizing ds with
  | nil => exact ⟨ds, rfl, loosens⟩
  | cons c front ih =>
      rw [List.mem_cons, not_or] at unbroken
      cases loosens with
      | keep _ more =>
          obtain ⟨ds', rfl, behind⟩ := ih unbroken.2 more
          exact ⟨ds', rfl, behind⟩
      | gap _ => exact absurd rfl unbroken.1

theorem atFront {p : List Char} (unbroken : '>' ∉ p.dropLast) (begins : p <+: cs)
    (loosens : Loosens cs ds) : p <+: ds := by
  rcases List.eq_nil_or_concat p with rfl | ⟨q, x, rfl⟩
  · exact List.nil_prefix
  · obtain ⟨rest, rfl⟩ := begins
    rw [List.concat_eq_append, List.dropLast_concat] at unbroken
    rw [List.concat_eq_append, List.append_assoc] at loosens
    obtain ⟨ds', rfl, behind⟩ := loosens.split unbroken
    obtain ⟨ds', rfl⟩ := behind.cons_inv
    exact ⟨ds', by simp⟩

theorem within {p : List Char} (unbroken : '>' ∉ p.dropLast) (inside : p <:+: cs)
    (loosens : Loosens cs ds) : p <:+: ds := by
  induction loosens with
  | ending _ =>
      rw [List.infix_nil.mp inside]
      exact List.nil_infix
  | @keep c cs ds more ih =>
      rcases List.infix_cons_iff.mp inside with begins | behind
      · exact ((Loosens.keep c more).atFront unbroken begins).isInfix
      · exact (ih behind).trans (List.suffix_cons c ds).isInfix
  | @gap blanks cs ds more ih =>
      rcases List.infix_cons_iff.mp inside with begins | behind
      · exact ((Loosens.gap more).atFront unbroken begins).isInfix
      · exact (ih behind).trans (List.suffix_append ('>' :: blanks) ds).isInfix

theorem begins (loosens : Loosens cs ds) (begins : Begins cs) : Begins ds := by
  obtain ⟨name, known, written, tail, tag, spells, wordEnd, closes, inside, rfl⟩ :=
    begins_iff.mp begins
  have plain := spells.unbracketed known
  have unbroken : '>' ∉ '<' :: written := by
    intro mem
    rcases List.mem_cons.mp mem with same | mem
    · cases same
    · cases plain _ mem
  rw [← List.cons_append] at loosens
  obtain ⟨tail', rfl, behind⟩ := loosens.split unbroken
  cases tail with
  | nil => exact absurd (List.infix_nil.mp inside) closes.ne_nil
  | cons c tail =>
      obtain ⟨rest, rfl⟩ := behind.cons_inv
      refine begins_iff.mpr ⟨name, known, written, c :: rest, tag, spells, wordEnd, closes, ?_, rfl⟩
      exact behind.within (closes.unbroken plain) inside

theorem append (front : List Char) (loosens : Loosens cs ds) :
    Loosens (front ++ cs) (front ++ ds) := by
  induction front with
  | nil => exact loosens
  | cons c _ ih => exact ih.keep c

end Loosens

/-- Chunks with blanks put in behind what ends a tag, or at the end. -/
inductive Eased : List Chunk → List Chunk → Prop
  | ending {blanks : List Chunk} (blank : ∀ b ∈ blanks, b.isBlank = true) : Eased [] blanks
  | keep (x : Chunk) {before after : List Chunk} (more : Eased after before) :
      Eased (x :: after) (x :: before)
  | gap {x : Chunk} {blanks before after : List Chunk} (ends : x.endsTag = true)
      (blank : ∀ b ∈ blanks, b.isBlank = true) (more : Eased after before) :
      Eased (x :: after) (x :: (blanks ++ before))

section Division

variable {x : Chunk} {before after chunks : List Chunk}

theorem Divided.tail (divided : Divided (x :: chunks)) : Divided chunks := by
  cases divided with
  | element _ more => exact more
  | char _ more => exact more

theorem Divided.behind {front : List Chunk} (divided : Divided (front ++ chunks)) :
    Divided chunks := by
  induction front with
  | nil => exact divided
  | cons _ _ ih => exact ih divided.tail

theorem Divided.ends (divided : Divided (x :: chunks)) (ends : x.endsTag = true) :
    ∃ front, x.chars = front ++ ['>'] := by
  cases divided with
  | element preserved _ =>
      obtain ⟨inside, rfl⟩ := preserved.ends
      exact ⟨'<' :: inside, rfl⟩
  | char _ _ =>
      obtain rfl := beq_iff_eq.mp ends
      exact ⟨[], rfl⟩

theorem textOf_blanks {blanks : List Chunk} (blank : ∀ b ∈ blanks, b.isBlank = true) :
    ∀ b ∈ textOf blanks, Text.isBlank b = true := by
  intro c mem
  obtain ⟨x, inBlanks, mem⟩ := List.mem_flatMap.mp mem
  cases x with
  | char d => exact List.mem_singleton.mp mem ▸ blank _ inBlanks
  | element e => cases blank _ inBlanks

theorem Eased.loosens (eased : Eased after before) (divided : Divided before) :
    Loosens (textOf after) (textOf before) := by
  induction eased with
  | ending blank => exact .ending (textOf_blanks blank)
  | keep x more ih => exact (ih divided.tail).append x.chars
  | @gap x blanks before after ends blank more ih =>
      obtain ⟨front, chars⟩ := divided.ends ends
      have behind : Loosens ('>' :: textOf after) ('>' :: (textOf blanks ++ textOf before)) :=
        (ih divided.tail.behind).gap
      simpa [chars] using behind.append front

/-- No element begins where one did not begin before, so the others are all found. -/
theorem Eased.divided (eased : Eased after before) (divided : Divided before) :
    Divided after := by
  induction eased with
  | ending _ => exact .nil
  | keep x more ih =>
      cases divided with
      | element preserved rest => exact .element preserved (ih rest)
      | char outside rest =>
          exact .char (fun begins => outside (((more.loosens rest).keep _).begins begins)) (ih rest)
  | @gap x blanks before after ends blank more ih =>
      have loosens := (more.gap ends blank).loosens divided
      cases divided with
      | element preserved rest => exact .element preserved (ih rest.behind)
      | char outside rest =>
          exact .char (fun begins => outside (loosens.begins begins)) (ih rest.behind)

theorem Thins.blanks {blanks : List Chunk} (blank : ∀ b ∈ blanks, b.isBlank = true)
    (thins : Thins before after) : Thins (blanks ++ before) after := by
  induction blanks with
  | nil => exact thins
  | cons b blanks ih =>
      obtain ⟨first, others⟩ := List.forall_mem_cons.mp blank
      exact .delete first (ih others)

theorem Eased.appended (chunks : List Chunk) {blanks : List Chunk}
    (blank : ∀ b ∈ blanks, b.isBlank = true) : Eased chunks (chunks ++ blanks) := by
  induction chunks with
  | nil => exact .ending blank
  | cons x _ ih => exact .keep x ih

theorem Eased.thins (eased : Eased after before) : Thins before after := by
  induction eased with
  | ending blank => simpa using Thins.nil.blanks blank
  | keep x _ ih => exact .keep x ih
  | gap _ blank _ ih => exact .keep _ (ih.blanks blank)

end Division

end Stencil.Html
