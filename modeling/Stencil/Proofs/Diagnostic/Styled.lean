import Stencil.Diagnostic.Basic

namespace Stencil

def Colorless (text : String) : Prop := '\x1b' ∉ text.toList

instance (text : String) : Decidable (Colorless text) :=
  inferInstanceAs (Decidable ('\x1b' ∉ text.toList))

/-! Stripping. -/

theorem controlSequence?_eq_none {c : Char} (other : c ≠ '\x1b') (cs : List Char) :
    controlSequence? (c :: cs) = none := by
  unfold controlSequence?
  split
  · next same => exact absurd (List.cons.inj same).1 other
  · rfl

theorem replaceMatches_colorless {cs : List Char} (free : '\x1b' ∉ cs) (rest : List Char) :
    Text.replaceMatches controlSequence? (cs ++ rest) =
      cs ++ Text.replaceMatches controlSequence? rest := by
  induction cs with
  | nil => rfl
  | cons c cs ih =>
      rw [List.mem_cons, not_or] at free
      rw [List.cons_append, Text.replaceMatches_missed
        (controlSequence?_eq_none (Ne.symm free.1) _), ih free.2, List.cons_append]

theorem stripColors_append {text : String} (free : Colorless text) (rest : String) :
    stripColors (text ++ rest) = text ++ stripColors rest := by
  rw [stripColors, String.toList_append, replaceMatches_colorless free, String.ofList_append,
    String.ofList_toList, stripColors]

def IsParameter (text : String) : Prop := ∀ c ∈ text.toList, '0' ≤ c ∧ c ≤ '?'

instance (text : String) : Decidable (IsParameter text) :=
  List.decidableBAll (fun c => '0' ≤ c ∧ c ≤ '?') text.toList

theorem controlSequence?_parameter {parameter : List Char}
    (fits : ∀ c ∈ parameter, '0' ≤ c ∧ c ≤ '?') (rest : List Char) :
    controlSequence? ('\x1b' :: '[' :: (parameter ++ 'm' :: rest)) =
      some (parameter.length + 3, []) := by
  have all : ∀ c ∈ parameter, (decide ('0' ≤ c) && decide (c ≤ '?')) = true := by
    simpa using fits
  simp [controlSequence?, List.takeWhile_append_of_pos all, List.dropWhile_append_of_pos all]

theorem stripColors_sequence {parameter : String} (fits : IsParameter parameter) (rest : String) :
    stripColors (Role.sequence parameter ++ rest) = stripColors rest := by
  have spelled : (Role.sequence parameter ++ rest).toList =
      ('\x1b' :: '[' :: (parameter.toList ++ ['m'])) ++ rest.toList := by
    simp [Role.sequence]
  have begins : controlSequence? (('\x1b' :: '[' :: (parameter.toList ++ ['m'])) ++ rest.toList) =
      some (('\x1b' :: '[' :: (parameter.toList ++ ['m'])).length, []) := by
    simpa using controlSequence?_parameter fits rest.toList
  rw [stripColors, spelled, Text.replaceMatches_found (List.cons_ne_nil _ _) begins, stripColors]
  rfl

theorem isParameter_of_mem {role : Role} {parameter : String}
    (member : parameter ∈ role.parameters) : IsParameter parameter := by
  revert parameter
  cases role <;> decide

namespace Styled

theorem stripColors_sequences {parameters : List String}
    (fit : ∀ parameter ∈ parameters, IsParameter parameter) (rest : String) :
    stripColors (String.join (parameters.map Role.sequence) ++ rest) = stripColors rest := by
  induction parameters with
  | nil => rw [List.map_nil, String.join_nil, String.empty_append]
  | cons parameter further ih =>
      rw [List.forall_mem_cons] at fit
      rw [List.map_cons, String.join_cons, String.append_assoc, stripColors_sequence fit.1,
        ih fit.2]

theorem stripColors_renderSpan {span : Span} (free : Colorless span.text) (rest : String) :
    stripColors (renderSpan true span ++ rest) = span.text ++ stripColors rest := by
  obtain ⟨role, text⟩ := span
  cases role with
  | none => exact stripColors_append free rest
  | some role =>
      have closing : IsParameter "0" := by decide
      change stripColors (String.join (role.parameters.map Role.sequence) ++ text ++
        Role.sequence "0" ++ rest) = text ++ stripColors rest
      rw [String.append_assoc, String.append_assoc,
        stripColors_sequences fun _ => isParameter_of_mem, stripColors_append free,
        stripColors_sequence closing]

/-- Whether no display sequence begins in any of the runs of a styled text. -/
def Colorless (s : Styled) : Prop := ∀ span ∈ s, Stencil.Colorless span.text

theorem render_cons (color : Bool) (span : Span) (s : Styled) :
    render color (span :: s) = renderSpan color span ++ render color s := by
  rw [render, List.map_cons, String.join_cons, render]

theorem render_plain (color : Bool) (text : String) : (plain text).render color = text := by
  rw [plain, render_cons]
  cases color <;> simp [render, renderSpan]

theorem stripColors_render {s : Styled} (free : s.Colorless) :
    stripColors (s.render true) = s.render false := by
  induction s with
  | nil => rfl
  | cons span rest ih =>
      rw [Colorless, List.forall_mem_cons] at free
      rw [render_cons, stripColors_renderSpan free.1, ih free.2, render_cons]
      rfl

@[simp] theorem colorless_nil : Colorless [] := List.forall_mem_nil _

@[simp] theorem colorless_plain (text : String) :
    (plain text).Colorless ↔ Stencil.Colorless text := by
  simp [plain, Colorless]

@[simp] theorem colorless_styled (role : Role) (text : String) :
    (styled role text).Colorless ↔ Stencil.Colorless text := by
  simp [styled, Colorless]

@[simp] theorem colorless_append (s t : Styled) :
    (s ++ t).Colorless ↔ s.Colorless ∧ t.Colorless :=
  List.forall_mem_append

@[simp] theorem colorless_ofLines (lines : List Styled) :
    (ofLines lines).Colorless ↔ ∀ line ∈ lines, line.Colorless := by
  have separator : Stencil.Colorless "\n" := by decide
  unfold ofLines
  fun_induction joinWith "\n" lines with
  | case1 => simp
  | case2 s => simp
  | case3 s rest several ih => simp [ih, separator]

end Styled

/-! Finding a text in a styled one. -/

theorem Text.isSome_splitAt?_iff {needle cs : List Char} :
    (splitAt? needle cs).isSome = true ↔ needle <:+: cs := by
  constructor
  · intro found
    obtain ⟨⟨before, rest⟩, split⟩ := Option.isSome_iff_exists.mp found
    exact ⟨before, rest, (splitAt?_eq_some split).symm⟩
  · intro occurs
    induction cs with
    | nil =>
        rw [List.infix_nil.mp occurs]
        rfl
    | cons c cs ih =>
        rw [splitAt?]
        split
        · rfl
        · next other =>
            rcases List.infix_cons_iff.mp occurs with ⟨rest, begins⟩ | later
            · rw [← begins, dropBeginning?_append] at other
              cases other
            · rw [Option.isSome_map]
              exact ih later

/-- Whether no occurrence of a text reaches over the edge between two others, because a character
next to the edge is not in it. -/
def Apart (needle a b : List Char) : Prop :=
  (∀ x ∈ a.getLast?, x ∉ needle) ∨ ∀ x ∈ b.head?, x ∉ needle

theorem apart_of_getLast? {needle a : List Char} {x : Char} (last : a.getLast? = some x)
    (other : x ∉ needle) (b : List Char) : Apart needle a b :=
  .inl fun _ found => Option.some.inj (last.symm.trans found) ▸ other

theorem apart_of_head? {needle b : List Char} {x : Char} (first : b.head? = some x)
    (other : x ∉ needle) (a : List Char) : Apart needle a b :=
  .inr fun _ found => Option.some.inj (first.symm.trans found) ▸ other

theorem infix_append_of_apart {needle a b : List Char} (apart : Apart needle a b) :
    needle <:+: a ++ b ↔ needle <:+: a ∨ needle <:+: b := by
  rw [List.infix_append_iff]
  refine ⟨?_, Or.imp_right .inl⟩
  rintro (inside | inside | ⟨front, back, rfl, ⟨before, rfl⟩, ⟨after, rfl⟩⟩)
  · exact .inl inside
  · exact .inr inside
  · rcases apart with last | first
    · rcases List.eq_nil_or_concat front with rfl | ⟨front, x, rfl⟩
      · exact .inr (List.prefix_append _ _).isInfix
      · refine absurd ?_ (last x (by simp))
        simp
    · cases back with
      | nil => exact .inl (by simpa using (List.suffix_append before front).isInfix)
      | cons x back => exact absurd (by simp) (first x rfl)

/-- Whether a text can be found in a styled one by what a terminal is sent as well: it has none of
the characters at the edges of a display sequence, and one that is in none. -/
structure Findable (needle : List Char) : Prop where
  escape : '\x1b' ∉ needle
  final : 'm' ∉ needle
  letter : 'S' ∈ needle

theorem ErrorCode.findable (code : ErrorCode) : Findable code.text.toList := by
  cases code <;> exact ⟨by decide, by decide, by decide⟩

namespace Styled

variable {needle : List Char}

/-- Whether no occurrence of a text reaches over the edge of a run. -/
def Fenced (needle : List Char) : Styled → Prop
  | [] => True
  | span :: rest => Apart needle span.text.toList (text rest).toList ∧ Fenced needle rest

theorem fenced_plain (needle : List Char) (text : String) : (plain text).Fenced needle :=
  ⟨.inr nofun, trivial⟩

theorem opening_spelled (role : Role) : ∃ front,
    (String.join (role.parameters.map Role.sequence)).toList = '\x1b' :: front ++ ['m'] ∧
      'S' ∉ front := by
  cases role
  · exact ⟨"[91m\x1b[1".toList, rfl, by decide⟩
  · exact ⟨"[36".toList, rfl, by decide⟩
  · exact ⟨"[33".toList, rfl, by decide⟩
  · exact ⟨"[91".toList, rfl, by decide⟩
  · exact ⟨"[32".toList, rfl, by decide⟩
  · exact ⟨"[92m\x1b[1".toList, rfl, by decide⟩
  · exact ⟨"[2".toList, rfl, by decide⟩

theorem renderSpan_spelled (role : Role) (text : String) : ∃ front,
    (renderSpan true ⟨some role, text⟩).toList =
      '\x1b' :: front ++ ['m'] ++ text.toList ++ ['\x1b', '[', '0', 'm'] ∧ 'S' ∉ front := by
  obtain ⟨front, opening, plain⟩ := opening_spelled role
  refine ⟨front, ?_, plain⟩
  rw [← opening]
  simp [renderSpan, Role.sequence]

theorem infix_renderSpan (findable : Findable needle) (span : Span) :
    needle <:+: (renderSpan true span).toList ↔ needle <:+: span.text.toList := by
  obtain ⟨role, text⟩ := span
  cases role with
  | none => exact Iff.rfl
  | some role =>
      obtain ⟨front, spelled, plain⟩ := renderSpan_spelled role text
      have notOpening : ¬ needle <:+: '\x1b' :: front ++ ['m'] :=
        fun inside => absurd (inside.subset findable.letter) (by simp [plain])
      have notClosing : ¬ needle <:+: ['\x1b', '[', '0', 'm'] :=
        fun inside => absurd (inside.subset findable.letter) (by decide)
      rw [spelled, infix_append_of_apart (apart_of_head? rfl findable.escape _),
        infix_append_of_apart (apart_of_getLast? List.getLast?_concat findable.final _)]
      simp only [notOpening, notClosing, false_or, or_false]

theorem head?_render_true (s : Styled) :
    ∀ x ∈ (s.render true).toList.head?, x = '\x1b' ∨ x ∈ s.text.toList.head? := by
  induction s with
  | nil => exact nofun
  | cons span rest ih =>
      obtain ⟨role, text⟩ := span
      intro x first
      rw [render_cons, String.toList_append] at first
      cases role with
      | some role =>
          obtain ⟨front, spelled, -⟩ := renderSpan_spelled role text
          rw [spelled] at first
          exact .inl (Option.some.inj first).symm
      | none =>
          rw [Styled.text, render_cons, String.toList_append]
          change x ∈ (text.toList ++ (render true rest).toList).head? at first
          change _ ∨ x ∈ (text.toList ++ (Styled.text rest).toList).head?
          cases spelled : text.toList with
          | nil =>
              rw [spelled] at first
              exact ih x first
          | cons c cs =>
              rw [spelled] at first
              exact .inr first

theorem apart_rendered (findable : Findable needle) {span : Span} {rest : Styled}
    (apart : Apart needle span.text.toList rest.text.toList) :
    Apart needle (renderSpan true span).toList (rest.render true).toList := by
  rcases apart with last | first
  · obtain ⟨role, text⟩ := span
    cases role with
    | none => exact .inl last
    | some role =>
        obtain ⟨front, spelled, -⟩ := renderSpan_spelled role text
        refine apart_of_getLast? ?_ findable.final _
        rw [spelled, List.getLast?_append]
        rfl
  · refine .inr fun x begins => ?_
    rcases head?_render_true rest x begins with rfl | same
    · exact findable.escape
    · exact first x same

theorem infix_render {s : Styled} (findable : Findable needle) (fenced : s.Fenced needle) :
    needle <:+: (s.render true).toList ↔ needle <:+: s.text.toList := by
  induction s with
  | nil => exact Iff.rfl
  | cons span rest ih =>
      obtain ⟨apart, further⟩ := fenced
      have plain : (text (span :: rest)).toList = span.text.toList ++ (text rest).toList := by
        rw [text, render_cons, String.toList_append]
        rfl
      rw [render_cons, String.toList_append, infix_append_of_apart (apart_rendered findable apart),
        infix_renderSpan findable, ih further, plain, infix_append_of_apart apart]

end Styled

/-! Texts that are made of others. -/

@[simp] theorem colorless_append (a b : String) :
    Colorless (a ++ b) ↔ Colorless a ∧ Colorless b := by
  simp [Colorless, not_or]

@[simp] theorem colorless_ofList (cs : List Char) : Colorless (String.ofList cs) ↔ '\x1b' ∉ cs := by
  simp [Colorless]

theorem colorless_intercalate {separator : String} (free : Colorless separator)
    {texts : List String} (all : ∀ text ∈ texts, Colorless text) :
    Colorless (separator.intercalate texts) := by
  induction texts with
  | nil => exact List.not_mem_nil
  | cons text rest ih =>
      rw [List.forall_mem_cons] at all
      cases rest with
      | nil => simpa using all.1
      | cons next rest =>
          rw [String.intercalate_cons_cons, colorless_append, colorless_append]
          exact ⟨⟨all.1, free⟩, ih all.2⟩

theorem escape_notMem_digits (n : Nat) : '\x1b' ∉ Nat.toDigits 10 n := fun member =>
  absurd (Nat.isDigit_of_mem_toDigits (by decide) (by decide) member) (by decide)

theorem colorless_nat (n : Nat) : Colorless n.repr := by
  rw [Colorless, Nat.toList_repr]
  exact escape_notMem_digits n

@[simp] theorem colorless_int (n : Int) : Colorless n.repr := by
  cases n with
  | ofNat n => exact colorless_nat n
  | negSucc n => exact (colorless_append "-" _).mpr ⟨by decide, colorless_nat (n + 1)⟩

@[simp] theorem colorless_blanks (n : Int) : Colorless (blanks n) := by
  simp [blanks]

@[simp] theorem colorless_paddedNumber (n : Int) : Colorless (paddedNumber n) := by
  simp [paddedNumber]

theorem escape_notMem_paddedDigits (width n : Nat) : '\x1b' ∉ Decimal.paddedDigits width n := by
  simp [Decimal.paddedDigits, Decimal.digits, escape_notMem_digits]

theorem escape_notMem_positional (places n : Nat) : '\x1b' ∉ Decimal.positional places n := by
  have padded := escape_notMem_paddedDigits (places + 1) n
  unfold Decimal.positional
  split
  · exact escape_notMem_digits n
  · rw [List.mem_append, List.mem_cons, not_or, not_or]
    exact ⟨fun member => padded (List.mem_of_mem_take member), by decide,
      fun member => padded (List.mem_of_mem_drop member)⟩

@[simp] theorem colorless_megabytes (bytes : Int) : Colorless (Diagnostic.megabytes bytes) := by
  rw [Diagnostic.megabytes, colorless_ofList, Decimal.fixedPlaces]
  split
  · decide
  · split <;> decide
  · next negative mantissa exponent =>
      rw [List.mem_append, not_or]
      exact ⟨by split <;> decide, escape_notMem_positional 2 _⟩

theorem colorless_sourceLines {source : String} (free : Colorless source) :
    ∀ line ∈ sourceLines source, Colorless line := by
  rw [sourceLines, List.forall_mem_map]
  intro line listed
  rw [colorless_ofList]
  exact fun member => free (Text.of_mem_lines listed _ member).1

/-- Where each step keeps the choice or takes the next item, the last choice is one of the items. -/
theorem mem_of_foldl_choice {α : Type} {choose : Option α → α → Option α}
    (chooses : ∀ best next, choose best next = some next ∨ choose best next = best)
    {items : List α} {start : Option α} {a : α} (chosen : items.foldl choose start = some a) :
    a ∈ items ∨ start = some a := by
  induction items generalizing start with
  | nil => exact .inr chosen
  | cons next rest ih =>
      rcases ih chosen with later | here
      · exact .inl (.tail _ later)
      · rcases chooses start next with taken | kept
        · rw [taken] at here
          exact .inl (Option.some.inj here ▸ .head _)
        · exact .inr (kept.symm.trans here)

theorem closest?_mem {word candidate : String} {candidates : List String}
    (found : Text.closest? word candidates = some candidate) : candidate ∈ candidates := by
  obtain ⟨⟨chosen, score⟩, best, rfl⟩ := Option.map_eq_some_iff.mp found
  have listed := (mem_of_foldl_choice (fun best next => ?_) best).resolve_right nofun
  · obtain ⟨other, member, scored⟩ := List.mem_filterMap.mp listed
    dsimp only at scored
    split at scored
    · cases scored
      exact member
    · cases scored
  · cases best with
    | none => exact .inl rfl
    | some best =>
        dsimp only
        split
        · exact .inl rfl
        · exact .inr rfl

theorem colorless_firstGiven {candidates : List (Option String)} {default : String}
    (all : ∀ candidate ∈ candidates, ∀ text ∈ candidate, Colorless text)
    (free : Colorless default) : Colorless (firstGiven candidates default) := by
  unfold firstGiven
  cases given : (candidates.filterMap id).find? (· ≠ "") with
  | none => exact free
  | some text =>
      have listed := List.mem_of_find?_eq_some given
      obtain ⟨candidate, member, same⟩ := List.mem_filterMap.mp listed
      exact all candidate member text same

end Stencil
