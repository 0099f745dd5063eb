import Stencil.Grammar.Expr
import Stencil.Proofs.Grammar.Printer

namespace Stencil

open Scan Lexeme

/-! Constants. -/

namespace Literal

theorem isNumeral_of_all {cs : List Char} (nonempty : cs ≠ [])
    (digits : ∀ c ∈ cs, Scan.isDigit c = true) : isNumeral cs = true := by
  cases cs with
  | nil => exact absurd rfl nonempty
  | cons c cs => exact List.all_eq_true.mpr digits

theorem isDigit_of_mem_toDigits {n : Nat} {c : Char} (mem : c ∈ Nat.toDigits 10 n) :
    Scan.isDigit c = true := by
  have digit := Nat.isDigit_of_mem_toDigits (by decide) (by decide) mem
  simpa [Scan.isDigit, Char.isDigit, Char.le_def] using digit

theorem isDigit_of_mem_padded {digits places : Nat} {c : Char} (mem : c ∈ padded digits places) :
    Scan.isDigit c = true := by
  rcases List.mem_append.mp mem with zero | shown
  · rw [List.eq_of_mem_replicate zero]
    decide
  · exact isDigit_of_mem_toDigits shown

theorem lt_length_padded (digits places : Nat) : places < (padded digits places).length := by
  simp only [padded, List.length_append, List.length_replicate]
  omega

theorem decimalChars_eq (digits places : Nat) : ∃ whole fraction,
    decimalChars digits places = whole ++ '.' :: fraction ∧
      whole ++ fraction = padded digits places ∧ whole ≠ [] ∧ fraction.length = places := by
  have longer := lt_length_padded digits places
  refine ⟨_, _, rfl, List.take_append_drop _ _, ?_, ?_⟩
  · intro empty
    have length := congrArg List.length empty
    simp only [List.length_take, List.length_nil] at length
    omega
  · simp only [List.length_drop]
    omega

theorem lexeme_writes {value : Literal} (literal : value.WellFormed) :
    value.lexeme.Writes value.lexeme.chars := by
  cases value with
  | null => exact .word (by decide)
  | bool b => cases b <;> exact .word (by decide)
  | nat n =>
      have numeral := isNumeral_of_all (Nat.toDigits_ne_nil (n := n) (b := 10)) fun _ mem =>
        isDigit_of_mem_toDigits mem
      simpa [lexeme, chars, Nat.repr_eq_ofList_toDigits] using Writes.integer numeral
  | decimal digits places =>
      obtain ⟨whole, fraction, text, shown, nonempty, length⟩ := decimalChars_eq digits places
      have digit : ∀ c ∈ whole ++ fraction, Scan.isDigit c = true := fun c mem =>
        isDigit_of_mem_padded (shown ▸ mem)
      have positive : 0 < places := literal
      have first := isNumeral_of_all nonempty fun c mem => digit c (List.mem_append_left _ mem)
      have second : isNumeral fraction = true :=
        isNumeral_of_all (List.ne_nil_of_length_pos (length ▸ positive))
          fun c mem => digit c (List.mem_append_right _ mem)
      simpa [lexeme, chars, text] using Writes.decimal first second
  | string s => exact .string (.inl rfl) s

@[simp] theorem natOfDigits_toString (n : Nat) : Grammar.natOfDigits (toString n) = n := by
  simp [Grammar.natOfDigits]

@[simp] theorem decimalOfText_decimalChars (digits places : Nat) :
    Grammar.decimalOfText (String.ofList (decimalChars digits places)) =
      .decimal digits places := by
  obtain ⟨whole, fraction, text, shown, _, length⟩ := decimalChars_eq digits places
  have point : ∀ c ∈ whole ++ fraction, c ≠ '.' := by
    intro c mem
    have digit := isDigit_of_mem_padded (shown ▸ mem)
    rintro rfl
    cases digit
  have value : Nat.ofDigitChars 10 (whole ++ fraction) 0 = digits := by
    simp [shown, padded, Nat.ofDigitChars_append]
  have kept : (whole ++ '.' :: fraction).filter (· ≠ '.') = whole ++ fraction := by
    have before := List.filter_eq_self.mpr fun c mem =>
      decide_eq_true (point c (List.mem_append_left _ mem))
    have behind := List.filter_eq_self.mpr fun c mem =>
      decide_eq_true (point c (List.mem_append_right _ mem))
    rw [List.filter_append, List.filter_cons_of_neg (by simp), before, behind]
  have after : (whole ++ '.' :: fraction).dropWhile (· ≠ '.') = '.' :: fraction := by
    have before : ∀ c ∈ whole, decide (c ≠ '.') = true := fun c mem =>
      decide_eq_true (point c (List.mem_append_left _ mem))
    rw [List.dropWhile_append_of_pos before, List.dropWhile_cons_of_neg (by simp)]
  rw [Grammar.decimalOfText, text, String.toList_ofList, kept, after, value, List.drop_succ_cons,
    List.drop_zero, length]

end Literal

/-! Lists of lexemes that a tag can hold. -/

/-- Each lexeme is written by its text, and the braces are balanced. -/
structure Lexeme.Printable (ls : List Lexeme) : Prop where
  written : ∀ l ∈ ls, l.Writes l.chars
  balanced : ∀ braces, ls.foldl bracesPast braces = braces

namespace Lexeme.Printable

theorem nil : Printable [] := ⟨nofun, fun _ => rfl⟩

theorem append {ls ls' : List Lexeme} (first : Printable ls) (second : Printable ls') :
    Printable (ls ++ ls') where
  written l mem := by
    rcases List.mem_append.mp mem with mem | mem
    · exact first.written l mem
    · exact second.written l mem
  balanced braces := by rw [List.foldl_append, first.balanced, second.balanced]

theorem cons {l : Lexeme} {ls : List Lexeme} (first : Printable [l]) (rest : Printable ls) :
    Printable (l :: ls) :=
  first.append rest

theorem flatten {parts : List (List Lexeme)} (each : ∀ ls ∈ parts, Printable ls) :
    Printable parts.flatten := by
  induction parts with
  | nil => exact nil
  | cons part rest ih =>
      rw [List.forall_mem_cons] at each
      exact each.1.append (ih each.2)

theorem separated {separator : Lexeme} (between : Printable [separator])
    {parts : List (List Lexeme)} (each : ∀ ls ∈ parts, Printable ls) :
    Printable (Lexeme.separated separator parts) := by
  cases parts with
  | nil => exact nil
  | cons part rest =>
      rw [List.forall_mem_cons] at each
      refine each.1.append ?_
      rw [List.flatMap_def]
      refine flatten fun ls mem => ?_
      obtain ⟨part', found, rfl⟩ := List.mem_map.mp mem
      exact between.cons (each.2 part' found)

theorem word {w : String} (word : isWord w.toList = true) : Printable [Lexeme.word w] where
  written l mem := by
    rw [List.mem_singleton.mp mem]
    simpa [Lexeme.word, chars] using Writes.word word
  balanced _ := rfl

theorem symbol {s : Symbol} (plain : s ≠ .lbrace ∧ s ≠ .rbrace) : Printable [Lexeme.symbol s] where
  written l mem := by
    rw [List.mem_singleton.mp mem]
    simpa [Lexeme.symbol, chars] using Writes.symbol s
  balanced braces := by
    obtain ⟨left, right⟩ := plain
    cases s <;> first | rfl | contradiction

theorem constant {value : Literal} (literal : value.WellFormed) : Printable [value.lexeme] where
  written l mem := by
    rw [List.mem_singleton.mp mem]
    exact Literal.lexeme_writes literal
  balanced _ := by
    cases value with
    | bool b => cases b <;> rfl
    | _ => rfl

theorem inBraces {ls : List Lexeme} (inner : Printable ls) :
    Printable (Lexeme.symbol .lbrace :: (ls ++ [Lexeme.symbol .rbrace])) where
  written l mem := by
    have brace : ∀ s, (Lexeme.symbol s).Writes (Lexeme.symbol s).chars := fun s => by
      simpa [Lexeme.symbol, chars] using Writes.symbol s
    simp only [List.mem_cons, List.mem_append, List.not_mem_nil, or_false] at mem
    rcases mem with rfl | mem | rfl
    · exact brace _
    · exact inner.written l mem
    · exact brace _
  balanced braces := by
    rw [List.foldl_cons, List.foldl_append, inner.balanced]
    simp [Lexeme.symbol, bracesPast, bracesAfter]

theorem parenthesized {ls : List Lexeme} (inner : Printable ls) :
    Printable (Lexeme.parenthesized ls) :=
  (symbol (by decide)).cons (inner.append (symbol (by decide)))

end Lexeme.Printable

namespace Expr

theorem enclosed_printable {outer inner : Level} {ls : List Lexeme} (printable : Printable ls) :
    Printable (enclosed outer inner ls) := by
  rw [enclosed]
  split
  · exact printable
  · exact printable.parenthesized

theorem keyed_printable {ls : List Lexeme} (printable : Printable ls) : Printable (keyed ls) := by
  rw [keyed.eq_def]
  split
  · exact printable.parenthesized
  · exact printable

theorem optionalArguments_printable {parts : List (List Lexeme)}
    (each : ∀ ls ∈ parts, Printable ls) : Printable (optionalArguments parts) := by
  cases parts with
  | nil => exact .nil
  | cons part rest => exact (Printable.separated (.symbol (by decide)) each).parenthesized

section Parts

variable {outer : Level}

theorem lexemesAt_printable {e : Expr} (printable : Printable e.lexemes) :
    Printable (e.lexemesAt outer) :=
  enclosed_printable printable

theorem parts_printable {es : List Expr} (each : ∀ e ∈ es, Printable e.lexemes) :
    ∀ ls ∈ parts outer es, Printable ls := by
  intro ls mem
  rw [parts_eq_map] at mem
  obtain ⟨e, found, rfl⟩ := List.mem_map.mp mem
  exact lexemesAt_printable (each e found)

theorem entryParts_printable {entries : List (Expr × Expr)}
    (keys : ∀ x ∈ entries, Printable x.1.lexemes)
    (values : ∀ x ∈ entries, Printable x.2.lexemes) :
    ∀ ls ∈ entryParts entries, Printable ls := by
  intro ls mem
  rw [entryParts_eq_map] at mem
  obtain ⟨x, found, rfl⟩ := List.mem_map.mp mem
  exact (keyed_printable (keys x found)).append
    ((Printable.symbol (by decide)).cons (values x found))

theorem namedParts_printable {named : List (String × Expr)}
    (words : ∀ x ∈ named, isWord x.1.toList = true)
    (values : ∀ x ∈ named, Printable x.2.lexemes) :
    ∀ ls ∈ namedParts named, Printable ls := by
  intro ls mem
  rw [namedParts_eq_map] at mem
  obtain ⟨x, found, rfl⟩ := List.mem_map.mp mem
  exact (Printable.word (words x found)).cons
    ((Printable.symbol (by decide)).cons (values x found))

theorem arguments_printable {args : List Expr} {named : List (String × Expr)}
    (positional : ∀ e ∈ args, Printable e.lexemes)
    (words : ∀ x ∈ named, isWord x.1.toList = true)
    (values : ∀ x ∈ named, Printable x.2.lexemes) :
    ∀ ls ∈ parts outer args ++ namedParts named, Printable ls := by
  intro ls mem
  rcases List.mem_append.mp mem with mem | mem
  · exact parts_printable positional ls mem
  · exact namedParts_printable words values ls mem

theorem compareOp_printable (op : CompareOp) : Printable op.lexemes := by
  cases op with
  | isIn => exact .word (by decide)
  | notIn => exact (Printable.word (by decide)).cons (.word (by decide))
  | startsWith => exact (Printable.word (by decide)).cons (.word (by decide))
  | endsWith => exact (Printable.word (by decide)).cons (.word (by decide))
  | _ => exact .symbol (by decide)

theorem linkParts_printable {links : List (CompareOp × Expr)}
    (each : ∀ x ∈ links, Printable x.2.lexemes) : ∀ ls ∈ linkParts links, Printable ls := by
  intro ls mem
  rw [linkParts_eq_map] at mem
  obtain ⟨x, found, rfl⟩ := List.mem_map.mp mem
  exact (compareOp_printable x.1).append (lexemesAt_printable (each x found))

end Parts

theorem WellFormed.printable {e : Expr} (wf : e.WellFormed) : Printable e.lexemes := by
  have comma : Printable [symbol .comma] := .symbol (by decide)
  induction wf with
  | const literal => exact .constant literal
  | name word _ => exact .word word
  | list _ each =>
      exact (Printable.symbol (by decide)).cons
        ((comma.separated (parts_printable each)).append (.symbol (by decide)))
  | dict _ _ keys values => exact (comma.separated (entryParts_printable keys values)).inBraces
  | attr _ word object =>
      exact (lexemesAt_printable object).append ((Printable.symbol (by decide)).cons (.word word))
  | item _ _ object key =>
      exact (lexemesAt_printable object).append
        ((Printable.symbol (by decide)).cons (key.append (.symbol (by decide))))
  | call _ _ words _ _ callee args values =>
      exact (lexemesAt_printable callee).append
        (comma.separated (arguments_printable args words values)).parenthesized
  | filter _ word _ words _ _ value args values =>
      exact (lexemesAt_printable value).append ((Printable.symbol (by decide)).cons
        ((Printable.word word).cons
          (optionalArguments_printable (arguments_printable args words values))))
  | @test _ _ _ _ negated _ word _ _ value args =>
      have negation : Printable (if negated then [Lexeme.word "not"] else []) := by
        cases negated
        · exact .nil
        · exact .word (by decide)
      exact (lexemesAt_printable value).append ((Printable.word (by decide)).cons
        (negation.append ((Printable.word word).cons
          (optionalArguments_printable (parts_printable args)))))
  | @arith _ op _ _ _ _ left right =>
      have sign : Printable [symbol op.symbol] := by cases op <;> exact .symbol (by decide)
      exact (lexemesAt_printable left).append (sign.cons (lexemesAt_printable right))
  | @sign _ op _ _ operand =>
      have sign : Printable [op.lexeme] := by
        cases op with
        | not => exact .word (by decide)
        | neg => exact .symbol (by decide)
        | pos => exact .symbol (by decide)
      exact sign.cons (lexemesAt_printable operand)
  | compare _ _ _ first links =>
      exact (lexemesAt_printable first).append (.flatten (linkParts_printable links))
  | @logic _ op _ _ _ each =>
      have separator : Printable [Lexeme.word op.text] := by cases op <;> exact .word (by decide)
      exact separator.separated (parts_printable each)
  | choice _ _ _ condition ifTrue ifFalse =>
      exact (lexemesAt_printable condition).append ((Printable.symbol (by decide)).cons
        (ifTrue.append ((Printable.symbol (by decide)).cons ifFalse)))
  | range _ _ first last =>
      exact (lexemesAt_printable first).append
        ((Printable.symbol (by decide)).cons (lexemesAt_printable last))
  | concat _ _ each => exact (Printable.symbol (by decide)).separated (parts_printable each)

end Expr

/-! Lexemes with single blanks between them. -/

namespace Lexeme

theorem blank_intercalate {ls : List Lexeme} (nonempty : ls ≠ []) :
    ' ' :: [' '].intercalate (ls.map chars) = ls.flatMap fun l => ' ' :: l.chars := by
  induction ls with
  | nil => exact absurd rfl nonempty
  | cons l rest ih =>
      cases rest with
      | nil => simp [List.intercalate]
      | cons next more =>
          rw [List.flatMap_cons, ← ih (by simp)]
          simp [List.intercalate]

theorem Printable.writesAll {ls : List Lexeme} (printable : Printable ls) :
    WritesAll ls (ls.flatMap fun l => ' ' :: l.chars) := by
  have written := printable.written
  clear printable
  induction ls with
  | nil => exact .nil
  | cons l rest ih =>
      rw [List.forall_mem_cons] at written
      refine @WritesAll.cons l rest [' '] l.chars _ Text.space_isBlank written.1 (ih written.2) ?_
      cases rest with
      | nil => exact nofun
      | cons next more => exact fun c mem => Text.space_isBlank c (by simpa using mem.symm)

end Lexeme

end Stencil
