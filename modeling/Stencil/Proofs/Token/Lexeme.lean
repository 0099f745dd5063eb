import Stencil.Token.Scan

namespace Stencil

abbrev Lexeme := TokenKind × String

def Token.lexeme (t : Token) : Lexeme := (t.kind, t.text)

namespace Lexeme

abbrev opening (d : Delimiter) : Lexeme := (.opening d, String.ofList d.opener)

abbrev closing (d : Delimiter) : Lexeme := (.closing d, String.ofList d.closer)

abbrev tag (d : Delimiter) (inside : List Lexeme) : List Lexeme :=
  opening d :: (inside ++ [closing d])

end Lexeme

namespace Scan

open Text

/-! What the class of a character says about its number. -/

theorem isDigit_iff (c : Char) : isDigit c = true ↔ 48 ≤ c.toNat ∧ c.toNat ≤ 57 := by
  simp [isDigit, Char.le_def, UInt32.le_iff_toNat_le]

theorem isNameStart_iff (c : Char) : isNameStart c = true ↔
    65 ≤ c.toNat ∧ c.toNat ≤ 90 ∨ 97 ≤ c.toNat ∧ c.toNat ≤ 122 ∨ c.toNat = 95 := by
  have underscore : c = '_' ↔ c.toNat = 95 := by
    rw [← Char.toNat_inj]
    rfl
  simp [isNameStart, Char.le_def, UInt32.le_iff_toNat_le, underscore, or_assoc]

theorem isDigit_of_isNameStart {c : Char} (start : isNameStart c = true) : isDigit c = false := by
  rw [isNameStart_iff] at start
  rw [← Bool.not_eq_true, isDigit_iff]
  omega

theorem isBlank_of_isNamePart {c : Char} (part : isNamePart c = true) : isBlank c = false := by
  simp only [isNamePart, Bool.or_eq_true, isNameStart_iff, isDigit_iff] at part
  simp only [isBlank, Bool.or_eq_false_iff, Bool.and_eq_false_iff, decide_eq_false_iff_not,
    beq_eq_false_iff_ne]
  omega

theorem ne_of_isNamePart {c d : Char} (part : isNamePart c = true) (other : isNamePart d = false) :
    c ≠ d := by
  rintro rfl
  rw [part] at other
  cases other

/-! Texts of lexemes. -/

def isWord : List Char → Bool
  | [] => false
  | c :: cs => isNameStart c && cs.all isNamePart

def isNumeral : List Char → Bool
  | [] => false
  | c :: cs => isDigit c && cs.all isDigit

/-- What stands between the quotes of a string: a backslash is put before quotes and backslashes. -/
def escaped (quote : Char) : List Char → List Char
  | [] => []
  | c :: cs =>
      if c = '\\' ∨ c = quote then '\\' :: c :: escaped quote cs else c :: escaped quote cs

end Scan

open Scan

/-- The texts that write a lexeme. A string may stand in quotes of either kind. -/
inductive Lexeme.Writes : Lexeme → List Char → Prop
  | word {cs : List Char} (word : isWord cs = true) : Writes (.name, String.ofList cs) cs
  | integer {cs : List Char} (numeral : isNumeral cs = true) :
      Writes (.integer, String.ofList cs) cs
  | decimal {whole fraction : List Char} (first : isNumeral whole = true)
      (second : isNumeral fraction = true) :
      Writes (.decimal, String.ofList (whole ++ '.' :: fraction)) (whole ++ '.' :: fraction)
  | symbol (s : Symbol) : Writes (.symbol s, String.ofList s.text) s.text
  | string {quote : Char} (either : quote = '"' ∨ quote = '\'') (value : String) :
      Writes (.string, value) (quote :: (escaped quote value.toList ++ [quote]))

namespace Scan

open Text

theorem dropBeginning?_closer (d : Delimiter) {c : Char} {cs : List Char}
    (other : c ≠ '}' ∧ c ≠ '!' ∧ c ≠ '%') : dropBeginning? d.closer (c :: cs) = none := by
  cases d <;> simp [Delimiter.closer, dropBeginning?, other.1.symm, other.2.1.symm, other.2.2.symm]

theorem step_tag {d : Delimiter} {braces : Int} {c : Char} {cs : List Char}
    (blank : isBlank c = false)
    (unclosed : braces = 0 → dropBeginning? d.closer (c :: cs) = none) :
    step (.tag d braces) (c :: cs) = tokenStep d braces c cs := by
  have unclosed : (if braces = 0 then dropBeginning? d.closer (c :: cs) else none) = none := by
    split
    · next outside => exact unclosed outside
    · rfl
  simp only [step, insideStep, blank, Bool.false_eq_true, if_false, unclosed]

/-- The characters that no lexeme goes on with: blanks, and those that a closing delimiter begins
with. -/
def isStop (c : Char) : Bool := isBlank c || c == '}' || c == '!' || c == '%'

theorem isStop_of_isBlank {c : Char} (blank : isBlank c = true) : isStop c = true := by
  simp [isStop, blank]

theorem isNamePart_of_isStop {c : Char} (stops : isStop c = true) : isNamePart c = false := by
  refine Bool.eq_false_iff.mpr fun part => ?_
  simp only [isStop, isBlank_of_isNamePart part, Bool.false_or, Bool.or_eq_true,
    beq_iff_eq] at stops
  rcases stops with (rfl | rfl) | rfl <;> exact absurd part (by decide)

theorem isDigit_of_isStop {c : Char} (stops : isStop c = true) : isDigit c = false := by
  have part := isNamePart_of_isStop stops
  rw [isNamePart, Bool.or_eq_false_iff] at part
  exact part.2

theorem ofPair?_of_isStop {stop : Char} (stops : isStop stop = true) (c : Char) :
    Symbol.ofPair? c stop = none := by
  unfold Symbol.ofPair?
  split <;> first | rfl | exact absurd stops (by decide)

theorem takeWhile_append_stop {α : Type} {p : α → Bool} {cs : List α} (stop : α) (rest : List α)
    (all : cs.all p = true) (stops : p stop = false) :
    (cs ++ stop :: rest).takeWhile p = cs ∧
      (cs ++ stop :: rest).dropWhile p = stop :: rest := by
  induction cs with
  | nil => simp [stops]
  | cons c cs ih =>
      simp only [List.all_cons, Bool.and_eq_true] at all
      simp [all.1, ih all.2]

theorem quoted?_escaped {quote : Char} (either : quote = '"' ∨ quote = '\'')
    (value rest : List Char) :
    quoted? quote (escaped quote value ++ quote :: rest) = some (value, rest) := by
  have slash : quote ≠ '\\' := by rcases either with rfl | rfl <;> decide
  induction value with
  | nil =>
      rw [escaped, List.nil_append, quoted?, if_pos rfl]
      exact fun _ _ same => absurd same slash
  | cons c cs ih =>
      rw [escaped]
      split
      · next special =>
          have same : unescape c = [c] := by
            rcases special with rfl | rfl
            · rfl
            · rcases either with rfl | rfl <;> rfl
          simp [quoted?, ih, same]
      · next ordinary =>
          rw [not_or] at ordinary
          rw [List.cons_append, quoted?, if_neg ordinary.2, ih]
          · rfl
          · exact fun _ _ same => absurd same ordinary.1

theorem isNumeral_iff {cs : List Char} : isNumeral cs = true ↔
    (∃ c more, cs = c :: more ∧ isDigit c = true) ∧ cs.all isDigit = true := by
  cases cs with
  | nil => simp [isNumeral]
  | cons c cs => simp +contextual [isNumeral]

/-! Before a character that no lexeme goes on with, a text that writes a lexeme is read whole. -/

section Token

variable {stop : Char}

theorem number_integer {cs : List Char} (numeral : isNumeral cs = true)
    (stops : isStop stop = true) (rest : List Char) :
    number (cs ++ stop :: rest) = (.integer, cs) := by
  obtain ⟨taken, left⟩ :=
    takeWhile_append_stop stop rest (isNumeral_iff.mp numeral).2 (isDigit_of_isStop stops)
  simp only [number, left, taken]
  split
  · next point =>
      obtain ⟨rfl, _⟩ := List.cons.inj point
      exact absurd stops (by decide)
  · rfl

theorem number_decimal {whole fraction : List Char} (first : isNumeral whole = true)
    (second : isNumeral fraction = true) (stops : isStop stop = true) (rest : List Char) :
    number ((whole ++ '.' :: fraction) ++ stop :: rest) =
      (.decimal, whole ++ '.' :: fraction) := by
  obtain ⟨⟨c, cs, rfl, digit⟩, all⟩ := isNumeral_iff.mp second
  obtain ⟨taken, left⟩ := takeWhile_append_stop '.' (c :: cs ++ stop :: rest)
    (isNumeral_iff.mp first).2 (by decide)
  obtain ⟨digits, _⟩ := takeWhile_append_stop stop rest all (isDigit_of_isStop stops)
  rw [List.append_assoc, List.cons_append]
  simp only [number, List.cons_append] at taken left digits ⊢
  simp only [left, taken, digit, if_true, digits]

variable (d : Delimiter) (braces : Int) (rest : List Char)

theorem tokenStep_word {c : Char} {cs : List Char} (word : isWord (c :: cs) = true)
    (ends : isNamePart stop = false) :
    tokenStep d braces c (cs ++ stop :: rest) =
      .pieces [.plain .name (c :: cs)] (.tag d braces) (stop :: rest) := by
  simp only [isWord, Bool.and_eq_true] at word
  have part : isNamePart c = true := by simp [isNamePart, word.1]
  have quote : ¬(c = '"' ∨ c = '\'') := by
    rintro (rfl | rfl) <;> exact absurd word.1 (by decide)
  obtain ⟨taken, left⟩ := takeWhile_append_stop stop rest word.2 ends
  simp [tokenStep, quote, isDigit_of_isNameStart word.1, word.1, part, taken, left]

theorem tokenStep_number {c : Char} {cs : List Char} {kind : TokenKind} (digit : isDigit c = true)
    (read : number (c :: cs ++ stop :: rest) = (kind, c :: cs)) :
    tokenStep d braces c (cs ++ stop :: rest) =
      .pieces [.plain kind (c :: cs)] (.tag d braces) (stop :: rest) := by
  have quote : ¬(c = '"' ∨ c = '\'') := by
    rintro (rfl | rfl) <;> exact absurd digit (by decide)
  rw [List.cons_append] at read
  simp [tokenStep, quote, digit, read]

theorem tokenStep_symbol {s : Symbol} {c : Char} {cs : List Char} (text : s.text = c :: cs)
    (stops : isStop stop = true) :
    tokenStep d braces c (cs ++ stop :: rest) =
      .pieces [.plain (.symbol s) s.text] (.tag d (bracesAfter braces s)) (stop :: rest) := by
  have single := ofPair?_of_isStop stops c
  cases s <;> cases text <;>
    first
    | rfl
    | rw [List.nil_append, tokenStep, if_neg (by decide), List.head?_cons, Option.bind_some, single]
      rfl

theorem before_append (cs rest : List Char) : before (cs ++ rest) rest = cs := by
  simp [before]

theorem tokenStep_string {quote : Char} (either : quote = '"' ∨ quote = '\'') (value : String) :
    tokenStep d braces quote ((escaped quote value.toList ++ [quote]) ++ rest) =
      .pieces [⟨quote :: (escaped quote value.toList ++ [quote]), some (.string, value)⟩]
        (.tag d braces) rest := by
  have covered : before (quote :: (escaped quote value.toList ++ quote :: rest)) rest =
      quote :: (escaped quote value.toList ++ [quote]) := by
    simpa using before_append (quote :: (escaped quote value.toList ++ [quote])) rest
  rw [List.append_assoc, List.singleton_append]
  simp [tokenStep, either, quoted?_escaped either, upTo, covered]

end Token

def bracesPast (braces : Int) (l : Lexeme) : Int :=
  match l.1 with
  | .symbol s => bracesAfter braces s
  | _ => braces

end Scan

namespace Lexeme

open Scan Text

section Writes

variable {l : Lexeme} {c stop : Char} {cs : List Char}

theorem Writes.first (written : l.Writes cs) : ∃ c more, cs = c :: more ∧ isBlank c = false ∧
    ((c ≠ '}' ∧ c ≠ '!' ∧ c ≠ '%') ∨ ∃ s, l.1 = .symbol s ∧ s.text = c :: more) := by
  have part : ∀ {c : Char}, isNamePart c = true →
      isBlank c = false ∧ c ≠ '}' ∧ c ≠ '!' ∧ c ≠ '%' := fun part =>
    ⟨isBlank_of_isNamePart part, ne_of_isNamePart part (by decide),
      ne_of_isNamePart part (by decide), ne_of_isNamePart part (by decide)⟩
  have digit : ∀ {c : Char}, isDigit c = true → isNamePart c = true := fun digit => by
    simp [isNamePart, digit]
  cases written with
  | word word =>
      cases cs with
      | nil => cases word
      | cons c cs =>
          simp only [isWord, Bool.and_eq_true] at word
          obtain ⟨solid, other⟩ := part (by simp [isNamePart, word.1] : isNamePart c = true)
          exact ⟨c, cs, rfl, solid, .inl other⟩
  | integer numeral =>
      obtain ⟨⟨c, cs, rfl, first⟩, _⟩ := isNumeral_iff.mp numeral
      obtain ⟨solid, other⟩ := part (digit first)
      exact ⟨c, cs, rfl, solid, .inl other⟩
  | decimal whole fraction =>
      obtain ⟨⟨c, cs, rfl, first⟩, _⟩ := isNumeral_iff.mp whole
      obtain ⟨solid, other⟩ := part (digit first)
      exact ⟨c, _, rfl, solid, .inl other⟩
  | symbol s => cases s <;> exact ⟨_, _, rfl, by decide, .inr ⟨_, rfl, rfl⟩⟩
  | @string quote either value =>
      refine ⟨quote, _, rfl, ?_, .inl ?_⟩ <;> rcases either with rfl | rfl <;> decide

/-- No closing delimiter stands where a lexeme does, except for a closing brace before another. -/
theorem Writes.unclosed (written : l.Writes cs) {d : Delimiter}
    (apart : stop = '}' → d = .escaped ∧ l.1 ≠ .symbol .rbrace) (rest : List Char) :
    dropBeginning? d.closer (cs ++ stop :: rest) = none := by
  obtain ⟨c, more, rfl, _, other | ⟨s, kind, text⟩⟩ := written.first
  · exact dropBeginning?_closer d other
  · rw [← text]
    by_cases brace : stop = '}'
    · obtain ⟨rfl, other⟩ := apart brace
      rw [kind] at other
      cases s <;> first | rfl | exact absurd rfl other
    · have other : '}' ≠ stop := fun same => brace same.symm
      cases d <;> cases s <;> simp [Delimiter.closer, Symbol.text, dropBeginning?, other]

theorem Writes.step (written : l.Writes cs) (stops : isStop stop = true) {d : Delimiter}
    {braces : Int} {rest : List Char}
    (unclosed : braces = 0 → dropBeginning? d.closer (cs ++ stop :: rest) = none) :
    Scan.step (.tag d braces) (cs ++ stop :: rest) =
      .pieces [⟨cs, some l⟩] (.tag d (bracesPast braces l)) (stop :: rest) := by
  obtain ⟨c, more, whole, solid, _⟩ := written.first
  have token : Scan.step (.tag d braces) (cs ++ stop :: rest) =
      tokenStep d braces c (more ++ stop :: rest) := by
    rw [whole, List.cons_append] at unclosed ⊢
    exact step_tag solid unclosed
  rw [token]
  cases written with
  | word word =>
      subst whole
      exact tokenStep_word d braces rest word (isNamePart_of_isStop stops)
  | integer numeral =>
      have read := number_integer numeral stops rest
      obtain ⟨⟨_, _, same, digit⟩, _⟩ := isNumeral_iff.mp numeral
      obtain ⟨rfl, rfl⟩ := List.cons.inj (whole.symm.trans same)
      subst whole
      exact tokenStep_number d braces rest digit read
  | decimal first second =>
      have read := number_decimal first second stops rest
      obtain ⟨⟨_, _, rfl, digit⟩, _⟩ := isNumeral_iff.mp first
      obtain ⟨rfl, rfl⟩ := List.cons.inj whole
      exact tokenStep_number d braces rest digit read
  | symbol s => exact tokenStep_symbol d braces rest whole stops
  | string either value =>
      cases whole
      exact tokenStep_string d braces (stop :: rest) either value

end Writes

end Lexeme

namespace Scan

open Text

/-! Runs that cut lexemes off. -/

/-- From one mode and text to another, exactly these lexemes are cut off. -/
def Cuts (mode : Mode) (cs : List Char) (ls : List Lexeme) (mode' : Mode) (rest : List Char) :
    Prop :=
  ∃ ps : List Piece, ps.filterMap Piece.token = ls ∧
    run mode cs = (ps ++ (run mode' rest).1, (run mode' rest).2)

namespace Cuts

theorem refl (mode : Mode) (cs : List Char) : Cuts mode cs [] mode cs := ⟨[], rfl, rfl⟩

theorem trans {m₁ m₂ m₃ : Mode} {cs₁ cs₂ cs₃ : List Char} {ls ls' : List Lexeme}
    (first : Cuts m₁ cs₁ ls m₂ cs₂) (second : Cuts m₂ cs₂ ls' m₃ cs₃) :
    Cuts m₁ cs₁ (ls ++ ls') m₃ cs₃ := by
  obtain ⟨ps, rfl, run₁⟩ := first
  obtain ⟨qs, rfl, run₂⟩ := second
  refine ⟨ps ++ qs, List.filterMap_append, ?_⟩
  rw [run₁, run₂, List.append_assoc]

theorem of_step {mode mode' : Mode} {cs rest : List Char} {ps : List Piece}
    (read : step mode cs = .pieces ps mode' rest) :
    Cuts mode cs (ps.filterMap Piece.token) mode' rest := by
  refine ⟨ps, rfl, ?_⟩
  rw [run]
  split
  · next finished => cases read.symm.trans finished
  · next refused => cases read.symm.trans refused
  · next equation =>
      cases read.symm.trans equation
      rfl

theorem blanks {d : Delimiter} {braces : Int} {blanks : List Char} {c : Char} (cs : List Char)
    (blank : ∀ b ∈ blanks, isBlank b = true) (solid : isBlank c = false) :
    Cuts (.tag d braces) (blanks ++ c :: cs) [] (.tag d braces) (c :: cs) := by
  cases blanks with
  | nil => exact .refl _ _
  | cons b blanks =>
      obtain ⟨first, others⟩ := List.forall_mem_cons.mp blank
      have read : step (.tag d braces) (b :: (blanks ++ c :: cs)) =
          .pieces [.skipped (b :: blanks)] (.tag d braces) (c :: cs) := by
        simp [step, insideStep, first, List.takeWhile_append_of_pos others,
          List.dropWhile_append_of_pos others, solid]
      exact of_step read

theorem opener {d : Delimiter} {cs : List Char}
    (tag : d = .statement → verbatimTag? (d.opener ++ cs) = none) :
    Cuts .text (d.opener ++ cs) [Lexeme.opening d] (.tag d 0) cs := by
  have read : step .text (d.opener ++ cs) =
      .pieces [.plain (.opening d) d.opener] (.tag d 0) cs := by
    cases d with
    | escaped => rfl
    | raw => rfl
    | statement =>
        have ordinary := tag rfl
        simp only [Delimiter.opener, List.cons_append, List.nil_append] at ordinary ⊢
        simp [step, textStep, opensTag, tagStep, ordinary]
  exact of_step read

theorem closer (d : Delimiter) {blanks : List Char} (blank : ∀ b ∈ blanks, isBlank b = true)
    (rest : List Char) :
    Cuts (.tag d 0) (blanks ++ (d.closer ++ rest)) [Lexeme.closing d] .text rest := by
  have read : step (.tag d 0) (d.closer ++ rest) =
      .pieces [.plain (.closing d) d.closer] .text rest := by
    cases d <;> rfl
  have solid : ∃ c cs, d.closer ++ rest = c :: cs ∧ isBlank c = false := by
    cases d <;> exact ⟨_, _, rfl, by decide⟩
  obtain ⟨c, cs, text, solid⟩ := solid
  rw [text] at read ⊢
  exact (Cuts.blanks cs blank solid).trans (of_step read)

end Cuts

end Scan

namespace Lexeme

open Scan Text

/-- Texts that write lexemes one after the other, with blanks between them and perhaps before the
first. -/
inductive WritesAll : List Lexeme → List Char → Prop
  | nil : WritesAll [] []
  | cons {l : Lexeme} {ls : List Lexeme} {blanks cs text : List Char}
      (blank : ∀ b ∈ blanks, isBlank b = true) (first : l.Writes cs) (more : WritesAll ls text)
      (apart : ∀ c ∈ text.head?, isBlank c = true) : WritesAll (l :: ls) (blanks ++ (cs ++ text))

theorem WritesAll.eq_nil {ls : List Lexeme} {text : List Char} (written : WritesAll ls text)
    (empty : text = []) : ls = [] := by
  cases written with
  | nil => rfl
  | cons _ first _ _ =>
      obtain ⟨c, more, rfl, _⟩ := first.first
      simp at empty

/-- The closing delimiter of a tag is not seen inside of it, although the last lexeme may stand
right before it. -/
theorem WritesAll.cuts {ls : List Lexeme} {text : List Char} (written : WritesAll ls text)
    {d : Delimiter} {braces : Int} {stop : Char} (stops : isStop stop = true)
    (balanced : stop = '}' → d = .escaped ∧ ls.foldl bracesPast braces = 0) (rest : List Char) :
    Cuts (.tag d braces) (text ++ stop :: rest) ls (.tag d (ls.foldl bracesPast braces))
      (stop :: rest) := by
  induction written generalizing braces with
  | nil => exact .refl _ _
  | @cons l ls blanks cs text blank first more apart ih =>
      have follows : ∃ next after, text ++ stop :: rest = next :: after ∧ isStop next = true ∧
          (next = '}' → d = .escaped ∧ bracesPast braces l = 0) := by
        cases text with
        | nil =>
            obtain rfl := more.eq_nil rfl
            exact ⟨stop, rest, rfl, stops, balanced⟩
        | cons c text =>
            have blank := apart c rfl
            refine ⟨c, text ++ stop :: rest, rfl, isStop_of_isBlank blank, ?_⟩
            rintro rfl
            exact absurd blank (by decide)
      obtain ⟨next, after, follows, nextStops, brace⟩ := follows
      have unclosed : braces = 0 → dropBeginning? d.closer (cs ++ next :: after) = none := by
        rintro rfl
        refine first.unclosed (fun same => ⟨(brace same).1, fun kind => ?_⟩) after
        have left := (brace same).2
        simp [bracesPast, kind, bracesAfter] at left
      have lexeme := Cuts.of_step (first.step nextStops unclosed)
      have others : Cuts (.tag d (bracesPast braces l)) _ _ _ _ := ih balanced
      obtain ⟨c, inside, rfl, solid, _⟩ := first.first
      have passed : Cuts (.tag d braces) _ _ _ _ := .blanks (inside ++ next :: after) blank solid
      rw [follows] at others
      simpa [follows] using (passed.trans lexeme).trans others

section Tag

variable {ls : List Lexeme} {text blanks : List Char} {d : Delimiter}

/-- A tag ends behind its lexemes. Its braces are to be balanced, so that its end is seen. -/
theorem WritesAll.cuts_behind (written : WritesAll ls text)
    (blank : ∀ b ∈ blanks, isBlank b = true) (balanced : ls.foldl bracesPast 0 = 0)
    (d : Delimiter) (rest : List Char) :
    Cuts (.tag d 0) (text ++ (blanks ++ (d.closer ++ rest))) (ls ++ [closing d]) .text rest := by
  have follows : ∃ stop after, blanks ++ (d.closer ++ rest) = stop :: after ∧
      isStop stop = true ∧ (stop = '}' → d = .escaped) := by
    cases blanks with
    | nil => cases d <;> exact ⟨_, _, rfl, by decide, by decide⟩
    | cons b blanks =>
        have blank := blank b List.mem_cons_self
        refine ⟨b, _, rfl, isStop_of_isBlank blank, ?_⟩
        rintro rfl
        exact absurd blank (by decide)
  obtain ⟨stop, after, follows, stops, brace⟩ := follows
  have inside := written.cuts stops (fun same => ⟨brace same, balanced⟩) after
  rw [balanced, ← follows] at inside
  exact inside.trans (.closer d blank rest)

theorem WritesAll.cuts_tag (written : WritesAll ls text) (blank : ∀ b ∈ blanks, isBlank b = true)
    (balanced : ls.foldl bracesPast 0 = 0) {rest : List Char}
    (tag : d = .statement →
      verbatimTag? (d.opener ++ (text ++ (blanks ++ (d.closer ++ rest)))) = none) :
    Cuts .text (d.opener ++ (text ++ (blanks ++ (d.closer ++ rest)))) (Lexeme.tag d ls) .text
      rest :=
  (Cuts.opener tag).trans (written.cuts_behind blank balanced d rest)

end Tag

end Lexeme

namespace Scan

theorem lexemes_place (p : Pos) (ps : List Piece) :
    (place p ps).1.map Token.lexeme = ps.filterMap Piece.token := by
  induction ps generalizing p with
  | nil => rfl
  | cons piece more ih =>
      cases equation : piece.token with
      | none => simp [place, equation, ih]
      | some found => simp [place, equation, ih, Token.lexeme]

end Scan

/-- A source that is cut off as a whole has the lexemes that are cut off as its tokens. -/
theorem TokenStream.ofSource?_of_cuts {source : List Char} {ls : List Lexeme}
    (cut : Cuts .text source ls .text []) :
    ∃ stream, ofSource? source = .ok stream ∧ stream.tokens.map Token.lexeme = ls := by
  obtain ⟨ps, rfl, run⟩ := cut
  have finished : Scan.run .text [] = ([], none) := by
    rw [Scan.run]
    rfl
  refine ⟨⟨(place .start ps).1, (place .start ps).2⟩, ?_, lexemes_place _ _⟩
  simp [ofSource?, run, finished]

end Stencil
