import Stencil.Text.Blank
import Stencil.Token.Basic

/-!
Source cut into pieces. Every piece keeps the characters it covers, so the pieces of a source
join to the source; some of them carry a token, the others are comments, blanks inside a tag and
the tags around verbatim text. Positions are read off the pieces afterwards.
-/

namespace Stencil

/-- A stretch of source and the token it stands for, if it stands for one. -/
structure Piece where
  chars : List Char
  token : Option (TokenKind × String)
  deriving DecidableEq, Repr

namespace Piece

def plain (kind : TokenKind) (chars : List Char) : Piece :=
  ⟨chars, some (kind, String.ofList chars)⟩

def skipped (chars : List Char) : Piece := ⟨chars, none⟩

end Piece

inductive ScanFault
  | unclosedTag (d : Delimiter)
  | unclosedComment
  | unclosedVerbatim (keyword : String)
  | unclosedString
  | strayCharacter (c : Char)
  deriving DecidableEq, Repr

namespace Scan

open Text

def opensTag : List Char → Bool
  | '{' :: c :: _ => c == '{' || c == '!' || c == '%' || c == '#'
  | _ => false

/-- The longest beginning in which no tag starts, and the rest. -/
def splitText : List Char → List Char × List Char
  | [] => ([], [])
  | c :: cs =>
      if opensTag (c :: cs) then ([], c :: cs)
      else (c :: (splitText cs).1, (splitText cs).2)

theorem splitText_append (cs : List Char) : (splitText cs).1 ++ (splitText cs).2 = cs := by
  induction cs with
  | nil => rfl
  | cons c cs ih =>
      by_cases h : opensTag (c :: cs) = true
      · simp [splitText, h]
      · simp [splitText, h, ih]

/-- The text after a statement tag that holds just `word`, which may have blanks around it. -/
def wordTag? (word cs : List Char) : Option (List Char) := do
  let afterOpener ← dropBeginning? ['{', '%'] cs
  let afterWord ← dropBeginning? word (afterOpener.dropWhile isBlank)
  dropBeginning? ['%', '}'] (afterWord.dropWhile isBlank)

def splitAtWordTag? (word : List Char) : List Char → Option (List Char × List Char)
  | [] => none
  | c :: cs =>
      match wordTag? word (c :: cs) with
      | some rest => some ([], rest)
      | none => (splitAtWordTag? word cs).map fun (before, rest) => (c :: before, rest)

def verbatimTag? (cs : List Char) : Option (List Char × List Char) :=
  match wordTag? "verbatim".toList cs with
  | some rest => some ("verbatim".toList, rest)
  | none => (wordTag? "raw".toList cs).map fun rest => ("raw".toList, rest)

def unescape : Char → List Char
  | 'n' => ['\n']
  | 't' => ['\t']
  | 'r' => ['\r']
  | '\\' => ['\\']
  | '\'' => ['\'']
  | '"' => ['"']
  | c => ['\\', c]

def quoted? (quote : Char) : List Char → Option (List Char × List Char)
  | [] => none
  | '\\' :: c :: cs => (quoted? quote cs).map fun (value, rest) => (unescape c ++ value, rest)
  | c :: cs =>
      if c = quote then some ([], cs)
      else (quoted? quote cs).map fun (value, rest) => (c :: value, rest)

def isDigit (c : Char) : Bool := '0' ≤ c && c ≤ '9'

def isNameStart (c : Char) : Bool :=
  ('A' ≤ c && c ≤ 'Z') || ('a' ≤ c && c ≤ 'z') || c == '_'

def isNamePart (c : Char) : Bool := isNameStart c || isDigit c

def number (cs : List Char) : TokenKind × List Char :=
  match cs.dropWhile isDigit with
  | '.' :: c :: rest =>
      if isDigit c then
        (.decimal, cs.takeWhile isDigit ++ '.' :: (c :: rest).takeWhile isDigit)
      else (.integer, cs.takeWhile isDigit)
  | _ => (.integer, cs.takeWhile isDigit)

inductive Mode
  | text
  | tag (d : Delimiter) (braces : Int)
  deriving DecidableEq, Repr

inductive Step
  | finished
  | refused (fault : ScanFault)
  | pieces (ps : List Piece) (mode : Mode) (rest : List Char)

def before (cs rest : List Char) : List Char := cs.take (cs.length - rest.length)

def upTo (cs rest : List Char) (token : Option (TokenKind × String)) : Piece :=
  ⟨before cs rest, token⟩

def tagStep (cs : List Char) : Step :=
  match cs with
  | '{' :: '#' :: inside =>
      match splitAt? ['#', '}'] inside with
      | none => .refused .unclosedComment
      | some (_, rest) => .pieces [.skipped (before cs rest)] .text rest
  | '{' :: '{' :: rest => .pieces [.plain (.opening .escaped) ['{', '{']] (.tag .escaped 0) rest
  | '{' :: '!' :: rest => .pieces [.plain (.opening .raw) ['{', '!']] (.tag .raw 0) rest
  | '{' :: '%' :: rest =>
      match verbatimTag? cs with
      | none => .pieces [.plain (.opening .statement) ['{', '%']] (.tag .statement 0) rest
      | some (word, inside) =>
          match splitAtWordTag? ("end".toList ++ word) inside with
          | none => .refused (.unclosedVerbatim (String.ofList word))
          | some (content, rest) =>
              let opener := Piece.skipped (before cs inside)
              let closer := Piece.skipped (before (inside.drop content.length) rest)
              if content = [] then .pieces [opener, closer] .text rest
              else .pieces [opener, .plain .data content, closer] .text rest
  | _ => .finished

def textStep (cs : List Char) : Step :=
  if cs = [] then .finished
  else if opensTag cs then tagStep cs
  else .pieces [.plain .data (splitText cs).1] .text (splitText cs).2

def bracesAfter (braces : Int) : Symbol → Int
  | .lbrace => braces + 1
  | .rbrace => braces - 1
  | _ => braces

def tokenStep (d : Delimiter) (braces : Int) (c : Char) (cs : List Char) : Step :=
  if c = '"' ∨ c = '\'' then
    match quoted? c cs with
    | none => .refused .unclosedString
    | some (value, rest) =>
        .pieces [upTo (c :: cs) rest (some (.string, String.ofList value))] (.tag d braces) rest
  else if isDigit c then
    let (kind, digits) := number (c :: cs)
    .pieces [.plain kind digits] (.tag d braces) ((c :: cs).drop digits.length)
  else if isNameStart c then
    .pieces [.plain .name ((c :: cs).takeWhile isNamePart)] (.tag d braces)
      ((c :: cs).dropWhile isNamePart)
  else
    match cs.head?.bind (Symbol.ofPair? c) with
    | some s => .pieces [.plain (.symbol s) s.text] (.tag d braces) (cs.drop 1)
    | none =>
        match Symbol.ofChar? c with
        | some s => .pieces [.plain (.symbol s) s.text] (.tag d (bracesAfter braces s)) cs
        | none => .refused (.strayCharacter c)

/-- Reads inside a tag. The closing delimiter counts only when no brace is open. -/
def insideStep (d : Delimiter) (braces : Int) (cs : List Char) : Step :=
  match cs with
  | [] => .refused (.unclosedTag d)
  | c :: rest =>
      if isBlank c then
        .pieces [.skipped (cs.takeWhile isBlank)] (.tag d braces) (cs.dropWhile isBlank)
      else
        match if braces = 0 then dropBeginning? d.closer cs else none with
        | some after => .pieces [.plain (.closing d) d.closer] .text after
        | none => tokenStep d braces c rest

def step : Mode → List Char → Step
  | .text, cs => textStep cs
  | .tag d braces, cs => insideStep d braces cs

/-! Every step that reads pieces leaves less text. -/

theorem length_dropWhile_le (p : Char → Bool) (cs : List Char) :
    (cs.dropWhile p).length ≤ cs.length := by
  induction cs with
  | nil => simp
  | cons c cs ih =>
      by_cases h : p c = true
      · simp only [List.dropWhile_cons, h, if_true, List.length_cons]
        omega
      · simp [h]

theorem length_dropBeginning? {p cs rest : List Char} (h : dropBeginning? p cs = some rest) :
    cs.length = p.length + rest.length := by
  simp [dropBeginning?_eq_some h]

theorem wordTag?_shorter {word cs rest : List Char} (h : wordTag? word cs = some rest) :
    rest.length < cs.length := by
  simp only [wordTag?, Option.bind_eq_bind, Option.bind_eq_some_iff] at h
  obtain ⟨a, ha, b, hb, hr⟩ := h
  have h1 := length_dropBeginning? ha
  have h2 := length_dropBeginning? hb
  have h3 := length_dropBeginning? hr
  have h4 := length_dropWhile_le isBlank a
  have h5 := length_dropWhile_le isBlank b
  simp only [List.length_cons, List.length_nil] at h1
  omega

theorem splitAtWordTag?_shorter {word cs content rest : List Char}
    (h : splitAtWordTag? word cs = some (content, rest)) : rest.length < cs.length := by
  induction cs generalizing content with
  | nil => simp [splitAtWordTag?] at h
  | cons c cs ih =>
      cases hw : wordTag? word (c :: cs) with
      | some r =>
          simp only [splitAtWordTag?, hw, Option.some.injEq, Prod.mk.injEq] at h
          exact h.2 ▸ wordTag?_shorter hw
      | none =>
          simp only [splitAtWordTag?, hw, Option.map_eq_some_iff, Prod.mk.injEq] at h
          obtain ⟨⟨b, r⟩, hb, _, rfl⟩ := h
          exact Nat.lt_succ_of_lt (ih hb)

theorem verbatimTag?_shorter {cs word rest : List Char}
    (h : verbatimTag? cs = some (word, rest)) : rest.length < cs.length := by
  unfold verbatimTag? at h
  cases hv : wordTag? "verbatim".toList cs with
  | some r =>
      simp only [hv, Option.some.injEq, Prod.mk.injEq] at h
      exact h.2 ▸ wordTag?_shorter hv
  | none =>
      simp only [hv, Option.map_eq_some_iff, Prod.mk.injEq] at h
      obtain ⟨r, hr, _, rfl⟩ := h
      exact wordTag?_shorter hr

theorem quoted?_shorter {quote : Char} {cs value rest : List Char}
    (h : quoted? quote cs = some (value, rest)) : rest.length < cs.length := by
  fun_induction quoted? quote cs generalizing value with
  | case1 => simp at h
  | case2 c cs ih =>
      simp only [Option.map_eq_some_iff, Prod.mk.injEq] at h
      obtain ⟨⟨v, r⟩, hv, _, rfl⟩ := h
      exact Nat.lt_succ_of_lt (Nat.lt_succ_of_lt (ih hv))
  | case3 cs _ =>
      simp only [Option.some.injEq, Prod.mk.injEq] at h
      simp [← h.2]
  | case4 c cs _ _ ih =>
      simp only [Option.map_eq_some_iff, Prod.mk.injEq] at h
      obtain ⟨⟨v, r⟩, hv, _, rfl⟩ := h
      exact Nat.lt_succ_of_lt (ih hv)

theorem splitText_shorter {cs : List Char} (hne : cs ≠ []) (h : opensTag cs = false) :
    (splitText cs).2.length < cs.length := by
  cases cs with
  | nil => exact absurd rfl hne
  | cons c cs =>
      have := congrArg List.length (splitText_append cs)
      simp only [List.length_append] at this
      simp only [splitText, h, Bool.false_eq_true, if_false, List.length_cons]
      omega

theorem number_nonempty {c : Char} (cs : List Char) (h : isDigit c = true) :
    0 < (number (c :: cs)).2.length := by
  unfold number
  split
  · split <;> simp [h]
  · simp [h]

theorem tagStep_shorter {cs : List Char} {ps mode rest} (h : tagStep cs = .pieces ps mode rest) :
    rest.length < cs.length := by
  unfold tagStep at h
  split at h
  · split at h
    · simp at h
    · next hs =>
        simp only [Step.pieces.injEq] at h
        obtain ⟨_, _, rfl⟩ := h
        have := congrArg List.length (splitAt?_eq_some hs)
        simp only [List.length_append, List.length_cons] at this ⊢
        omega
  · simp only [Step.pieces.injEq] at h
    simp only [← h.2.2, List.length_cons]
    omega
  · simp only [Step.pieces.injEq] at h
    simp only [← h.2.2, List.length_cons]
    omega
  · split at h
    · simp only [Step.pieces.injEq] at h
      simp only [← h.2.2, List.length_cons]
      omega
    · next hv =>
        split at h
        · simp at h
        · next hs =>
            have h1 := verbatimTag?_shorter hv
            have h2 := splitAtWordTag?_shorter hs
            split at h <;>
              (simp only [Step.pieces.injEq] at h; obtain ⟨_, _, rfl⟩ := h; omega)
  · simp at h

theorem textStep_shorter {cs : List Char} {ps mode rest} (h : textStep cs = .pieces ps mode rest) :
    rest.length < cs.length := by
  unfold textStep at h
  split at h
  · simp at h
  · split at h
    · exact tagStep_shorter h
    · next hne ho =>
        simp only [Step.pieces.injEq] at h
        rw [← h.2.2]
        exact splitText_shorter hne (by simpa using ho)

theorem tokenStep_shorter {d : Delimiter} {braces : Int} {c : Char} {cs : List Char}
    {ps mode rest} (h : tokenStep d braces c cs = .pieces ps mode rest) :
    rest.length < (c :: cs).length := by
  unfold tokenStep at h
  split at h
  · split at h
    · simp at h
    · next hq =>
        simp only [Step.pieces.injEq] at h
        obtain ⟨_, _, rfl⟩ := h
        have := quoted?_shorter hq
        simp only [List.length_cons]
        omega
  · split at h
    · next hd =>
        have hn := number_nonempty cs hd
        simp only [Step.pieces.injEq] at h
        obtain ⟨_, _, rfl⟩ := h
        simp only [List.length_drop, List.length_cons]
        omega
    · split at h
      · next hn =>
          simp only [Step.pieces.injEq] at h
          obtain ⟨_, _, rfl⟩ := h
          have := length_dropWhile_le isNamePart cs
          have hp : isNamePart c = true := by simp [isNamePart, hn]
          simp only [List.dropWhile_cons, hp, if_true, List.length_cons]
          omega
      · split at h
        · simp only [Step.pieces.injEq] at h
          obtain ⟨_, _, rfl⟩ := h
          simp only [List.length_drop, List.length_cons]
          omega
        · split at h
          · simp only [Step.pieces.injEq] at h
            simp [← h.2.2]
          · simp at h

theorem insideStep_shorter {d : Delimiter} {braces : Int} {cs : List Char} {ps mode rest}
    (h : insideStep d braces cs = .pieces ps mode rest) : rest.length < cs.length := by
  unfold insideStep at h
  split at h
  · simp at h
  · next c rest' =>
    split at h
    · next hb =>
        simp only [Step.pieces.injEq] at h
        obtain ⟨_, _, rfl⟩ := h
        have := length_dropWhile_le isBlank rest'
        simp only [List.dropWhile_cons, hb, if_true, List.length_cons]
        omega
    · split at h
      · next hc =>
          simp only [Step.pieces.injEq] at h
          obtain ⟨_, _, rfl⟩ := h
          split at hc
          · have := length_dropBeginning? hc
            cases d <;>
              simp only [Delimiter.closer, List.length_cons, List.length_nil] at this ⊢ <;> omega
          · simp at hc
      · exact tokenStep_shorter h

theorem step_shorter {mode : Mode} {cs : List Char} {ps mode' rest}
    (h : step mode cs = .pieces ps mode' rest) : rest.length < cs.length := by
  cases mode with
  | text => exact textStep_shorter h
  | tag d braces => exact insideStep_shorter h

def run (mode : Mode) (cs : List Char) : List Piece × Option ScanFault :=
  match h : step mode cs with
  | .finished => ([], none)
  | .refused fault => ([], some fault)
  | .pieces ps mode' rest =>
      have : rest.length < cs.length := step_shorter h
      (ps ++ (run mode' rest).1, (run mode' rest).2)
termination_by cs.length

/-- The tokens of consecutive pieces that begin at `p`, and the place where the pieces end. -/
def place (p : Pos) : List Piece → List Token × Pos
  | [] => ([], p)
  | piece :: more =>
      let (tokens, stop) := place (p.advance piece.chars) more
      match piece.token with
      | none => (tokens, stop)
      | some (kind, text) => (⟨kind, text, p⟩ :: tokens, stop)

end Scan

def TokenStream.ofSource? (source : List Char) : Except (ScanFault × Pos) TokenStream :=
  let (pieces, fault?) := Scan.run .text source
  let (tokens, stop) := Scan.place .start pieces
  match fault? with
  | none => .ok ⟨tokens, stop⟩
  | some fault => .error (fault, stop)

end Stencil
