import Stencil.Decimal.Numeral
import Stencil.Text.Blank
import Stencil.Text.Percent
import Stencil.Value.Equality

/-!
JSON read into values. Numbers without fraction and exponent are whole; the words for numbers that
are not finite are known; of several entries with one key the last one counts.
-/

namespace Stencil.Json

def isSpace (c : Char) : Bool := c == ' ' || c == '\t' || c == '\n' || c == '\r'

def skipSpace (cs : List Char) : List Char := cs.dropWhile isSpace

def hex4? : List Char → Option (Nat × List Char)
  | a :: b :: c :: d :: rest => do
      let a ← Text.hexValue? a
      let b ← Text.hexValue? b
      let c ← Text.hexValue? c
      let d ← Text.hexValue? d
      some (((a * 16 + b) * 16 + c) * 16 + d, rest)
  | _ => none

/-- The character of an escape after the backslash. Two halves of a character are put together. -/
def escaped? : List Char → Option (Char × List Char)
  | '"' :: rest => some ('"', rest)
  | '\\' :: rest => some ('\\', rest)
  | '/' :: rest => some ('/', rest)
  | 'b' :: rest => some ('\x08', rest)
  | 'f' :: rest => some ('\x0c', rest)
  | 'n' :: rest => some ('\n', rest)
  | 'r' :: rest => some ('\r', rest)
  | 't' :: rest => some ('\t', rest)
  | 'u' :: rest => do
      let (n, rest) ← hex4? rest
      if 0xD800 ≤ n ∧ n ≤ 0xDBFF then
        match rest with
        | '\\' :: 'u' :: low =>
            match hex4? low with
            | some (m, after) =>
                if 0xDC00 ≤ m ∧ m ≤ 0xDFFF then
                  some (Char.ofNat (0x10000 + (n - 0xD800) * 0x400 + (m - 0xDC00)), after)
                else some ('\uFFFD', rest)
            | none => some ('\uFFFD', rest)
        | _ => some ('\uFFFD', rest)
      else if 0xDC00 ≤ n ∧ n ≤ 0xDFFF then some ('\uFFFD', rest)
      else some (Char.ofNat n, rest)
  | _ => none

/-- The text of a string whose opening quote has been read; at most `rounds` characters. -/
def string? : (rounds : Nat) → List Char → Option (List Char × List Char)
  | 0, _ => none
  | _ + 1, [] => none
  | _ + 1, '"' :: rest => some ([], rest)
  | rounds + 1, '\\' :: rest => do
      let (c, rest) ← escaped? rest
      let (cs, rest) ← string? rounds rest
      some (c :: cs, rest)
  | rounds + 1, c :: rest =>
      if c.toNat < 32 then none
      else do
        let (cs, rest) ← string? rounds rest
        some (c :: cs, rest)

def isDigit (c : Char) : Bool := '0' ≤ c && c ≤ '9'

/-- The digits of a number and the text after them: a zero, or digits that begin with no zero. -/
def wholeDigits? (cs : List Char) : Option (List Char × List Char) :=
  match cs with
  | '0' :: rest => some (['0'], rest)
  | c :: _ =>
      if isDigit c then some (cs.takeWhile isDigit, cs.dropWhile isDigit) else none
  | [] => none

def fractionDigits (cs : List Char) : List Char × List Char :=
  match cs with
  | '.' :: d :: rest =>
      if isDigit d then ((d :: rest).takeWhile isDigit, (d :: rest).dropWhile isDigit)
      else ([], cs)
  | _ => ([], cs)

def exponent? (cs : List Char) : Option (Int × List Char) :=
  match cs with
  | e :: rest =>
      if e = 'e' ∨ e = 'E' then
        let (negative, body) := Decimal.signOf rest
        match body.takeWhile isDigit with
        | [] => none
        | ds =>
            let n : Int := Nat.ofDigitChars 10 ds 0
            some (if negative then -n else n, body.dropWhile isDigit)
      else none
  | [] => none

/-- A number: whole unless it has a fraction or an exponent. -/
def number? (cs : List Char) : Option (Value × List Char) := do
  let (negative, body) := match cs with
    | '-' :: rest => (true, rest)
    | _ => (false, cs)
  let (whole, rest) ← wholeDigits? body
  let (fraction, rest) := fractionDigits rest
  let written := exponent? rest
  let after := match written with
    | some (_, after) => after
    | none => rest
  if fraction = [] ∧ written.isNone then
    let n : Int := Nat.ofDigitChars 10 whole 0
    if whole.length > Decimal.maxDigits then none
    else some (.int (if negative then -n else n), after)
  else
    let scale := match written with
      | some (e, _) => e
      | none => 0
    some (.float (Decimal.floatOfDecimal negative (Nat.ofDigitChars 10 (whole ++ fraction) 0)
      (scale - fraction.length)), after)

def words : List (List Char × Value) :=
  [("null".toList, .null), ("true".toList, .bool true), ("false".toList, .bool false),
   ("NaN".toList, .float Decimal.notANumber), ("Infinity".toList, .float Decimal.infinity),
   ("-Infinity".toList, .float (-Decimal.infinity))]

def word? (cs : List Char) : Option (Value × List Char) :=
  words.findSome? fun (word, v) => (Text.dropBeginning? word cs).map fun rest => (v, rest)

inductive Goal
  | value
  | items (sofar : List Value)
  | entries (sofar : List (Value × Value))

def readWithin : (rounds : Nat) → Goal → List Char → Option (Value × List Char)
  | 0, _, _ => none
  | rounds + 1, .value, cs =>
      match cs with
      | '"' :: rest =>
          (string? (rest.length + 1) rest).map fun (s, after) => (.str (String.ofList s), after)
      | '[' :: rest =>
          match skipSpace rest with
          | ']' :: after => some (.list [], after)
          | rest => readWithin rounds (.items []) rest
      | '\x7b' :: rest =>
          match skipSpace rest with
          | '\x7d' :: after => some (.dict [], after)
          | rest => readWithin rounds (.entries []) rest
      | _ => (word? cs).or (number? cs)
  | rounds + 1, .items sofar, cs => do
      let (v, rest) ← readWithin rounds .value cs
      match skipSpace rest with
      | ']' :: after => some (.list (v :: sofar).reverse, after)
      | ',' :: more => readWithin rounds (.items (v :: sofar)) (skipSpace more)
      | _ => none
  | rounds + 1, .entries sofar, cs =>
      match cs with
      | '"' :: rest => do
          let (key, rest) ← string? (rest.length + 1) rest
          match skipSpace rest with
          | ':' :: more => do
              let (v, rest) ← readWithin rounds .value (skipSpace more)
              let sofar := Value.setEntry (.str (String.ofList key)) v sofar
              match skipSpace rest with
              | '\x7d' :: after => some (.dict sofar, after)
              | ',' :: more => readWithin rounds (.entries sofar) (skipSpace more)
              | _ => none
          | _ => none
      | _ => none

def read? (cs : List Char) : Option Value := do
  let (v, rest) ← readWithin (2 * cs.length + 2) .value (skipSpace cs)
  if skipSpace rest = [] then some v else none

end Stencil.Json
