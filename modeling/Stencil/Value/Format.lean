import Stencil.Decimal.Shortest
import Stencil.Text.Case
import Stencil.Value.Number
import Stencil.Value.Text

/-!
Text with conversions: a percent sign, a key in parentheses, flags, a width, a precision and a
letter stand for a value.
-/

namespace Stencil.Value

structure Conversion where
  left : Bool
  plus : Bool
  space : Bool
  alternate : Bool
  zero : Bool
  width : Nat
  precision : Option Nat

structure FormatArguments where
  pending : List Value
  mapping : Option Value

def FormatArguments.of : Value → FormatArguments
  | tuple items => ⟨items, none⟩
  | v =>
      let mapping := match v with
        | dict _ | list _ | bytes _ | object _ _ _ (some _) => some v
        | _ => none
      ⟨[v], mapping⟩

def notEnoughArguments : Fault := .wrongType "not enough arguments for format string"

def FormatArguments.next : FormatArguments → Except Fault (Value × FormatArguments)
  | ⟨v :: rest, mapping⟩ => .ok (v, ⟨rest, mapping⟩)
  | ⟨[], _⟩ => .error notEnoughArguments

def Conversion.pad (c : Conversion) (cs : List Char) : List Char :=
  let fill := List.replicate (c.width - cs.length) ' '
  if c.left then cs ++ fill else fill ++ cs

/-- A number with its sign; zeros are filled in behind the sign and the mark of the base. -/
def Conversion.number (c : Conversion) (negative : Bool) (mark body : List Char) : List Char :=
  let sign :=
    if negative then ['-'] else if c.plus then ['+'] else if c.space then [' '] else []
  let size := sign.length + mark.length + body.length
  let zeros := if c.zero && !c.left then List.replicate (c.width - size) '0' else []
  c.pad (sign ++ mark ++ zeros ++ body)

def Conversion.whole (c : Conversion) (base : Nat) (capital : Bool) (i : Int) : List Char :=
  let ds := Nat.toDigits base i.natAbs
  let ds := List.replicate (c.precision.getD 0 - ds.length) '0' ++ ds
  let mark := if !c.alternate then [] else
    match base with
    | 16 => ['0', 'x']
    | 8 => ['0', 'o']
    | _ => []
  let text := c.number (i < 0) mark ds
  if capital then text.map Char.toUpper else text

def withPoint (cs : List Char) : List Char :=
  let mantissa := cs.takeWhile (· ≠ 'e')
  if mantissa.contains '.' then cs else mantissa ++ '.' :: cs.drop mantissa.length

def Conversion.real (c : Conversion) (letter : Char) (f : Float) : List Char :=
  let places := c.precision.getD 6
  let text :=
    match Decimal.Binary.ofFloat f with
    | .notANumber => c.number false [] "nan".toList
    | .infinite negative => c.number negative [] "inf".toList
    | .finite negative m e =>
        let (n, d) := Decimal.fraction m e
        let body :=
          if letter.toLower = 'f' then Decimal.positional places
            (Decimal.roundEven (n * Decimal.tenTo places) d)
          else if letter.toLower = 'e' then Decimal.exponentForm places n d
          else Decimal.generalForm (max 1 places) c.alternate n d
        c.number negative [] (if c.alternate then withPoint body else body)
  if letter.isUpper then text.map Char.toUpper else text

def asciiOnly (cs : List Char) : List Char :=
  cs.flatMap fun c =>
    if c.toNat < 128 then [c]
    else if c.toNat < 0x100 then '\\' :: 'x' :: Text.hex 2 c.toNat
    else if c.toNat < 0x10000 then '\\' :: 'u' :: Text.hex 4 c.toNat
    else '\\' :: 'U' :: Text.hex 8 c.toNat

def wholeForConversion (letter : Char) (v : Value) : Except Fault Int :=
  let realOnly : Fault := .wrongType ("%" ++ letter.toString ++
    " format: a real number is required, not " ++ v.typeName)
  match v with
  | int i => .ok i
  | bool b => .ok (if b then 1 else 0)
  | float f =>
      if letter = 'd' ∨ letter = 'i' ∨ letter = 'u' then toWhole (float f)
      else .error (.wrongType ("%" ++ letter.toString ++
        " format: an integer is required, not float"))
  | _ =>
      if letter = 'd' ∨ letter = 'i' ∨ letter = 'u' then .error realOnly
      else .error (.wrongType ("%" ++ letter.toString ++
        " format: an integer is required, not " ++ v.typeName))

def Conversion.apply (loopText : Nat → List Char) (c : Conversion) (letter : Char) (index : Nat)
    (v : Value) : Except Fault (List Char) :=
  let cut (cs : List Char) : List Char := c.pad (match c.precision with
    | some n => cs.take n
    | none => cs)
  match letter with
  | 's' => .ok (cut (v.plain loopText))
  | 'r' => .ok (cut (v.shown loopText))
  | 'a' => .ok (cut (asciiOnly (v.shown loopText)))
  | 'd' | 'i' | 'u' => (wholeForConversion letter v).map (c.whole 10 false)
  | 'x' => (wholeForConversion letter v).map (c.whole 16 false)
  | 'X' => (wholeForConversion letter v).map (c.whole 16 true)
  | 'o' => (wholeForConversion letter v).map (c.whole 8 false)
  | 'c' =>
      match v with
      | int i =>
          if 0 ≤ i ∧ i < 0x110000 then .ok (c.pad [Char.ofNat i.toNat])
          else .error (.tooLarge "%c arg not in range(0x110000)")
      | bool b => .ok (c.pad [Char.ofNat (if b then 1 else 0)])
      | str s | markup s =>
          if s.length = 1 then .ok (c.pad s.toList)
          else .error (.wrongType "%c requires int or char")
      | _ => .error (.wrongType "%c requires int or char")
  | 'f' | 'F' | 'e' | 'E' | 'g' | 'G' =>
      match v.worth? with
      | some w =>
          match w.toFloat? with
          | some f => .ok (c.real letter f)
          | none => .error tooLargeForFloat
      | none => .error (.wrongType ("must be real number, not " ++ v.typeName))
  | _ =>
      let shown := if 31 ≤ letter.toNat ∧ letter.toNat ≤ 126 then letter.toString else "?"
      .error (.badValue ("unsupported format character '" ++ shown ++ "' (0x" ++
        String.ofList (Nat.toDigits 16 letter.toNat) ++ ") at index " ++ toString index))

def incomplete : Fault := .badValue "incomplete format"

def formatKey? : (depth : Nat) → List Char → Option (List Char × List Char)
  | _, [] => none
  | depth, c :: cs =>
      if c = ')' ∧ depth = 0 then some ([], cs)
      else
        let depth' := if c = '(' then depth + 1 else if c = ')' then depth - 1 else depth
        (formatKey? depth' cs).map fun (key, rest) => (c :: key, rest)

def flags : Conversion → List Char → Conversion × List Char
  | c, '-' :: rest => flags { c with left := true } rest
  | c, '+' :: rest => flags { c with plus := true } rest
  | c, ' ' :: rest => flags { c with space := true } rest
  | c, '#' :: rest => flags { c with alternate := true } rest
  | c, '0' :: rest => flags { c with zero := true } rest
  | c, rest => (c, rest)

structure NumberLimit where
  name : String
  bound : Nat

def widthLimit : NumberLimit := ⟨"width", 0x8000000000000000⟩

def precisionLimit : NumberLimit := ⟨"precision", 0x80000000⟩

def conversionNumber (limit : NumberLimit) (args : FormatArguments) (cs : List Char) :
    Except Fault (Option Int × FormatArguments × List Char) :=
  match cs with
  | '*' :: rest => do
      let (v, args) ← args.next
      match v.int? with
      | none => .error (.wrongType "* wants int")
      | some i =>
          if i < -(limit.bound : Int) ∨ limit.bound ≤ i then
            .error (.tooLarge (limit.name ++ " too big"))
          else .ok (some i, args, rest)
  | _ =>
      let ds := cs.takeWhile Char.isDigit
      let n := Nat.ofDigitChars 10 ds 0
      if limit.bound ≤ n then .error (.badValue (limit.name ++ " too big"))
      else .ok (if ds = [] then none else some n, args, cs.dropWhile Char.isDigit)

def formatEntry (loopText : Nat → List Char) (mapping : Option Value) (key : String) :
    Except Fault Value :=
  match mapping with
  | some (dict entries) | some (object _ _ _ (some entries)) =>
      match valueAt? (str key) entries with
      | some v => .ok v
      | none => .error (.missingKey (String.ofList ((str key).shown loopText)))
  | some (bytes _) => .error (.wrongType "byte indices must be integers or slices, not str")
  | some v => .error (.wrongType (v.typeName ++ " indices must be integers or slices, not str"))
  | none => .error (.wrongType "format requires a mapping")

/-- The conversion after a percent sign: its text, and what is left of the arguments and the
format. `size` is the length of the whole format. -/
def conversion (loopText : Nat → List Char) (size : Nat) (args : FormatArguments)
    (cs : List Char) : Except Fault (List Char × FormatArguments × List Char) := do
  let (args, cs) ← match cs with
    | '(' :: rest =>
        match args.mapping, formatKey? 0 rest with
        | none, _ => .error (.wrongType "format requires a mapping")
        | some _, none => .error (.badValue "incomplete format key")
        | some _, some (key, rest) => do
            let v ← formatEntry loopText args.mapping (String.ofList key)
            pure ({ args with pending := [v] }, rest)
    | _ => pure (args, cs)
  let (c, cs) := flags ⟨false, false, false, false, false, 0, none⟩ cs
  let (width, args, cs) ← conversionNumber widthLimit args cs
  let c := match width with
    | some w => { c with width := w.natAbs, left := c.left || w < 0 }
    | none => c
  let (c, args, cs) ← match cs with
    | '.' :: rest => do
        let (precision, args, rest) ← conversionNumber precisionLimit args rest
        pure ({ c with precision := some (precision.getD 0).toNat }, args, rest)
    | _ => pure (c, args, cs)
  let cs := match cs with
    | 'h' :: rest | 'l' :: rest | 'L' :: rest => rest
    | _ => cs
  match cs with
  | [] => .error incomplete
  | letter :: rest => do
      let (v, args) ← args.next
      let text ← c.apply loopText letter (size - rest.length - 1) v
      pure (text, args, rest)

/-- The text of a format, at most `rounds` characters or conversions long. -/
def formatFrom (loopText : Nat → List Char) (size : Nat) :
    (rounds : Nat) → FormatArguments → List Char → Except Fault (List Char × FormatArguments)
  | 0, args, _ => .ok ([], args)
  | _ + 1, args, [] => .ok ([], args)
  | rounds + 1, args, '%' :: '%' :: cs => do
      let (more, args) ← formatFrom loopText size rounds args cs
      pure ('%' :: more, args)
  | rounds + 1, args, '%' :: cs => do
      let (text, args, rest) ← conversion loopText size args cs
      let (more, args) ← formatFrom loopText size rounds args rest
      pure (text ++ more, args)
  | rounds + 1, args, c :: cs => do
      let (more, args) ← formatFrom loopText size rounds args cs
      pure (c :: more, args)

/-- A format with its conversions filled in. All arguments are to be used, unless they are taken
by key. -/
def format (loopText : Nat → List Char) (template : String) (v : Value) :
    Except Fault (List Char) := do
  let args := FormatArguments.of v
  let cs := template.toList
  let (text, args) ← formatFrom loopText cs.length cs.length args cs
  if args.pending.isEmpty || args.mapping.isSome then pure text
  else .error (.wrongType "not all arguments converted during string formatting")

/-- The remainder; of a text it is the text with its conversions filled in. Markup without any
percent sign stays as it is. -/
def modulo (loopText : Nat → List Char) (a b : Value) : Except Fault Value :=
  match a, b with
  | str s, b => (format loopText s b).map fun cs => str (String.ofList cs)
  | markup s, b => (format loopText s b).map fun cs =>
      if s.isEmpty || s.contains '%' then str (String.ofList cs) else markup s
  | undefined, _ | _, undefined => .ok undefined
  | a, b =>
      match a.worth?, b.worth? with
      | some x, some y => remainderOfNumbers x y
      | _, _ => unsupported "%" a b

end Stencil.Value
