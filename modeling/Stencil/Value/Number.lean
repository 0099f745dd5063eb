import Stencil.Decimal.Numeral
import Stencil.Html.Escape
import Stencil.Value.Equality
import Stencil.Value.Fault

/-!
Arithmetic on values. A missing operand makes the result missing. Strings and sequences can be
joined and repeated.
-/

namespace Stencil

namespace Decimal

/-- The remainder of a division of floating-point numbers, with the sign of the dividend. -/
def remainder (a b : Float) : Float :=
  match Binary.ofFloat a, Binary.ofFloat b with
  | .finite negative ma ea, .finite _ mb eb =>
      let e := min ea eb
      let na := ma * twoTo (ea - e).toNat
      let nb := mb * twoTo (eb - e).toNat
      let (n, d) := fraction (na % nb) e
      (nearestFloat? negative n d).getD notANumber
  | .finite _ _ _, .infinite _ => a
  | _, _ => notANumber

def flooredRemainder (a b : Float) : Float :=
  let r := remainder a b
  if r == 0 then (if b < 0 then -0.0 else 0.0)
  else if (b < 0) != (r < 0) then r + b else r

def quotient? (a b : Int) : Option Float :=
  nearestFloat? ((a < 0) != (b < 0)) a.natAbs b.natAbs

end Decimal

namespace Value

open Decimal

def Worth.toFloat? : Worth → Option Float
  | .int i => floatOfInt? i
  | .float f => some f

def tooLargeForFloat : Fault := .tooLarge "int too large to convert to float"

def bothFloats (a b : Worth) : Except Fault (Float × Float) :=
  match a.toFloat?, b.toFloat? with
  | some x, some y => .ok (x, y)
  | _, _ => .error tooLargeForFloat

/-- A list repeated a number of times; none for a negative number. -/
def repeated {α : Type} (items : List α) (n : Int) : List α :=
  (List.replicate n.toNat items).flatten

/-- A sequence repeated a number of times. Repeated markup is plain text. -/
def repeat? (n : Int) : Value → Option Value
  | str s | markup s => some (str (String.ofList (repeated s.toList n)))
  | list items => some (list (repeated items n))
  | tuple items => some (tuple (repeated items n))
  | bytes bs => some (bytes (repeated bs n))
  | _ => none

def isSequence (v : Value) : Bool := (v.repeat? 0).isSome

/-- A sequence repeated as often as a value says, which is to be a whole number of a signed word. -/
def repeatBy (sequence times : Value) : Except Fault Value :=
  match times.int? with
  | none => .error (.cannotRepeat times.typeName)
  | some n =>
      if n < -0x8000000000000000 ∨ 0x8000000000000000 ≤ n then
        .error (.tooLarge "cannot fit 'int' into an index-sized integer")
      else
        match sequence.repeat? n with
        | some v => .ok v
        | none => .error (.cannotRepeat times.typeName)

def unsupported (op : String) (a b : Value) : Except Fault Value :=
  .error (.unsupportedOperands op a.typeName b.typeName)

def addNumbers (a b : Worth) : Except Fault Value :=
  match a, b with
  | .int x, .int y => .ok (int (x + y))
  | a, b => (bothFloats a b).map fun (x, y) => float (x + y)

/-- The sum. Text that is joined to markup is escaped; markup that is joined to text is not. -/
def add (a b : Value) : Except Fault Value :=
  match a, b with
  | markup x, markup y => .ok (markup (x ++ y))
  | markup x, str y => .ok (markup (x ++ String.ofList (Html.escapeChars y.toList)))
  | markup _, b => .error (.cannotJoin "str" b.typeName)
  | undefined, _ | _, undefined => .ok undefined
  | str x, str y | str x, markup y => .ok (str (x ++ y))
  | str _, b => .error (.cannotJoin "str" b.typeName)
  | list x, list y => .ok (list (x ++ y))
  | list _, b => .error (.cannotJoin "list" b.typeName)
  | tuple x, tuple y => .ok (tuple (x ++ y))
  | tuple _, b => .error (.cannotJoin "tuple" b.typeName)
  | bytes x, bytes y => .ok (bytes (x ++ y))
  | bytes _, b => .error (.wrongType ("can't concat " ++ b.typeName ++ " to bytes"))
  | a, b =>
      match a.worth?, b.worth? with
      | some x, some y => addNumbers x y
      | _, _ => unsupported "+" a b

def subtract (a b : Value) : Except Fault Value :=
  match a, b with
  | undefined, _ | _, undefined => .ok undefined
  | a, b =>
      match a.worth?, b.worth? with
      | some (.int x), some (.int y) => .ok (int (x - y))
      | some x, some y => (bothFloats x y).map fun (x, y) => float (x - y)
      | _, _ => unsupported "-" a b

/-- The product; a sequence is repeated. -/
def multiply (a b : Value) : Except Fault Value :=
  match a, b with
  | undefined, _ | _, undefined => .ok undefined
  | a, b =>
      match a.worth?, b.worth? with
      | some (.int x), some (.int y) => .ok (int (x * y))
      | some x, some y => (bothFloats x y).map fun (x, y) => float (x * y)
      | _, _ =>
          if a.isSequence then a.repeatBy b
          else if b.isSequence then b.repeatBy a
          else unsupported "*" a b

def divideNumbers (a b : Worth) : Except Fault Value :=
  match a, b with
  | .int x, .int y =>
      if y = 0 then .error (.zeroDivision .whole)
      else
        match quotient? x y with
        | some q => .ok (float q)
        | none => .error (.tooLarge "integer division result too large for a float")
  | a, b => do
      let (x, y) ← bothFloats a b
      if y == 0 then .error (.zeroDivision .float) else .ok (float (x / y))

def divide (a b : Value) : Except Fault Value :=
  match a, b with
  | undefined, _ | _, undefined => .ok undefined
  | a, b =>
      match a.worth?, b.worth? with
      | some x, some y => divideNumbers x y
      | _, _ => unsupported "/" a b

def remainderOfNumbers (a b : Worth) : Except Fault Value :=
  match a, b with
  | .int x, .int y =>
      if y = 0 then .error (.zeroDivision .wholeRemainder) else .ok (int (x.fmod y))
  | a, b => do
      let (x, y) ← bothFloats a b
      if y == 0 then .error (.zeroDivision .floatRemainder)
      else .ok (float (flooredRemainder x y))

def negate : Value → Except Fault Value
  | undefined => .ok undefined
  | v =>
      match v.worth? with
      | some (.int i) => .ok (int (-i))
      | some (.float f) => .ok (float (-f))
      | none => .error (.badOperand "-" v.typeName)

def affirm : Value → Except Fault Value
  | undefined => .ok undefined
  | v =>
      match v.worth? with
      | some (.int i) => .ok (int i)
      | some (.float f) => .ok (float f)
      | none => .error (.badOperand "+" v.typeName)

def absolute : Value → Except Fault Value
  | undefined => .ok undefined
  | v =>
      match v.worth? with
      | some (.int i) => .ok (int i.natAbs)
      | some (.float f) => .ok (float f.abs)
      | none => .error (.wrongType ("bad operand type for abs(): '" ++ v.typeName ++ "'"))

def length (v : Value) : Except Fault Nat :=
  match v.size? with
  | some n => .ok n
  | none => .error (.noLength v.typeName)

def toWhole (v : Value) : Except Fault Int :=
  let read (text : String) : Except Fault Int :=
    match readInt text.toList with
    | .ok i => .ok i
    | .error .malformed => .error (.badNumeral (String.ofList (v.shown (fun _ => []))))
    | .error (.tooLong n) => .error (.longNumeral n)
  match v with
  | int i => .ok i
  | bool b => .ok (if b then 1 else 0)
  | float f =>
      match truncate? f with
      | some i => .ok i
      | none =>
          if f != f then .error (.badValue "cannot convert float NaN to integer")
          else .error (.tooLarge "cannot convert float infinity to integer")
  | str s | markup s => read s
  | bytes bs => read (String.ofList (bs.map fun b => Char.ofNat b.toNat))
  | v => .error (.noWholeNumber v.typeName)

/-- The number that a value is turned into for arithmetic filters: a text that writes none counts
as zero. -/
def toNumber (loopText : Nat → List Char) (v : Value) : Value :=
  match v with
  | bool b => int (if b then 1 else 0)
  | int i => int i
  | float f => float f
  | v =>
      let text := Text.strip (v.textOf loopText)
      match readInt text with
      | .ok i => int i
      | .error _ =>
          match readFloat? text with
          | some f => float f
          | none => int 0

end Value

end Stencil
