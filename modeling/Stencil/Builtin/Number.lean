import Stencil.Builtin.Text
import Stencil.Decimal.Quantity
import Stencil.Decimal.Shortest

/-!
Filters on numbers. Rounding is decimal, on the digits that a number is written with; a half goes
away from zero.
-/

namespace Stencil.Filter

open Decimal

def magnitude (loopText : Nat → List Char) (v : Value) : Except Fault Value :=
  (v.toNumber loopText).absolute

def tooManyDigits : Fault :=
  .badValue ("Exceeds the limit (4300 digits) for integer string conversion; " ++
    "use sys.set_int_max_str_digits() to increase the limit")

/-- The decimal quantity that a number is written as. Whole numbers of very many digits are not
written. -/
def quantity (loopText : Nat → List Char) (v : Value) : Except Fault Quantity :=
  match v.toNumber loopText with
  | .int i => if i.natAbs < tenTo maxDigits then .ok (.ofInt i) else .error tooManyDigits
  | .float f => .ok (.ofText (floatText f))
  | _ => .ok (.ofInt 0)

/-- The value of a rounded quantity: a whole number if no places after the point were asked for. -/
def roundedValue (whole : Bool) : Quantity → Except Fault Value
  | .notANumber =>
      if whole then .error (.badValue "cannot convert NaN to integer") else .ok (.float notANumber)
  | .infinite negative => .ok (.float (if negative then -infinity else infinity))
  | .finite negative coefficient exponent =>
      if whole then
        let size : Int := if coefficient = 0 then 0 else coefficient * tenTo exponent.toNat
        .ok (.int (if negative then -size else size))
      else .ok (.float (floatOfDecimal negative coefficient exponent))

def mostPlaces : Int := 2000054

def roundedTo (loopText : Nat → List Char) (places : Int) (v : Value) : Except Fault Quantity :=
  if places < -mostPlaces ∨ mostPlaces < places then .error (.badPlaces "InvalidOperation")
  else if places < -999999 then .error (.badPlaces "Overflow")
  else (quantity loopText v).map (Quantity.toPlaces places)

def round (loopText : Nat → List Char) (v places : Value) : Except Fault Value := do
  let places ← places.toWhole
  roundedValue (places ≤ 0) (← roundedTo loopText places v)

def numberFormat (loopText : Nat → List Char) (v places point separator : Value) :
    Except Fault Value := do
  let places := (← places.toWhole).toNat
  let q ← roundedTo loopText places v
  match separator.text? with
  | none => .error (.wrongType
      ("replace() argument 2 must be str, not " ++ argumentType separator))
  | some separator =>
      .ok (plainText (q.groupedText (point.plain loopText) separator.toList places))

end Stencil.Filter
