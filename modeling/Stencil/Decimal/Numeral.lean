import Stencil.Decimal.Binary
import Stencil.Text.Blank
import Stencil.Text.WordChar

/-!
Numbers read from text. Blanks around a number are ignored, digits may be of any script, and a
single underscore may stand between two digits.
-/

namespace Stencil.Decimal

open Text

/-- The value of a digit run in which single underscores may stand between digits, the number of
its digits, and the text after it. -/
def digitRun? (cs : List Char) : Option (Nat × Nat × List Char) :=
  match cs with
  | [] => none
  | c :: rest => (digitValue? c).map fun v => more v 1 rest
where
  more (value count : Nat) : List Char → Nat × Nat × List Char
    | '_' :: c :: rest =>
        match digitValue? c with
        | some v => more (10 * value + v) (count + 1) rest
        | none => (value, count, '_' :: c :: rest)
    | c :: rest =>
        match digitValue? c with
        | some v => more (10 * value + v) (count + 1) rest
        | none => (value, count, c :: rest)
    | [] => (value, count, [])

def signOf : List Char → Bool × List Char
  | '-' :: rest => (true, rest)
  | '+' :: rest => (false, rest)
  | cs => (false, cs)

/-- More digits than this are refused in whole numbers. -/
def maxDigits : Nat := 4300

inductive NumeralFault
  | malformed
  | tooLong (count : Nat)
  deriving DecidableEq, Repr

def readInt (cs : List Char) : Except NumeralFault Int :=
  let (negative, body) := signOf (strip cs)
  match digitRun? body with
  | some (value, count, []) =>
      if count > maxDigits then .error (.tooLong count)
      else .ok (if negative then -value else value)
  | _ => .error .malformed

/-- A floating-point number of the given digits and power of ten. Far beyond the range the answer
is infinite or zero. -/
def floatOfDecimal (negative : Bool) (value : Nat) (exponent : Int) : Float :=
  let tooLarge := if negative then -infinity else infinity
  let signedZero := if negative then -0.0 else 0.0
  if value = 0 then signedZero
  else
    let magnitude : Int := (Nat.log2 value : Int) * 3 / 10 + exponent
    if magnitude > 400 then tooLarge
    else if magnitude < -420 then signedZero
    else
      let near :=
        if 0 ≤ exponent then nearestFloat? negative (value * tenTo exponent.toNat) 1
        else nearestFloat? negative value (tenTo (-exponent).toNat)
      near.getD tooLarge

def exponentPart? : List Char → Option (Int × List Char)
  | c :: rest =>
      if c = 'e' ∨ c = 'E' then
        let (negative, body) := signOf rest
        (digitRun? body).map fun (value, _, after) =>
          ((if negative then -(value : Int) else value), after)
      else none
  | [] => none

/-- The floating-point number that digits, an optional fraction and an optional exponent write. -/
def readUnsigned? (negative : Bool) (cs : List Char) : Option Float :=
  let whole := digitRun? cs
  let afterWhole := match whole with
    | some (_, _, rest) => rest
    | none => cs
  let part : Option (Nat × Int × List Char) :=
    match afterWhole with
    | '.' :: rest =>
        match whole, digitRun? rest with
        | some (w, _, _), some (f, count, after) =>
            some (w * tenTo count + f, -(count : Int), after)
        | none, some (f, count, after) => some (f, -(count : Int), after)
        | some (w, _, _), none => some (w, 0, rest)
        | none, none => none
    | _ => whole.map fun (w, _, rest) => (w, 0, rest)
  part.bind fun (value, scale, rest) =>
    match rest with
    | [] => some (floatOfDecimal negative value scale)
    | _ =>
        match exponentPart? rest with
        | some (e, []) => some (floatOfDecimal negative value (scale + e))
        | _ => none

/-- The floating-point number that a text writes, infinities and not-a-number included. -/
def readFloat? (cs : List Char) : Option Float :=
  let (negative, body) := signOf (strip cs)
  let lowered := body.map Char.toLower
  if lowered = "inf".toList ∨ lowered = "infinity".toList then
    some (if negative then -infinity else infinity)
  else if lowered = "nan".toList then some notANumber
  else readUnsigned? negative body

end Stencil.Decimal
