/-!
Exact decimal quantities: a sign, a coefficient and a power of ten. Rounding to a decimal place is
refused when the result would need more digits than the working precision.
-/

namespace Stencil.Decimal

def tenTo (k : Nat) : Nat := Nat.pow 10 k

def twoTo (k : Nat) : Nat := Nat.pow 2 k

/-- The nearest whole number to `n / d`; a half goes to the even neighbour. -/
def roundEven (n d : Nat) : Nat :=
  let q := n / d
  let r := n % d
  if d < 2 * r ∨ (2 * r = d ∧ q % 2 = 1) then q + 1 else q

/-- The nearest whole number to `n / d`; a half goes up. -/
def roundUp (n d : Nat) : Nat :=
  let q := n / d
  if d ≤ 2 * (n % d) then q + 1 else q

def digits (n : Nat) : List Char := Nat.toDigits 10 n

def paddedDigits (width n : Nat) : List Char :=
  let ds := digits n
  List.replicate (width - ds.length) '0' ++ ds

def positional (places n : Nat) : List Char :=
  if places = 0 then digits n
  else
    let ds := paddedDigits (places + 1) n
    ds.take (ds.length - places) ++ '.' :: ds.drop (ds.length - places)

/-- A decimal quantity. Zero has a sign of its own. -/
inductive Quantity
  | notANumber
  | infinite (negative : Bool)
  | finite (negative : Bool) (coefficient : Nat) (exponent : Int)
  deriving DecidableEq, Repr

namespace Quantity

def precision : Nat := 28

def ofInt (i : Int) : Quantity := .finite (i < 0) i.natAbs 0

/-- The quantity that digits with an optional fraction and exponent write. Meant for texts of
numbers; anything else is not a number. -/
def ofText (cs : List Char) : Quantity :=
  let (negative, body) := match cs with
    | '-' :: rest => (true, rest)
    | _ => (false, cs)
  if body = "inf".toList then .infinite negative
  else if body = "nan".toList then .notANumber
  else
    let mantissa := body.takeWhile (· ≠ 'e')
    let scale : Int :=
      match body.dropWhile (· ≠ 'e') with
      | 'e' :: '-' :: ds => -(Nat.ofDigitChars 10 ds 0 : Int)
      | 'e' :: '+' :: ds => Nat.ofDigitChars 10 ds 0
      | _ => 0
    let whole := mantissa.takeWhile (· ≠ '.')
    let places := (mantissa.dropWhile (· ≠ '.')).drop 1
    .finite negative (Nat.ofDigitChars 10 (whole ++ places) 0) (scale - (places.length : Int))

/-- A coefficient moved to another power of ten; a half goes away from zero. -/
def rescale (coefficient : Nat) (shift : Int) : Nat :=
  if coefficient = 0 then 0
  else
    match shift with
    | .ofNat up => coefficient * tenTo up
    | .negSucc down => roundUp coefficient (tenTo (down + 1))

/-- The quantity rounded to `places` places after the point, or before it if negative. A quantity
that cannot be rounded counts as zero. -/
def toPlaces (places : Int) : Quantity → Quantity
  | .notANumber => .notANumber
  | .infinite _ => .finite false 0 (-places)
  | .finite negative coefficient exponent =>
      -- far too many digits are recognised before they are computed
      if coefficient ≠ 0 ∧ exponent + places > precision + 1 then .finite false 0 (-places)
      else
        let moved := rescale coefficient (exponent + places)
        if moved ≠ 0 ∧ (digits moved).length > precision then .finite false 0 (-places)
        else .finite negative moved (-places)

def separated (separator : List Char) : List Char → List Char
  | a :: b :: c :: rest => separator ++ a :: b :: c :: separated separator rest
  | rest => rest

def grouped (separator : List Char) (ds : List Char) : List Char :=
  let first := ds.length % 3
  if first = 0 then ds.take 3 ++ separated separator (ds.drop 3)
  else ds.take first ++ separated separator (ds.drop first)

def groupedText (point separator : List Char) (places : Nat) : Quantity → List Char
  | .notANumber => "NaN".toList
  | .infinite negative => (if negative then "-Infinity" else "Infinity").toList
  | .finite negative coefficient _ =>
      let ds := paddedDigits (places + 1) coefficient
      (if negative then ['-'] else []) ++ grouped separator (ds.take (ds.length - places)) ++
        if places = 0 then [] else point ++ ds.drop (ds.length - places)

end Quantity

end Stencil.Decimal
