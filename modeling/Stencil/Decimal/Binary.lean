import Stencil.Decimal.Quantity

namespace Stencil.Decimal

/-- What a floating-point number is: when finite, a whole number times a power of two. -/
inductive Binary
  | notANumber
  | infinite (negative : Bool)
  | finite (negative : Bool) (mantissa : Nat) (exponent : Int)
  deriving DecidableEq, Repr

def signBit : Nat := 0x8000000000000000

/-- The leading bit of a mantissa, which is not stored: two to the power 52. -/
def leadingBit : Nat := 0x10000000000000

def Binary.ofFloat (f : Float) : Binary :=
  let bits : Nat := f.toBits.toNat
  let negative : Bool := bits ≥ signBit
  let exponent : Nat := bits / leadingBit % 2048
  let fraction : Nat := bits % leadingBit
  if exponent = 2047 then if fraction = 0 then .infinite negative else .notANumber
  else if exponent = 0 then .finite negative fraction (-1074)
  else .finite negative (fraction + leadingBit) ((exponent : Int) - 1075)

/-- The numerator and the denominator of `m` times a power of two. -/
def fraction (m : Nat) : Int → Nat × Nat
  | .ofNat e => (m * twoTo e, 1)
  | .negSucc e => (m, twoTo (e + 1))

/-- The floating-point number nearest to a positive fraction, ties to the even mantissa; none if
it is too large. -/
def nearestFloat? (negative : Bool) (n d : Nat) : Option Float :=
  let sign : Nat := if negative then signBit else 0
  if n = 0 then some (Float.ofBits (UInt64.ofNat sign))
  else
    let guess : Int := (n.log2 : Int) - d.log2 - 52
    -- the quotient by a power of two one too large has too few bits
    let scaled (e : Int) : Nat × Nat :=
      if 0 ≤ e then (n, d * twoTo e.toNat) else (n * twoTo (-e).toNat, d)
    let (gn, gd) := scaled guess
    let exponent := max (-1074) (if gn < gd * leadingBit then guess - 1 else guess)
    let (sn, sd) := scaled exponent
    let mantissa := roundEven sn sd
    let bits : Nat :=
      if mantissa < leadingBit then mantissa
      else (exponent + 1074).toNat * leadingBit + mantissa
    if bits ≥ 2047 * leadingBit then none else some (Float.ofBits (UInt64.ofNat (sign + bits)))

def floatOfInt? (i : Int) : Option Float := nearestFloat? (i < 0) i.natAbs 1

def infinity : Float := Float.ofBits 0x7FF0000000000000

def notANumber : Float := Float.ofBits 0x7FF8000000000000

def truncate? (f : Float) : Option Int :=
  match Binary.ofFloat f with
  | .finite negative m e =>
      let (n, d) := fraction m e
      some (if negative then -(n / d : Nat) else (n / d : Nat))
  | _ => none

def floor? (f : Float) : Option Int :=
  match Binary.ofFloat f with
  | .finite negative m e =>
      let (n, d) := fraction m e
      some (if negative then -(((n + d - 1) / d : Nat) : Int) else (n / d : Nat))
  | _ => none

def isWhole (f : Float) : Bool :=
  match Binary.ofFloat f with
  | .finite _ m e =>
      let (n, d) := fraction m e
      n % d == 0
  | _ => false

def compareIntFloat (i : Int) (f : Float) : Option Ordering :=
  match Binary.ofFloat f with
  | .notANumber => none
  | .infinite true => some .gt
  | .infinite false => some .lt
  | .finite negative m e =>
      let (n, d) := fraction m e
      let signed : Int := if negative then -n else n
      some (compare (i * d) signed)

/-- A floating-point number in positional notation with a fixed number of places. The exact binary
value is rounded, a half to the even neighbour. -/
def fixedPlaces (places : Nat) (f : Float) : List Char :=
  match Binary.ofFloat f with
  | .notANumber => "nan".toList
  | .infinite negative => (if negative then "-inf" else "inf").toList
  | .finite negative m e =>
      let (n, d) := fraction m e
      (if negative then ['-'] else []) ++ positional places (roundEven (n * tenTo places) d)

end Stencil.Decimal
