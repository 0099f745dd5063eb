import Stencil.Decimal.Binary

/-!
The shortest decimal that reads back as a given floating-point number, and its text; numbers rounded
to a number of significant digits.
-/

namespace Stencil.Decimal

/-- Digits with the exponent of the first one. -/
structure Scientific where
  digits : Nat
  exponent : Int
  deriving DecidableEq, Repr

def timesPower (n d : Nat) (k : Int) : Nat × Nat :=
  if 0 ≤ k then (n * tenTo k.toNat, d) else (n, d * tenTo (-k).toNat)

/-- Whether ten to the power `k` is at most `n / d`. -/
def reachesPower (n d : Nat) (k : Int) : Bool :=
  let (sn, sd) := timesPower n d (-k)
  sd ≤ sn

def leadingExponent (n d : Nat) : Int :=
  let guess : Int := (((n.log2 : Int) - d.log2) * 30103) / 100000
  if reachesPower n d (guess + 1) then guess + 1
  else if reachesPower n d guess then guess
  else guess - 1

/-- The neighbours of `m` halves apart: the bounds of the numbers that round to `m`, in quarters. -/
def quarterBounds (m : Nat) (e : Int) : Nat × Nat :=
  if m = leadingBit ∧ -1074 < e then (4 * m - 1, 4 * m + 2) else (4 * m - 2, 4 * m + 2)

/-- Whether `x` units of ten to the power `k` read back as `m` times two to the power `e`. -/
def readsBack (m : Nat) (e k : Int) (x : Nat) : Bool :=
  let (low, high) := quarterBounds m e
  let (n, d) := fraction 1 (e - 2)
  let (xn, xd) := timesPower x 1 k
  let left := xn * d
  let unit := n * xd
  if m % 2 = 0 then low * unit ≤ left && left ≤ high * unit
  else low * unit < left && left < high * unit

/-- The point with `count` digits that reads back, the nearer one if there are two. -/
def hit? (m : Nat) (e : Int) (n d : Nat) (lead : Int) (count : Nat) : Option Scientific :=
  let k := lead - (count : Int) + 1
  let (sn, sd) := timesPower n d (-k)
  let below := sn / sd
  let nearest := roundEven sn sd
  let other := if nearest = below then below + 1 else below
  if readsBack m e k nearest then some ⟨nearest, lead⟩
  else if readsBack m e k other then some ⟨other, lead⟩
  else none

def trimZeros (ds : List Char) : List Char :=
  (ds.reverse.dropWhile (· == '0')).reverse

/-- The fewest digits that read back as `m` times two to the power `e`, with the exponent of the
first. Seventeen always suffice. -/
def shortest (m : Nat) (e : Int) : List Char × Int :=
  let (n, d) := fraction m e
  let lead := leadingExponent n d
  match (List.range 17).findSome? fun i => (hit? m e n d lead (i + 1)).map fun s => (i + 1, s) with
  | none => (['0'], 0)
  | some (count, s) =>
      let ds := Decimal.digits s.digits
      -- a point that was rounded up to the next power of ten has one digit more
      let exponent := s.exponent + ((ds.length : Int) - count)
      match trimZeros ds with
      | [] => (['0'], 0)
      | kept => (kept, exponent)

/-- The text of digits whose first one has the given exponent: positional from the fourth place
after the point up to sixteen places before it, otherwise with an exponent of two digits or more. -/
def scientificText (ds : List Char) (exponent : Int) : List Char :=
  if exponent < -4 ∨ 16 ≤ exponent then
    let point := match ds with
      | [] => []
      | [d] => [d]
      | d :: rest => d :: '.' :: rest
    point ++ 'e' :: (if exponent < 0 then '-' else '+') :: paddedDigits 2 exponent.natAbs
  else if exponent < 0 then
    '0' :: '.' :: List.replicate (exponent.natAbs - 1) '0' ++ ds
  else
    let whole := exponent.toNat + 1
    if ds.length ≤ whole then ds ++ List.replicate (whole - ds.length) '0' ++ ['.', '0']
    else ds.take whole ++ '.' :: ds.drop whole

def floatText (f : Float) : List Char :=
  match Binary.ofFloat f with
  | .notANumber => "nan".toList
  | .infinite negative => (if negative then "-inf" else "inf").toList
  | .finite negative m e =>
      (if negative then ['-'] else []) ++
        if m = 0 then "0.0".toList
        else
          let (ds, exponent) := shortest m e
          scientificText ds exponent

/-- The first `count` significant digits of a positive fraction and the exponent of the first one;
a half goes to the even neighbour. -/
def significant (count n d : Nat) : List Char × Int :=
  let lead := leadingExponent n d
  let (sn, sd) := timesPower n d ((count : Int) - 1 - lead)
  let ds := digits (roundEven sn sd)
  -- rounding up to the next power of ten adds a digit
  (ds.take count, lead + ((ds.length : Int) - count))

def exponentForm (places n d : Nat) : List Char :=
  let (ds, exponent) :=
    if n = 0 then (List.replicate (places + 1) '0', 0) else significant (places + 1) n d
  let mantissa := match ds with
    | [] => []
    | first :: rest => if places = 0 then [first] else first :: '.' :: rest
  mantissa ++ 'e' :: (if exponent < 0 then '-' else '+') :: paddedDigits 2 exponent.natAbs

/-- Drops zeros at the end of a fraction, and its point if nothing is left of it. -/
def trimFraction (cs : List Char) : List Char :=
  if cs.contains '.' then
    match (cs.reverse.dropWhile (· == '0')) with
    | '.' :: rest => rest.reverse
    | rest => rest.reverse
  else cs

def generalForm (count : Nat) (keepZeros : Bool) (n d : Nat) : List Char :=
  let trim := fun cs => if keepZeros then cs else trimFraction cs
  if n = 0 then trim (positional (count - 1) 0)
  else
    let (_, exponent) := significant count n d
    if -4 ≤ exponent ∧ exponent < count then
      let places := ((count : Int) - 1 - exponent).toNat
      trim (positional places (roundEven (n * tenTo places) d))
    else
      let whole := exponentForm (count - 1) n d
      trim (whole.takeWhile (· ≠ 'e')) ++ whole.dropWhile (· ≠ 'e')

end Stencil.Decimal
