import Stencil.Text.Quoted

/-!
Text in the form that query strings have: a blank is a plus, and a byte outside the safe
characters is a percent sign with two hexadecimal digits.
-/

namespace Stencil.Text

def isUnreserved (b : UInt8) : Bool :=
  let c := Char.ofNat b.toNat
  c.isAlphanum || c == '_' || c == '.' || c == '-' || c == '~'

def percentByte (b : UInt8) : List Char :=
  if isUnreserved b then [Char.ofNat b.toNat]
  else if b = 32 then ['+']
  else '%' :: (hex 2 b.toNat).map Char.toUpper

def percentEncode (s : String) : List Char := s.toUTF8.toList.flatMap percentByte

def hexValue? (c : Char) : Option Nat :=
  let n := c.toNat
  if 48 ≤ n ∧ n ≤ 57 then some (n - 48)
  else if 65 ≤ n ∧ n ≤ 70 then some (n - 55)
  else if 97 ≤ n ∧ n ≤ 102 then some (n - 87)
  else none

/-- The size of the UTF-8 sequence that a byte begins, its value bits and the range of the second
byte. -/
def utf8Lead? (b : Nat) : Option (Nat × Nat × Nat × Nat) :=
  if b < 0x80 then some (1, b, 0x80, 0xBF)
  else if 0xC2 ≤ b ∧ b ≤ 0xDF then some (2, b - 0xC0, 0x80, 0xBF)
  else if b = 0xE0 then some (3, 0, 0xA0, 0xBF)
  else if b = 0xED then some (3, 0xD, 0x80, 0x9F)
  else if 0xE1 ≤ b ∧ b ≤ 0xEF then some (3, b - 0xE0, 0x80, 0xBF)
  else if b = 0xF0 then some (4, 0, 0x90, 0xBF)
  else if 0xF1 ≤ b ∧ b ≤ 0xF3 then some (4, b - 0xF0, 0x80, 0xBF)
  else if b = 0xF4 then some (4, 4, 0x80, 0x8F)
  else none

/-- Adds the bytes that continue a sequence: how many there are, and the value if all are there. -/
def utf8Rest : (missing value low high : Nat) → List UInt8 → Nat × Option Nat
  | 0, value, _, _, _ => (0, some value)
  | _ + 1, _, _, _, [] => (0, none)
  | missing + 1, value, low, high, b :: rest =>
      if low ≤ b.toNat ∧ b.toNat ≤ high then
        let (count, found) := utf8Rest missing (value * 64 + b.toNat % 64) 0x80 0xBF rest
        (count + 1, found)
      else (0, none)

/-- The characters that bytes write. What is no character is replaced, each longest beginning of one
by itself; `skip` bytes still belong to the last character. -/
def utf8Decode : (skip : Nat) → List UInt8 → List Char
  | _, [] => []
  | skip + 1, _ :: rest => utf8Decode skip rest
  | 0, b :: rest =>
      match utf8Lead? b.toNat with
      | none => '\uFFFD' :: utf8Decode 0 rest
      | some (size, bits, low, high) =>
          match utf8Rest (size - 1) bits low high rest with
          | (count, some value) => Char.ofNat value :: utf8Decode count rest
          | (count, none) => '\uFFFD' :: utf8Decode count rest

def percentEscape? : List Char → Option UInt8
  | '%' :: a :: b :: _ =>
      match hexValue? a, hexValue? b with
      | some x, some y => some (UInt8.ofNat (x * 16 + y))
      | _, _ => none
  | _ => none

/-- The bytes of a run of escapes and ASCII characters, gathered in `bytes`, and the characters
between such runs; `skip` characters still belong to the last escape. -/
def percentDecodeFrom : (bytes : List UInt8) → (skip : Nat) → List Char → List Char
  | bytes, _, [] => utf8Decode 0 bytes.reverse
  | bytes, skip + 1, _ :: cs => percentDecodeFrom bytes skip cs
  | bytes, 0, c :: cs =>
      match percentEscape? (c :: cs) with
      | some b => percentDecodeFrom (b :: bytes) 2 cs
      | none =>
          if c.toNat < 128 then
            percentDecodeFrom (UInt8.ofNat (if c = '+' then 32 else c.toNat) :: bytes) 0 cs
          else utf8Decode 0 bytes.reverse ++ c :: percentDecodeFrom [] 0 cs

def percentDecode (cs : List Char) : List Char := percentDecodeFrom [] 0 cs

end Stencil.Text
