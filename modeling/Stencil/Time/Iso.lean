import Stencil.Decimal.Quantity
import Stencil.Time.Calendar

/-!
Dates and times in the international notation, in its extended and basic forms: a calendar date or
a date by weeks, any one character, and a time with an optional offset. The notation is read byte by
byte.
-/

namespace Stencil.Iso

def digit? (c : Char) : Option Nat :=
  if '0' ≤ c ∧ c ≤ '9' then some (c.toNat - 48) else none

def digits? : (count : Nat) → (value : Nat) → List Char → Option (Nat × List Char)
  | 0, value, cs => some (value, cs)
  | _ + 1, _, [] => none
  | count + 1, value, c :: cs => (digit? c).bind fun d => digits? count (10 * value + d) cs

def separatorAt (cs : List Char) : Option Nat :=
  let size := cs.length
  let isAt (i : Nat) (c : Char) : Bool := cs[i]? == some c
  let digitAt (i : Nat) : Bool := (cs[i]?.bind digit?).isSome
  if size = 7 then some 7
  else if isAt 4 '-' then
    if isAt 5 'W' then
      if size < 8 then none
      else if size > 8 ∧ isAt 8 '-' then
        if size = 9 then none
        else if size > 10 ∧ digitAt 10 then some 8
        else some 10
      else some 8
    else some 10
  else if isAt 4 'W' then
    let stop := 7 + ((cs.drop 7).takeWhile fun c => (digit? c).isSome).length
    if stop < 9 then some stop
    else if stop % 2 = 0 then some 7
    else some 8
  else some 8

def date? (cs : List Char) : Option Date := do
  let (year, rest) ← digits? 4 0 cs
  let separated := rest.head? == some '-'
  let rest := if separated then rest.tail else rest
  match rest with
  | 'W' :: rest => do
      let (week, rest) ← digits? 2 0 rest
      if rest = [] then Date.ofIsoWeek? year week 1
      else
        let rest ← if separated then
            match rest with
            | '-' :: more => some more
            | _ => none
          else some rest
        let (day, _) ← digits? 1 0 rest
        Date.ofIsoWeek? year week day
  | _ => do
      let (month, rest) ← digits? 2 0 rest
      let rest ← if separated then
          match rest with
          | '-' :: more => some more
          | _ => none
        else some rest
      let (day, rest) ← digits? 2 0 rest
      let d : Date := ⟨year, month, day⟩
      if rest = [] ∧ d.isValid then some d else none

structure Clock where
  hour : Nat
  minute : Nat
  second : Nat
  micros : Nat
  overrun : Bool

def fraction? (cs : List Char) : Option (Nat × List Char) := do
  let count := min 6 cs.length
  let (value, rest) ← digits? count 0 cs
  some (value * Decimal.tenTo (6 - count), rest.dropWhile fun c => (digit? c).isSome)

/-- Reads hours, minutes, seconds and a fraction off `cs`. `next` is the character behind the text,
if there is one; `parts` holds what has been read, the last part first. -/
def clockFrom (next : Option Char) (separated : Bool) :
    (missing : Nat) → (parts : List Nat) → List Char → Option Clock
  | 0, parts, cs => do
      let (micros, rest) ← fraction? cs
      finish parts micros (rest ≠ [] || next.isSome)
  | missing + 1, parts, cs => do
      let (value, rest) ← digits? 2 0 cs
      let parts := value :: parts
      match rest with
      | [] => finish parts 0 next.isSome
      | [_] => finish parts 0 true
      | c :: more =>
          let separated := if missing = 2 then c == ':' else separated
          if separated && c == ':' then clockFrom next separated missing parts more
          else if c = '.' ∨ c = ',' then do
            let (micros, rest) ← fraction? more
            finish parts micros (rest ≠ [] || next.isSome)
          else if !separated then clockFrom next separated missing parts rest
          else none
where
  finish (parts : List Nat) (micros : Nat) (overrun : Bool) : Option Clock :=
    match parts.reverse with
    | [h] => some ⟨h, 0, 0, micros, overrun⟩
    | [h, m] => some ⟨h, m, 0, micros, overrun⟩
    | [h, m, s] => some ⟨h, m, s, micros, overrun⟩
    | _ => none

def time? (cs : List Char) : Option (Clock × Option Int) := do
  let isZone (c : Char) : Bool := c == '+' || c == '-' || c == 'Z'
  let here := cs.takeWhile fun c => !isZone c
  let zone := cs.dropWhile fun c => !isZone c
  let clock ← clockFrom zone.head? true 3 [] here
  match zone with
  | [] => if clock.overrun then none else some (clock, none)
  | ['Z'] => some (clock, some 0)
  | 'Z' :: _ => none
  | sign :: rest => do
      let offset ← clockFrom none true 3 [] rest
      if offset.overrun then none
      else
        let seconds := (offset.hour * 60 + offset.minute) * 60 + offset.second
        -- A fraction counts only after an offset that is not zero.
        let size : Int := if seconds = 0 then 0 else (seconds * 1000000 + offset.micros : Nat)
        if size < 86400000000 then some (clock, some (if sign = '-' then -size else size))
        else none

def charSize (byte : Nat) : Nat :=
  if byte < 0x80 then 1
  else if byte / 16 = 0xE then 3
  else if byte / 16 = 0xF then 4
  else 2

def moment? (text : String) : Option Moment := do
  let cs := text.toUTF8.toList.map fun b => Char.ofNat b.toNat
  if cs.length < 7 then none
  else
    let stop ← separatorAt cs
    let date ← date? (cs.take stop)
    match cs.drop stop with
    | [] => some (Moment.ofDate date)
    | c :: rest => do
        let (clock, offset) ← time? ((c :: rest).drop (charSize c.toNat))
        if clock.hour < 24 ∧ clock.minute < 60 ∧ clock.second < 60 then
          some ⟨date, clock.hour, clock.minute, clock.second, clock.micros, offset⟩
        else none

end Stencil.Iso
