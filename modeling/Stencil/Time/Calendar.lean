namespace Stencil

structure Date where
  year : Int
  month : Nat
  day : Nat
  deriving DecidableEq, Repr, Inhabited

/-- A date and a time of day. The offset from universal time is in microseconds, if it is known. -/
structure Moment where
  date : Date
  hour : Nat
  minute : Nat
  second : Nat
  micros : Nat
  offset : Option Int
  deriving DecidableEq, Repr, Inhabited

namespace Date

def isLeap (year : Int) : Bool := year % 4 = 0 ∧ (year % 100 ≠ 0 ∨ year % 400 = 0)

def daysInMonth (year : Int) (month : Nat) : Nat :=
  match month with
  | 2 => if isLeap year then 29 else 28
  | 4 | 6 | 9 | 11 => 30
  | _ => 31

def isValidYear (year : Int) : Bool := 1 ≤ year ∧ year ≤ 9999

def isValid (d : Date) : Bool :=
  isValidYear d.year && 1 ≤ d.month && d.month ≤ 12 && 1 ≤ d.day &&
    d.day ≤ daysInMonth d.year d.month

/-- The number of days before a year, counted from the first of January of year one. -/
def daysBeforeYear (year : Int) : Int :=
  let y := year - 1
  y * 365 + y / 4 - y / 100 + y / 400

def daysBeforeMonth (year : Int) (month : Nat) : Nat :=
  ((List.range (month - 1)).map fun m => daysInMonth year (m + 1)).foldl (· + ·) 0

/-- The number of a day; the first of January of year one has number one. -/
def ordinal (d : Date) : Int :=
  daysBeforeYear d.year + daysBeforeMonth d.year d.month + d.day

def dayOfYear (d : Date) : Nat := daysBeforeMonth d.year d.month + d.day

def weekday (d : Date) : Nat := ((d.ordinal + 6) % 7).toNat

def monthAndDay (year : Int) : (months : List Nat) → (dayOfYear : Nat) → Nat × Nat
  | [], day => (12, day)
  | month :: rest, day =>
      let size := daysInMonth year month
      if day ≤ size then (month, day) else monthAndDay year rest (day - size)

def ofOrdinal (n : Int) : Date :=
  let days := n - 1
  let cycles := days / 146097
  let inCycle := days % 146097
  -- centuries of a cycle have 36524 days, but the last one has a day more
  let centuries := min 3 (inCycle / 36524)
  let inCentury := inCycle - centuries * 36524
  let fours := inCentury / 1461
  let inFour := inCentury % 1461
  let ones := min 3 (inFour / 365)
  let year := cycles * 400 + centuries * 100 + fours * 4 + ones + 1
  let (month, day) := monthAndDay year [1, 2, 3, 4, 5, 6, 7, 8, 9, 10, 11, 12]
    (inFour - ones * 365 + 1).toNat
  ⟨year, month, day⟩

/-- The first day of the first week of a year. Weeks begin on Monday and belong to the year that
holds their Thursday. -/
def firstMonday (year : Int) : Int :=
  let first := ordinal ⟨year, 1, 1⟩
  let weekday := (first + 6) % 7
  if weekday > 3 then first - weekday + 7 else first - weekday

def isoWeek (d : Date) : Int × Nat × Nat :=
  let here := d.ordinal
  let year :=
    if here < firstMonday d.year then d.year - 1
    else if here ≥ firstMonday (d.year + 1) then d.year + 1
    else d.year
  (year, ((here - firstMonday year) / 7 + 1).toNat, d.weekday + 1)

def ofIsoWeek? (year : Int) (week day : Nat) : Option Date :=
  let d := ofOrdinal (firstMonday year + (week - 1 : Nat) * 7 + (day - 1 : Nat))
  if week = 0 ∨ day = 0 ∨ day > 7 ∨ !isValidYear year then none
  else if week < 53 ∨ (week = 53 ∧ d.isoWeek.1 = year) then
    if isValidYear d.year then some d else none
  else none

end Date

namespace Moment

def ofDate (d : Date) : Moment := ⟨d, 0, 0, 0, 0, none⟩

def localMicros (m : Moment) : Int :=
  (((m.date.ordinal * 24 + m.hour) * 60 + m.minute) * 60 + m.second) * 1000000 + m.micros

/-- The moment a number of microseconds after the beginning of 1970, if its year is valid. -/
def ofEpochMicros? (micros : Int) : Option Moment :=
  let day := micros / 86400000000
  let inDay := (micros % 86400000000).toNat
  let date := Date.ofOrdinal (day + 719163)
  if Date.isValidYear date.year then
    some ⟨date, inDay / 3600000000, inDay / 60000000 % 60, inDay / 1000000 % 60,
      inDay % 1000000, none⟩
  else none

end Moment

end Stencil
