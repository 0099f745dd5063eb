import Stencil.Decimal.Quantity
import Stencil.Text.Case
import Stencil.Time.Calendar
import Stencil.Value.Text

/-!
Dates and times under a format: a percent sign, flags, a width and a letter stand for a part of the
date. What is no conversion is written as it is.
-/

namespace Stencil.Moment

def weekdayNames : List String :=
  ["Monday", "Tuesday", "Wednesday", "Thursday", "Friday", "Saturday", "Sunday"]

def monthNames : List String :=
  ["January", "February", "March", "April", "May", "June", "July", "August", "September",
   "October", "November", "December"]

def nameAt (names : List String) (i : Nat) : List Char := (names[i]?.getD "").toList

inductive Fill
  | zeros
  | blanks
  | nothing
  deriving DecidableEq

inductive Variant
  | era
  | alternative
  deriving DecidableEq

structure Layout where
  fill : Option Fill := none
  capital : Bool := false
  swap : Bool := false
  width : Nat := 0
  variant : Option Variant := none

namespace Layout

def pad (l : Layout) (cs : List Char) : List Char :=
  List.replicate (l.width - cs.length) (if l.fill = some .zeros then '0' else ' ') ++ cs

def number (l : Layout) (usual : Fill) (least n : Nat) : List Char :=
  let ds := Decimal.digits n
  let missing := max least l.width - ds.length
  match l.fill.getD usual with
  | .zeros => List.replicate missing '0' ++ ds
  | .blanks => List.replicate missing ' ' ++ ds
  | .nothing => l.pad ds

def text (l : Layout) (cs : List Char) : List Char :=
  l.pad (if l.capital then cs.map Char.toUpper else cs)

def name (l : Layout) (cs : List Char) : List Char :=
  { l with capital := l.capital || l.swap }.text cs

def sign (l : Layout) (cs : List Char) : List Char :=
  if l.swap then l.pad (cs.map Char.toLower) else l.text cs

end Layout

def clockHour (m : Moment) : Nat := if m.hour % 12 = 0 then 12 else m.hour % 12

def halfDay (m : Moment) : List Char := (if m.hour < 12 then "AM" else "PM").toList

/-- The number of the week when weeks begin on the given day of the week; days before the first
such day are in week zero. -/
def weekOfYear (m : Moment) (firstDay : Nat) : Nat :=
  let day := m.date.dayOfYear - 1
  (day + 7 - (m.date.weekday + 7 - firstDay) % 7) / 7

def zoneName (m : Moment) : List Char :=
  match m.offset with
  | none => []
  | some 0 => "UTC".toList
  | some offset => "UTC".toList ++ offsetText [':'] offset

def zoneOffset (m : Moment) : List Char :=
  match m.offset with
  | none => []
  | some offset => offsetText [] offset

def epochSeconds (m : Moment) : Int := (m.localMicros / 1000000) - 719163 * 86400

def abbreviated? : Char → Option String
  | 'c' => some "%a %b %e %H:%M:%S %Y"
  | 'D' | 'x' => some "%m/%d/%y"
  | 'F' => some "%Y-%m-%d"
  | 'r' => some "%I:%M:%S %p"
  | 'R' => some "%H:%M"
  | 'T' | 'X' => some "%H:%M:%S"
  | _ => none

def hasVariant : Variant → Char → Bool
  | .era, letter => "cCxXyYntpPrRTsuzZ".toList.contains letter
  | .alternative, letter => "CbhBdeHIklmMSUVWgGjuwyntpPrRTszZ".toList.contains letter

/-- The part of a date that a letter stands for. An offset and the name of a zone are known only
where nothing stands between the percent sign and the letter. -/
def part? (m : Moment) (l : Layout) : Char → Option (List Char)
  | 'Y' => some (l.number .zeros 1 m.date.year.toNat)
  | 'C' => some (l.number .zeros 1 (m.date.year.toNat / 100))
  | 'y' => some (l.number .zeros 2 (m.date.year.toNat % 100))
  | 'm' => some (l.number .zeros 2 m.date.month)
  | 'd' => some (l.number .zeros 2 m.date.day)
  | 'e' => some (l.number .blanks 2 m.date.day)
  | 'H' => some (l.number .zeros 2 m.hour)
  | 'k' => some (l.number .blanks 2 m.hour)
  | 'I' => some (l.number .zeros 2 m.clockHour)
  | 'l' => some (l.number .blanks 2 m.clockHour)
  | 'M' => some (l.number .zeros 2 m.minute)
  | 'S' => some (l.number .zeros 2 m.second)
  | 'j' => some (l.number .zeros 3 m.date.dayOfYear)
  | 'u' => some (l.number .zeros 1 (m.date.weekday + 1))
  | 'w' => some (l.number .zeros 1 ((m.date.weekday + 1) % 7))
  | 'U' => some (l.number .zeros 2 (m.weekOfYear 6))
  | 'W' => some (l.number .zeros 2 (m.weekOfYear 0))
  | 'V' => some (l.number .zeros 2 m.date.isoWeek.2.1)
  | 'G' => some (l.number .zeros 1 m.date.isoWeek.1.toNat)
  | 'g' => some (l.number .zeros 2 (m.date.isoWeek.1.toNat % 100))
  | 's' => some (l.pad (toString m.epochSeconds).toList)
  | 'a' => some (l.name ((nameAt weekdayNames m.date.weekday).take 3))
  | 'A' => some (l.name (nameAt weekdayNames m.date.weekday))
  | 'b' | 'h' => some (l.name ((nameAt monthNames (m.date.month - 1)).take 3))
  | 'B' => some (l.name (nameAt monthNames (m.date.month - 1)))
  | 'p' => some (l.sign m.halfDay)
  | 'P' => some (l.pad (m.halfDay.map Char.toLower))
  | 'z' => some []
  | 'Z' => some (if l.fill = some .nothing then [] else l.pad [])
  | 'n' => some (l.pad ['\n'])
  | 't' => some (l.pad ['\t'])
  | '%' => some (l.pad ['%'])
  | _ => none

/-- What is not understood is written as it is, from the last percent sign on. A month's short name
is made capital there, too. -/
def notUnderstood (l : Layout) (letter : Char) (cs : List Char) : List Char :=
  if letter = '%' then l.text ['%']
  else if letter = 'b' ∨ letter = 'h' then l.name cs
  else l.text cs

def layoutFlags : Layout → List Char → Layout × List Char
  | l, '-' :: rest => layoutFlags { l with fill := some .nothing } rest
  | l, '_' :: rest => layoutFlags { l with fill := some .blanks } rest
  | l, '0' :: rest => layoutFlags { l with fill := some .zeros } rest
  | l, '^' :: rest => layoutFlags { l with capital := true } rest
  | l, '#' :: rest => layoutFlags { l with swap := true } rest
  | l, rest => (l, rest)

def widest : Nat := 1000000

def layout (cs : List Char) : Layout × List Char :=
  let (l, cs) := layoutFlags {} cs
  let width := min widest (Nat.ofDigitChars 10 (cs.takeWhile Char.isDigit) 0)
  let l := { l with width }
  match cs.dropWhile Char.isDigit with
  | 'E' :: rest => ({ l with variant := some .era }, rest)
  | 'O' :: rest => ({ l with variant := some .alternative }, rest)
  | rest => (l, rest)

/-- The text of a format; `rounds` bounds its characters and those of abbreviated formats. -/
def formatWithin (m : Moment) : (rounds : Nat) → List Char → List Char
  | 0, _ => []
  | _ + 1, [] => []
  | rounds + 1, '%' :: cs =>
      match layout cs with
      | (l, []) => l.text ('%' :: cs)
      | (l, letter :: rest) =>
          let asWritten := notUnderstood l letter ('%' :: cs.take (cs.length - rest.length))
          let written :=
            if l.variant.any fun v => !hasVariant v letter then asWritten
            else
              match abbreviated? letter with
              | some format => l.text (formatWithin m rounds format.toList)
              | none => (m.part? l letter).getD asWritten
          written ++ formatWithin m rounds rest
  | rounds + 1, c :: cs => c :: formatWithin m rounds cs

def withZone (m : Moment) : List Char → List Char
  | '%' :: 'z' :: cs => m.zoneOffset ++ m.withZone cs
  | '%' :: 'Z' :: cs => m.zoneName ++ m.withZone cs
  | '%' :: 'f' :: cs => Decimal.paddedDigits 6 m.micros ++ m.withZone cs
  | '%' :: c :: cs => '%' :: c :: m.withZone cs
  | c :: cs => c :: m.withZone cs
  | [] => []

/-- How long the text of a format of so many characters may become: 1024 doubled until it is 256
times the length of the format. -/
def room (length : Nat) : Nat :=
  1024 * Decimal.twoTo (Nat.log2 ((256 * length + 1023) / 1024 * 2 - 1))

/-- A moment under a format. A text that does not fit is left out. -/
def format (m : Moment) (template : String) : List Char :=
  let cs := m.withZone template.toList
  let text := m.formatWithin (cs.length + 32) cs
  if text.length < room cs.length then text else []

end Stencil.Moment
