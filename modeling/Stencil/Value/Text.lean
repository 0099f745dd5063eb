import Stencil.Decimal.Shortest
import Stencil.Text.Quoted
import Stencil.Value.Basic

/-!
The texts of values: the shown form, in which strings are quoted, and the plain form. Loops are
shown as they stand, so both forms are given the texts of loops.
-/

namespace Stencil

namespace Date

def isoText (d : Date) : List Char :=
  Decimal.paddedDigits 4 d.year.toNat ++ '-' :: Decimal.paddedDigits 2 d.month ++
    '-' :: Decimal.paddedDigits 2 d.day

end Date

namespace Moment

/-- An offset from universal time as hours and minutes, and smaller units if there are any. -/
def offsetText (separator : List Char) (offset : Int) : List Char :=
  let size := offset.natAbs
  let seconds := size / 1000000
  (if offset < 0 then '-' else '+') :: Decimal.paddedDigits 2 (seconds / 3600) ++ separator ++
    Decimal.paddedDigits 2 (seconds / 60 % 60) ++
    (if size % 60000000 = 0 then [] else separator ++ Decimal.paddedDigits 2 (seconds % 60)) ++
    (if size % 1000000 = 0 then [] else '.' :: Decimal.paddedDigits 6 (size % 1000000))

def timeText (m : Moment) : List Char :=
  Decimal.paddedDigits 2 m.hour ++ ':' :: Decimal.paddedDigits 2 m.minute ++
    ':' :: Decimal.paddedDigits 2 m.second ++
    if m.micros = 0 then [] else '.' :: Decimal.paddedDigits 6 m.micros

def text (m : Moment) : List Char :=
  m.date.isoText ++ ' ' :: m.timeText ++
    match m.offset with
    | some offset => offsetText [':'] offset
    | none => []

def shownOffset (offset : Int) : List Char :=
  if offset = 0 then "datetime.timezone.utc".toList
  else
    let days := offset / 86400000000
    let seconds := (offset / 1000000) % 86400
    let part (name : String) (n : Int) : List String :=
      if n = 0 then [] else [name ++ "=" ++ toString n]
    ("datetime.timezone(datetime.timedelta(" ++ String.intercalate ", "
      (part "days" days ++ part "seconds" seconds ++ part "microseconds" (offset % 1000000)) ++
      "))").toList

end Moment

namespace Value

def joinTexts (separator : List Char) : List (List Char) → List Char
  | [] => []
  | [t] => t
  | t :: rest => t ++ separator ++ joinTexts separator rest

def shownDate (d : Date) : List Char :=
  ("datetime.date(" ++ toString d.year ++ ", " ++ toString d.month ++ ", " ++ toString d.day ++
    ")").toList

def shownMoment (m : Moment) : List Char :=
  let numbers := [toString m.date.year, toString m.date.month, toString m.date.day,
    toString m.hour, toString m.minute]
  let small :=
    if m.micros ≠ 0 then [toString m.second, toString m.micros]
    else if m.second ≠ 0 then [toString m.second] else []
  ("datetime.datetime(" ++ String.intercalate ", " (numbers ++ small)).toList ++
    (match m.offset with
      | some offset => ", tzinfo=".toList ++ Moment.shownOffset offset
      | none => []) ++ [')']

def viewName : ViewKind → String
  | .keys => "dict_keys"
  | .values => "dict_values"
  | .items => "dict_items"

section Shown

variable (loopText : Nat → List Char)

mutual

def shown : Value → List Char
  | null => "None".toList
  | bool b => (if b then "True" else "False").toList
  | int i => (toString i).toList
  | float f => Decimal.floatText f
  | str s => Text.quoted s.toList
  | markup s => "Markup(".toList ++ Text.quoted s.toList ++ [')']
  | list items => '[' :: joinTexts [',', ' '] (shownAll items) ++ [']']
  | tuple items =>
      '(' :: joinTexts [',', ' '] (shownAll items) ++
        (if items.length = 1 then [',', ')'] else [')'])
  | dict entries => '{' :: joinTexts [',', ' '] (shownEntries entries) ++ ['}']
  | undefined => "Undefined".toList
  | date d => shownDate d
  | moment m => shownMoment m
  | bytes bs => Text.quotedBytes bs
  | object _ type _ _ => '<' :: type.toList ++ ['>']
  | html _ _ => "<Html>".toList
  | function name => "<function ".toList ++ name.toList ++ ['>']
  | method _ name => "<built-in method ".toList ++ name.toList ++ ['>']
  | view kind entries =>
      let parts := match kind with
        | .keys => shownKeys entries
        | .values => shownValues entries
        | .items => shownPairs entries
      (viewName kind).toList ++ '(' :: '[' :: joinTexts [',', ' '] parts ++ [']', ')']
  | loop id => loopText id
  | generator _ => "<generator object>".toList

def shownAll : List Value → List (List Char)
  | [] => []
  | v :: rest => shown v :: shownAll rest

def shownEntries : List (Value × Value) → List (List Char)
  | [] => []
  | (k, v) :: rest => (shown k ++ ':' :: ' ' :: shown v) :: shownEntries rest

def shownKeys : List (Value × Value) → List (List Char)
  | [] => []
  | (k, _) :: rest => shown k :: shownKeys rest

def shownValues : List (Value × Value) → List (List Char)
  | [] => []
  | (_, v) :: rest => shown v :: shownValues rest

def shownPairs : List (Value × Value) → List (List Char)
  | [] => []
  | (k, v) :: rest => ('(' :: shown k ++ ',' :: ' ' :: shown v ++ [')']) :: shownPairs rest

end

def plain : Value → List Char
  | str s | markup s => s.toList
  | undefined => []
  | date d => d.isoText
  | moment m => m.text
  | v => shown loopText v

def textOf : Value → List Char
  | null => []
  | v => plain loopText v

end Shown

end Value

end Stencil
