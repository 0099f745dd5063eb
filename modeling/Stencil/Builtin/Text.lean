import Stencil.Decimal.Numeral
import Stencil.Html.Escape
import Stencil.Text.Blank
import Stencil.Text.Replace
import Stencil.Value.Number

namespace Stencil.Filter

open Text

def plainText (cs : List Char) : Value := .str (String.ofList cs)

def safeText (cs : List Char) : Value := .markup (String.ofList cs)

/-- The text of a value as it is: markup stays markup. -/
def textValue (loopText : Nat → List Char) (v : Value) : Value :=
  match v with
  | .markup s => .markup s
  | v => plainText (v.textOf loopText)

/-- The end of a cut: a negative bound counts from the end. -/
def cutIndex (length : Nat) (i : Int) : Nat :=
  if i < 0 then (length + i).toNat else min i.toNat length

def takeTo {α : Type} (items : List α) (stop : Int) : List α :=
  items.take (cutIndex items.length stop)

def dropTo {α : Type} (items : List α) (start : Int) : List α :=
  items.drop (cutIndex items.length start)

def truncate (loopText : Nat → List Char) (v length suffix : Value) : Except Fault Value := do
  let most ← length.toWhole
  let cs := v.textOf loopText
  if cs.length ≤ most then return textValue loopText v
  else Value.add (plainText (takeTo cs most)) suffix

def replace (loopText : Nat → List Char) (v search image : Value) : Value :=
  plainText (replaceAll (search.textOf loopText) (image.textOf loopText) (v.textOf loopText))

def argumentType : Value → String
  | .null => "None"
  | v => v.typeName

/-- How many bytes the widest character of a text needs when all are stored alike. -/
def charWidth (cs : List Char) : Nat :=
  if cs.any fun c => 0xFFFF < c.toNat then 4 else if cs.any fun c => 0xFF < c.toNat then 2 else 1

/-- The parts between separators; without a separator, the words. A text that is seen at once not to
hold the separator is its only part as it is. -/
def split (loopText : Nat → List Char) (v separator : Value) : Except Fault Value :=
  let cs := v.textOf loopText
  let parts (found : List (List Char)) : Except Fault Value := .ok (.list (found.map plainText))
  match separator with
  | .null => parts (words cs)
  | .str s | .markup s =>
      if s = "" then .error (.badValue "empty separator")
      else if cs.length < s.length || charWidth cs < charWidth s.toList then
        .ok (.list [textValue loopText v])
      else parts (splitOn s.toList cs)
  | other => .error (.wrongType ("must be str or None, not " ++ other.typeName))

def breakLines : List Char → List Char
  | [] => []
  | '\r' :: '\n' :: cs => "<br />\r\n".toList ++ breakLines cs
  | '\n' :: cs => "<br />\n".toList ++ breakLines cs
  | '\r' :: cs => "<br />\r".toList ++ breakLines cs
  | c :: cs => c :: breakLines cs

def nl2br (loopText : Nat → List Char) (v : Value) : Value :=
  safeText (breakLines (Html.escape loopText v))

end Stencil.Filter
