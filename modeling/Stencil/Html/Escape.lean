import Stencil.Value.Text

namespace Stencil.Html

def escapeChar : Char → List Char
  | '&' => "&amp;".toList
  | '<' => "&lt;".toList
  | '>' => "&gt;".toList
  | '"' => "&quot;".toList
  | '\'' => "&#039;".toList
  | c => [c]

def escapeChars (cs : List Char) : List Char := cs.flatMap escapeChar

def entities : List (List Char × Char) :=
  [("&amp;".toList, '&'), ("&lt;".toList, '<'), ("&gt;".toList, '>'), ("&quot;".toList, '"'),
   ("&#039;".toList, '\'')]

def safeText? : Value → Option String
  | .markup s => some s
  | .html _ text => some text
  | .undefined => some ""
  | _ => none

/-- The HTML text of a value: its own if it has one, otherwise its escaped plain text. -/
def escape (loopText : Nat → List Char) (v : Value) : List Char :=
  match safeText? v with
  | some text => text.toList
  | none => escapeChars (v.textOf loopText)

end Stencil.Html
