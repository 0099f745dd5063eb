import Stencil.Builtin.Date
import Stencil.Builtin.Number
import Stencil.Builtin.Sequence
import Stencil.Call.Signature
import Stencil.Html.Tags
import Stencil.Json.Read
import Stencil.Json.Write
import Stencil.Text.Case
import Stencil.Text.Percent
import Stencil.Value.Pretty

namespace Stencil

inductive Filter.Name
  | abs | batch | capitalize | count | date | default | dump | escape | first | join | json
  | jsonDecode | keys | last | length | lower | nl2br | numberFormat | replace | reverse | round
  | slice | split | striptags | trim | truncate | upper | urlDecode | urlEncode | values
  deriving DecidableEq, Repr

namespace Filter

namespace Name

def text : Name → String
  | abs => "abs" | batch => "batch" | capitalize => "capitalize" | count => "count"
  | date => "date" | default => "default" | dump => "dump" | escape => "escape" | first => "first"
  | join => "join" | json => "json" | jsonDecode => "json_decode" | keys => "keys"
  | last => "last" | length => "length" | lower => "lower" | nl2br => "nl2br"
  | numberFormat => "number_format" | replace => "replace" | reverse => "reverse"
  | round => "round" | slice => "slice" | split => "split" | striptags => "striptags"
  | trim => "trim" | truncate => "truncate" | upper => "upper" | urlDecode => "url_decode"
  | urlEncode => "url_encode" | values => "values"

def all : List Name :=
  [abs, batch, capitalize, count, date, default, dump, escape, first, join, json, jsonDecode, keys,
   last, length, lower, nl2br, numberFormat, replace, reverse, round, slice, split, striptags, trim,
   truncate, upper, urlDecode, urlEncode, values]

def parameters : Name → List Parameter
  | batch => [⟨"size", none⟩, ⟨"fill", some .null⟩]
  | date => [⟨"format", some (.str "%Y-%m-%d %H:%M:%S")⟩]
  | default => [⟨"fallback", some (.str "")⟩]
  | join => [⟨"separator", some (.str "")⟩]
  | numberFormat =>
      [⟨"decimals", some (.int 0)⟩, ⟨"dec_point", some (.str ".")⟩,
       ⟨"thousands_sep", some (.str ",")⟩]
  | replace => [⟨"search", none⟩, ⟨"replace", none⟩]
  | round => [⟨"precision", some (.int 0)⟩]
  | slice => [⟨"start", none⟩, ⟨"length", some .null⟩]
  | split => [⟨"delimiter", some (.str ",")⟩]
  | truncate => [⟨"length", some (.int 80)⟩, ⟨"suffix", some (.str "...")⟩]
  | _ => []

def signature (n : Name) : Signature :=
  ⟨"_filter_" ++ n.text, ⟨"value", none⟩ :: n.parameters⟩

end Name

/-- Every built-in filter under its names. One has a short name, too. -/
def registered : List (String × Name) :=
  ("e", .escape) :: Name.all.map fun n => (n.text, n)

section Apply

variable (loopText : Nat → List Char)

/-- A text in the form of query strings; an empty text stays what it is. -/
def urlEncode (v : Value) : Value :=
  match textValue loopText v with
  | .markup "" => .markup ""
  | v => plainText (Text.percentEncode (String.ofList (v.textOf loopText)))

def applyPlain (v : Value) : Name → Except Fault Value
  | .abs => magnitude loopText v
  | .capitalize => .ok (plainText (Text.title (v.textOf loopText)))
  | .count => .ok (.int (count v))
  | .dump =>
      .ok (safeText ("<pre>".toList ++ Html.escapeChars (v.pretty loopText) ++ "</pre>".toList))
  | .escape => .ok (safeText (Html.escape loopText v))
  | .first => .ok (first v)
  | .json => (Json.write loopText v).map plainText
  | .jsonDecode => .ok ((Json.read? (v.textOf loopText)).getD .null)
  | .keys => .ok (keys v)
  | .last => .ok (last v)
  | .length => .ok (.int (length loopText v))
  | .lower => .ok (plainText (Text.lower (v.textOf loopText)))
  | .nl2br => .ok (nl2br loopText v)
  | .reverse => .ok (reverse loopText v)
  | .striptags => .ok (plainText (Html.stripTags (v.textOf loopText)))
  | .trim => .ok (plainText (Text.strip (v.textOf loopText)))
  | .upper => .ok (plainText (Text.upper (v.textOf loopText)))
  | .urlDecode => .ok (plainText (Text.percentDecode (v.textOf loopText)))
  | .urlEncode => .ok (urlEncode loopText v)
  | .values => .ok (values v)
  | _ => .ok v

def apply (n : Name) (v : Value) (args : List Value) : Except Fault Value :=
  match n, args with
  | .batch, [size, filling] => batch v size filling
  | .date, [format] => date v format
  | .default, [fallback] => .ok (if v.truthy then v else fallback)
  | .join, [separator] => .ok (join loopText v separator)
  | .numberFormat, [places, point, separator] => numberFormat loopText v places point separator
  | .replace, [search, image] => .ok (replace loopText v search image)
  | .round, [places] => round loopText v places
  | .slice, [start, length] => slice v start length
  | .split, [separator] => split loopText v separator
  | .truncate, [length, suffix] => truncate loopText v length suffix
  | n, _ => applyPlain loopText v n

def call (n : Name) (a : Arguments) : Except Fault Value := do
  match ← n.signature.bind a with
  | v :: args => apply loopText n v args
  | [] => return .null

end Apply

end Filter

end Stencil
