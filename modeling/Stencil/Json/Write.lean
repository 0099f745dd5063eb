import Stencil.Decimal.Shortest
import Stencil.Text.Quoted
import Stencil.Value.Fault
import Stencil.Value.Text

namespace Stencil.Json

def writeChar (c : Char) : List Char :=
  if c = '"' then ['\\', '"']
  else if c = '\\' then ['\\', '\\']
  else if c = '\n' then ['\\', 'n']
  else if c = '\r' then ['\\', 'r']
  else if c = '\t' then ['\\', 't']
  else if c = '\x08' then ['\\', 'b']
  else if c = '\x0c' then ['\\', 'f']
  else if c.toNat < 32 then '\\' :: 'u' :: Text.hex 4 c.toNat
  else [c]

def writeString (cs : List Char) : List Char := '"' :: cs.flatMap writeChar ++ ['"']

def writeFloat (f : Float) : List Char :=
  match Decimal.Binary.ofFloat f with
  | .notANumber => "NaN".toList
  | .infinite negative => (if negative then "-Infinity" else "Infinity").toList
  | .finite _ _ _ => Decimal.floatText f

/-- The text of a key; numbers, truth values and null are written in quotes. -/
def keyText : Value → Except Fault (List Char)
  | .str s | .markup s => .ok s.toList
  | .int i => .ok (toString i).toList
  | .float f => .ok (writeFloat f)
  | .bool b => .ok (if b then "true" else "false").toList
  | .null => .ok "null".toList
  | v => .error (.wrongType
      ("keys must be str, int, float, bool or None, not " ++ v.typeName))

def commas : List (List Char) → List Char := Value.joinTexts [',', ' ']

section Write

variable (loopText : Nat → List Char)

mutual

def write : Value → Except Fault (List Char)
  | .null => .ok "null".toList
  | .bool b => .ok (if b then "true" else "false").toList
  | .int i => .ok (toString i).toList
  | .float f => .ok (writeFloat f)
  | .str s | .markup s => .ok (writeString s.toList)
  | .list items | .tuple items => do
      let texts ← writeAll items
      .ok ('[' :: commas texts ++ [']'])
  | .dict entries => do
      let texts ← writeEntries entries
      .ok ('\x7b' :: commas texts ++ ['\x7d'])
  | v => .ok (writeString (v.plain loopText))

def writeAll : List Value → Except Fault (List (List Char))
  | [] => .ok []
  | v :: rest => do
      let text ← write v
      let texts ← writeAll rest
      .ok (text :: texts)

def writeEntries : List (Value × Value) → Except Fault (List (List Char))
  | [] => .ok []
  | (k, v) :: rest => do
      let key ← keyText k
      let text ← write v
      let texts ← writeEntries rest
      .ok ((writeString key ++ ':' :: ' ' :: text) :: texts)

end

end Write

end Stencil.Json
