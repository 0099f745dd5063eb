import Stencil.Text.Blank
import Stencil.Value.Order
import Stencil.Value.Text

/-!
Values laid out on lines of eighty characters. A container that does not fit is broken after each
item, a text that does not fit after its lines or words. Entries are sorted by key.
-/

namespace Stencil

namespace Text

def linesWithEnds : List Char → List (List Char)
  | [] => []
  | '\r' :: '\n' :: rest => ['\r', '\n'] :: linesWithEnds rest
  | c :: rest =>
      if isLineEnd c then [c] :: linesWithEnds rest
      else match linesWithEnds rest with
        | [] => [[c]]
        | line :: more => (c :: line) :: more

def wordsWithBlanks : List Char → List (List Char)
  | [] => []
  | c :: rest =>
      match rest, wordsWithBlanks rest with
      | d :: _, word :: more =>
          if isBlank c && !isBlank d then [c] :: word :: more else (c :: word) :: more
      | _, _ => [[c]]

end Text

namespace Value

/-- The rank of a value's kind, for keys that have no order of their own. -/
def kindRank : Value → Nat
  | null => 0
  | object _ _ _ _ | html _ _ => 1
  | bool _ => 2
  | method _ _ => 3
  | bytes _ => 4
  | date _ => 5
  | moment _ => 6
  | dict _ | view _ _ => 7
  | float _ => 8
  | function _ => 9
  | generator _ => 10
  | int _ => 11
  | list _ => 12
  | undefined => 13
  | loop _ => 14
  | markup _ => 15
  | str _ => 16
  | tuple _ => 17

/-- Whether one key is sorted before another. Keys without an order are sorted by kind. -/
def keyLess (a b : Value) : Bool :=
  match order .lt a b with
  | .ok less => less
  | .error _ =>
      decide (a.kindRank < b.kindRank) ||
        a.kindRank == b.kindRank && decide (a.typeName < b.typeName)

/-- Entries sorted by key; entries that are not less than each other keep their order. -/
def sortEntries (entries : List (Value × Value)) : List (Value × Value) :=
  entries.mergeSort fun a b => !keyLess b.1 a.1

mutual

/-- A value whose dictionaries are sorted by key, at every depth that is shown as one piece. -/
def sortedDeep : Value → Value
  | dict entries => dict (sortEntries (sortedEntries entries))
  | list items => list (sortedAll items)
  | tuple items => tuple (sortedAll items)
  | v => v

def sortedAll : List Value → List Value
  | [] => []
  | v :: rest => sortedDeep v :: sortedAll rest

def sortedEntries : List (Value × Value) → List (Value × Value)
  | [] => []
  | (k, v) :: rest => (sortedDeep k, sortedDeep v) :: sortedEntries rest

end

section Pretty

variable (loopText : Nat → List Char)

def lineWidth : Int := 80

def spaces (n : Int) : List Char := List.replicate n.toNat ' '

/-- A line broken into quoted chunks: words are gathered while they fit. The last word is to leave
`lastAllowance` more characters free. -/
def wordChunks (width lastAllowance : Int) (current : List Char) :
    List (List Char) → List (List Char)
  | [] => if current = [] then [] else [Text.quoted current]
  | word :: rest =>
      let candidate := current ++ word
      let room := if rest.isEmpty then width - lastAllowance else width
      if ((Text.quoted candidate).length : Int) > room then
        (if current = [] then [] else [Text.quoted current]) ++
          wordChunks width lastAllowance word rest
      else wordChunks width lastAllowance candidate rest

/-- The quoted chunks of a text: its lines, or the pieces of the lines that do not fit. -/
def textChunks (width allowance : Int) : List (List Char) → List (List Char)
  | [] => []
  | line :: rest =>
      let last := if rest.isEmpty then allowance else 0
      let whole := Text.quoted line
      (if (whole.length : Int) ≤ width - last then [whole]
        else wordChunks width last [] (Text.wordsWithBlanks line)) ++
        textChunks width allowance rest

/-- A text that does not fit, at the outermost level in parentheses. -/
def prettyText (indent allowance : Int) (level : Nat) (s : String) : List Char :=
  if s = "" then Text.quoted []
  else
    let outer := level = 1
    let indent := if outer then indent + 1 else indent
    let allowance := if outer then allowance + 1 else allowance
    match textChunks (lineWidth - indent) allowance (Text.linesWithEnds s.toList) with
    | [chunk] => chunk
    | chunks =>
        let body := joinTexts ('\n' :: spaces indent) chunks
        if outer then '(' :: body ++ [')'] else body

def byteChunks (width allowance : Int) (current : List UInt8) :
    (rounds : Nat) → List UInt8 → List (List Char)
  | 0, _ => if current = [] then [] else [Text.quotedBytes current]
  | _ + 1, [] => if current = [] then [] else [Text.quotedBytes current]
  | rounds + 1, bs =>
      let part := bs.take 4
      let rest := bs.drop 4
      let room := if part.length < 4 then width - allowance else width
      let candidate := current ++ part
      if ((Text.quotedBytes candidate).length : Int) > room then
        (if current = [] then [] else [Text.quotedBytes current]) ++
          byteChunks width allowance part rounds rest
      else byteChunks width allowance candidate rounds rest

def prettyBytes (indent allowance : Int) (level : Nat) (bs : List UInt8) : List Char :=
  if bs.length ≤ 4 then Text.quotedBytes bs
  else
    let outer := level = 1
    let indent := if outer then indent + 1 else indent
    let allowance := if outer then allowance + 1 else allowance
    let body := joinTexts ('\n' :: spaces indent)
      (byteChunks (lineWidth - indent) allowance [] bs.length bs)
    if outer then '(' :: body ++ [')'] else body

def onePiece (v : Value) : List Char := (sortedDeep v).shown loopText

/-- What follows an item: a comma and a new line, unless it is the last one. -/
def itemBreak (last : Bool) (indent : Int) : List Char :=
  if last then [] else ',' :: '\n' :: spaces indent

mutual

/-- A value that starts in column `indent` and leaves `allowance` characters of its last line
free. -/
def prettyAt (indent allowance : Int) (level : Nat) (v : Value) : List Char :=
  let whole := onePiece loopText v
  if (whole.length : Int) ≤ lineWidth - indent - allowance then whole
  else
    match v with
    | list items => '[' :: prettyItems (indent + 1) (allowance + 1) (level + 1) items ++ [']']
    | tuple items =>
        let close := if items.length = 1 then [',', ')'] else [')']
        '(' :: prettyItems (indent + 1) (allowance + close.length) (level + 1) items ++ close
    | dict entries =>
        let texts := (prettyEntries (indent + 1) (level + 1) entries).mergeSort
          fun a b => !keyLess b.1 a.1
        let text (last : Bool) (layout : Int → List Char) : List Char :=
          layout (if last then allowance + 1 else 1) ++ itemBreak last (indent + 1)
        '{' :: (texts.zipIdx.flatMap fun (e, i) => text (i + 1 = texts.length) e.2) ++ ['}']
    | str s => prettyText indent allowance (level + 1) s
    | bytes bs => prettyBytes indent allowance (level + 1) bs
    | _ => whole

/-- The items of a sequence; the last one is to leave room for what follows. -/
def prettyItems (indent allowance : Int) (level : Nat) : List Value → List Char
  | [] => []
  | v :: rest =>
      prettyAt indent (if rest.isEmpty then allowance else 1) level v ++
        itemBreak rest.isEmpty indent ++ prettyItems indent allowance level rest

def prettyEntries (indent : Int) (level : Nat) :
    List (Value × Value) → List (Value × (Int → List Char))
  | [] => []
  | (k, v) :: rest =>
      let key := onePiece loopText k ++ [':', ' ']
      (k, fun allowance => key ++ prettyAt (indent + key.length) allowance level v) ::
        prettyEntries indent level rest

end

def pretty (v : Value) : List Char := prettyAt loopText 0 0 0 v

end Pretty

end Value

end Stencil
