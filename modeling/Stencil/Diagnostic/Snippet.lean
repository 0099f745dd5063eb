import Stencil.Text.Blank
import Stencil.Text.Replace

/-!
Text for a terminal, in which some runs of characters have a role that decides their colour, and the
source lines around an error, numbered, with the line of the error marked.
-/

namespace Stencil

inductive Role
  | code
  | location
  | lineNumber
  | errorLine
  | hint
  | suggestion
  | dim
  deriving DecidableEq, Repr

namespace Role

def sequence (parameter : String) : String := "\x1b[" ++ parameter ++ "m"

def parameters : Role → List String
  | code => ["91", "1"]
  | location => ["36"]
  | lineNumber => ["33"]
  | errorLine => ["91"]
  | hint => ["32"]
  | suggestion => ["92", "1"]
  | dim => ["2"]

def ofName? : String → Option Role
  | "code" => some code
  | "location" => some location
  | "lineno" => some lineNumber
  | "error_line" => some errorLine
  | "hint" => some hint
  | "suggestion" => some suggestion
  | "dim" => some dim
  | _ => none

end Role

/-- A run of characters with at most one role. -/
structure Span where
  role : Option Role
  text : String
  deriving DecidableEq, Repr

abbrev Styled := List Span

namespace Styled

def plain (text : String) : Styled := [⟨none, text⟩]

def styled (role : Role) (text : String) : Styled := [⟨some role, text⟩]

def renderSpan (color : Bool) (span : Span) : String :=
  match color, span.role with
  | true, some role =>
      String.join (role.parameters.map Role.sequence) ++ span.text ++ Role.sequence "0"
  | _, _ => span.text

/-- The text as it is sent to a terminal that shows colours or does not. -/
def render (color : Bool) (s : Styled) : String := String.join (s.map (renderSpan color))

def text (s : Styled) : String := render false s

def joinWith (separator : String) : List Styled → Styled
  | [] => []
  | [s] => s
  | s :: rest => s ++ plain separator ++ joinWith separator rest

def ofLines (lines : List Styled) : Styled := joinWith "\n" lines

end Styled

/-- How many characters of a display sequence begin here: the escape character, a bracket,
parameters, intermediate characters and the final one. -/
def controlSequence? : List Char → Option (Nat × List Char)
  | '\x1b' :: '[' :: rest =>
      let parameters := rest.takeWhile fun c => '0' ≤ c && c ≤ '?'
      let after := rest.dropWhile fun c => '0' ≤ c && c ≤ '?'
      let intermediates := after.takeWhile fun c => ' ' ≤ c && c ≤ '/'
      match after.dropWhile fun c => ' ' ≤ c && c ≤ '/' with
      | c :: _ =>
          if '@' ≤ c && c ≤ '~' then
            some (parameters.length + intermediates.length + 3, [])
          else none
      | [] => none
  | _ => none

def stripColors (text : String) : String :=
  String.ofList (Text.replaceMatches controlSequence? text.toList)

/-- Whether diagnostics are coloured: a wish for colours wins over a wish for none. -/
def wantsColors (force refuse : Option String) (terminal : Bool) : Bool :=
  if force.any (· ≠ "") then true
  else if refuse.any (· ≠ "") then false
  else terminal

def sourceLines (source : String) : List String :=
  (Text.lines source.toList).map String.ofList

def paddedNumber (n : Int) : String :=
  let text := toString n
  String.ofList (List.replicate (3 - text.length) ' ') ++ text

def gutter : String := "   |"

/-- A run of blanks. None stand before a column left of the first one. -/
def blanks (n : Int) : String := String.ofList (List.replicate n.toNat ' ')

def numberedLine (line : Int) (content : String) (isError : Bool) : Styled :=
  Styled.styled .lineNumber ((if isError then ">" else " ") ++ paddedNumber line) ++
    Styled.plain " | " ++
    Styled.styled (if isError then .errorLine else .dim) content

def caretLine (column : Int) : Styled :=
  Styled.styled .dim gutter ++ Styled.plain " " ++
    Styled.styled .errorLine (blanks column ++ "^")

structure Snippet where
  lines : List (Int × String)
  errorLine : Int
  column : Option Int
  deriving DecidableEq, Repr

namespace Snippet

/-- The lines from `context` before the error to `context` after it, as far as the source goes. -/
def ofSource (source : String) (errorLine context : Int) (column : Option Int) : Snippet :=
  let all := sourceLines source
  let first := max 0 (errorLine - 1 - context)
  let stop := min (all.length : Int) (errorLine + context)
  let shown := (all.drop first.toNat).take (stop - first).toNat
  ⟨shown.zipIdx.map fun (text, i) => (first + i + 1, text), errorLine, column⟩

def format (s : Snippet) : Styled :=
  let caret := match s.column with
    | some column => [caretLine column]
    | none => []
  Styled.ofLines <|
    Styled.styled .dim gutter ::
      (s.lines.map fun (line, text) => numberedLine line text (line == s.errorLine)) ++
      caret ++ [Styled.styled .dim gutter]

end Snippet

end Stencil
