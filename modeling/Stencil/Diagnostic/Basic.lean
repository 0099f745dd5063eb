import Stencil.Decimal.Binary
import Stencil.Diagnostic.Snippet
import Stencil.Text.Similar

namespace Stencil

inductive ErrorCode
  | unclosedTag | unclosedComment | unclosedString | unexpectedCharacter
  | unexpectedToken | unclosedBlock | invalidExpression | unknownTag | nestingTooDeep
  | undefinedVariable | unknownFilter | unknownTest | unknownFunction | runtimeError
  | templateNotFound | malformedTemplate | templateRecursion | templateTooLarge
  | unsafeTemplatePath
  deriving DecidableEq, Repr

namespace ErrorCode

def all : List ErrorCode :=
  [unclosedTag, unclosedComment, unclosedString, unexpectedCharacter, unexpectedToken,
   unclosedBlock, invalidExpression, unknownTag, nestingTooDeep, undefinedVariable, unknownFilter,
   unknownTest, unknownFunction, runtimeError, templateNotFound, malformedTemplate,
   templateRecursion, templateTooLarge, unsafeTemplatePath]

def text : ErrorCode → String
  | unclosedTag => "S-LEX-001"
  | unclosedComment => "S-LEX-002"
  | unclosedString => "S-LEX-003"
  | unexpectedCharacter => "S-LEX-004"
  | unexpectedToken => "S-PAR-001"
  | unclosedBlock => "S-PAR-002"
  | invalidExpression => "S-PAR-003"
  | unknownTag => "S-PAR-004"
  | nestingTooDeep => "S-PAR-005"
  | undefinedVariable => "S-RUN-001"
  | unknownFilter => "S-RUN-002"
  | unknownTest => "S-RUN-003"
  | unknownFunction => "S-RUN-004"
  | runtimeError => "S-RUN-005"
  | templateNotFound => "S-TPL-001"
  | malformedTemplate => "S-TPL-002"
  | templateRecursion => "S-TPL-003"
  | templateTooLarge => "S-TPL-004"
  | unsafeTemplatePath => "S-TPL-005"

def ofText? (text : String) : Option ErrorCode := all.find? (·.text == text)

def category : ErrorCode → String
  | unclosedTag | unclosedComment | unclosedString | unexpectedCharacter => "lexer"
  | unexpectedToken | unclosedBlock | invalidExpression | unknownTag | nestingTooDeep => "parser"
  | undefinedVariable | unknownFilter | unknownTest | unknownFunction | runtimeError => "runtime"
  | _ => "template"

end ErrorCode

def firstGiven (candidates : List (Option String)) (default : String) : String :=
  ((candidates.filterMap id).find? (· ≠ "")).getD default

def unnamed : String := "<template>"

/-- A line number counts only if it is given and not zero. -/
def givenLine (line : Option Int) : Option Int := line.filter (· ≠ 0)

def placeText (name : String) (line : Option Int) : String :=
  match givenLine line with
  | some n => name ++ ":" ++ toString n
  | none => name

inductive Stage
  | general
  | tokens
  | grammar
  deriving DecidableEq, Repr

def Stage.errorKind : Stage → String
  | general => "TemplateSyntaxError"
  | tokens => "LexerError"
  | grammar => "ParseError"

structure SourceError where
  stage : Stage
  message : String
  line : Option Int
  column : Option Int
  name : Option String
  filename : Option String
  source : Option String
  code : ErrorCode
  suggestion : Option String
  deriving DecidableEq, Repr

namespace SourceError

def location (e : SourceError) : String :=
  placeText (firstGiven [e.filename, e.name] unnamed) e.line

def snippetLines (e : SourceError) : List String :=
  match e.source.filter (· ≠ ""), givenLine e.line with
  | some source, some line =>
      if line ≤ 0 then []
      else
        match (sourceLines source)[line.toNat - 1]? with
        | none => []
        | some text =>
            let caret := match e.column with
              | some column => [gutter ++ " " ++ blanks column ++ "^"]
              | none => []
            gutter :: (paddedNumber line ++ " | " ++ text) :: caret
  | _, _ => []

def fullText (e : SourceError) : String :=
  let column := match givenLine e.line, e.column with
    | some _, some column => ":" ++ toString column
    | _, _ => ""
  let head := "Syntax Error: " ++ e.message ++ "\n  --> " ++ e.location ++ column
  let suggestion := match e.suggestion.filter (· ≠ "") with
    | some suggestion => "\n\nSuggestion: " ++ suggestion
    | none => ""
  String.intercalate "\n" (head :: e.snippetLines) ++ suggestion

def compactText (e : SourceError) : String :=
  let snippet := match e.snippetLines with
    | [] => []
    | lines => lines ++ [gutter]
  String.intercalate "\n"
    ((e.code.text ++ ": " ++ e.message) :: ("  --> " ++ e.location) :: snippet)

end SourceError

inductive NameKind
  | general
  | filter
  | function
  | test
  deriving DecidableEq, Repr

namespace NameKind

def errorKind : NameKind → String
  | general => "UnknownNameError"
  | filter => "UnknownFilterError"
  | function => "UnknownFunctionError"
  | test => "UnknownTestError"

def title : NameKind → String
  | general => "Name"
  | filter => "Filter"
  | function => "Function"
  | test => "Test"

def code? : NameKind → Option ErrorCode
  | general => none
  | filter => some .unknownFilter
  | function => some .unknownFunction
  | test => some .unknownTest

end NameKind

def didYouMean (suggestion : Option String) : Styled :=
  match suggestion.filter (· ≠ "") with
  | some s => Styled.plain ". Did you mean '" ++ Styled.styled .suggestion s ++ Styled.plain "'?"
  | none => []

/-- A filter, function or test name that is not registered. -/
structure UnknownName where
  kind : NameKind
  name : String
  available : List String
  template : Option String
  line : Option Int
  deriving DecidableEq, Repr

namespace UnknownName

def suggestion (e : UnknownName) : Option String := Text.closest? e.name e.available

def message (e : UnknownName) : Styled :=
  let place := match e.template.filter (· ≠ ""), givenLine e.line with
    | none, none => []
    | template, line =>
        Styled.plain " in " ++ Styled.styled .location (placeText (template.getD unnamed) line)
  Styled.plain (e.kind.title ++ " '" ++ e.name ++ "' not found") ++ place ++
    didYouMean e.suggestion

end UnknownName

def headline (code : Option ErrorCode) (message : Styled) : Styled :=
  match code with
  | some code => Styled.styled .code code.text ++ Styled.plain ": " ++ message
  | none => message

structure ShownValue where
  name : String
  text : String
  type : String
  deriving DecidableEq, Repr

structure RenderError where
  message : String
  expression : Option String
  values : List ShownValue
  template : Option String
  line : Option Int
  suggestion : Option String
  snippet : Option Snippet
  deriving DecidableEq, Repr

namespace RenderError

def location (e : RenderError) : String :=
  placeText (firstGiven [e.template] unnamed) e.line

def valueLine (v : ShownValue) : String :=
  let text := if v.text.length > 80 then String.ofList (v.text.toList.take 77) ++ "..." else v.text
  "    " ++ v.name ++ " = " ++ text ++ " (" ++ v.type ++ ")"

def expressionLines (e : RenderError) : List Styled :=
  match e.expression.filter (· ≠ "") with
  | some text => [Styled.plain ("  Expression: " ++ text)]
  | none => []

def snippetLines (e : RenderError) : List Styled :=
  match e.snippet with
  | some s => [s.format]
  | none => []

def locationLine (e : RenderError) : Styled :=
  Styled.plain "  Location: " ++ Styled.styled .location e.location

def fullText (e : RenderError) : Styled :=
  let location :=
    if e.template.any (· ≠ "") || (givenLine e.line).isSome then [e.locationLine] else []
  let values := match e.values with
    | [] => []
    | vs => Styled.plain "  Values:" :: vs.map fun v => Styled.plain (valueLine v)
  let suggestion := match e.suggestion.filter (· ≠ "") with
    | some s =>
        [Styled.plain "\n  " ++ Styled.styled .hint "Suggestion:" ++ Styled.plain (" " ++ s)]
    | none => []
  Styled.ofLines <|
    Styled.plain ("Runtime Error: " ++ e.message) :: location ++ e.snippetLines ++
      e.expressionLines ++ values ++ suggestion

def compact (e : RenderError) : Styled :=
  let suggestion := match e.suggestion.filter (· ≠ "") with
    | some s => [Styled.plain "  " ++ Styled.styled .hint "Hint:" ++ Styled.plain (" " ++ s)]
    | none => []
  Styled.ofLines <|
    headline (some .runtimeError) (Styled.plain e.message) :: e.locationLine :: e.snippetLines ++
      e.expressionLines ++ suggestion

end RenderError

/-- A reference to a variable, key or attribute that does not exist. -/
structure UndefinedReference where
  name : String
  template : Option String
  line : Option Int
  available : List String
  snippet : Option Snippet
  detail : Option String
  deriving DecidableEq, Repr

namespace UndefinedReference

def headline (e : UndefinedReference) : Styled :=
  Styled.plain ("Undefined variable '" ++ e.name ++ "' in ") ++
    Styled.styled .location (placeText (firstGiven [e.template] unnamed) e.line) ++
    didYouMean (Text.closest? e.name e.available)

def hintLine (e : UndefinedReference) : Styled :=
  Styled.plain "  " ++ Styled.styled .hint "Hint:" ++
    Styled.plain (" Use \x7b\x7b " ++ e.name ++ "|default('') \x7d\x7d for optional variables")

def snippetLines (e : UndefinedReference) : List Styled :=
  match e.snippet with
  | some s => [s.format]
  | none => []

def message (e : UndefinedReference) : Styled :=
  let detail := match e.detail.filter (· ≠ "") with
    | some text => [Styled.plain ("  " ++ text)]
    | none => []
  Styled.ofLines (e.headline :: detail ++ e.snippetLines ++ [e.hintLine])

def compact (e : UndefinedReference) : Styled :=
  Styled.ofLines
    (Stencil.headline (some .undefinedVariable) e.headline :: e.snippetLines ++ [e.hintLine])

end UndefinedReference

inductive Diagnostic
  | general (message : String)
  | notFound (message : String)
  | unsafePath (message : String)
  | tooLarge (name : String) (size limit : Int)
  | recursion (chain : List String) (maxDepth : Option Int)
  | source (e : SourceError)
  | unknownName (e : UnknownName)
  | render (e : RenderError)
  | undefinedReference (e : UndefinedReference)
  deriving DecidableEq, Repr

namespace Diagnostic

def missing (name : String) : Diagnostic :=
  .notFound ("Template '" ++ name ++ "' not found")

def kind : Diagnostic → String
  | general _ => "TemplateError"
  | notFound _ => "TemplateNotFoundError"
  | unsafePath _ => "UnsafeTemplatePathError"
  | tooLarge _ _ _ => "TemplateTooLargeError"
  | recursion _ _ => "TemplateRecursionError"
  | source e => e.stage.errorKind
  | unknownName e => e.kind.errorKind
  | render _ => "TemplateRuntimeError"
  | undefinedReference _ => "UndefinedError"

def code? : Diagnostic → Option ErrorCode
  | general _ => none
  | notFound _ => some .templateNotFound
  | unsafePath _ => some .unsafeTemplatePath
  | tooLarge _ _ _ => some .templateTooLarge
  | recursion _ _ => some .templateRecursion
  | source e => some e.code
  | unknownName e => e.kind.code?
  | render _ => some .runtimeError
  | undefinedReference _ => some .undefinedVariable

def megabytes (bytes : Int) : String :=
  let quotient := (Decimal.floatOfInt? bytes).getD 0 / 1048576
  String.ofList (Decimal.fixedPlaces 2 quotient)

def message : Diagnostic → Styled
  | general message | notFound message | unsafePath message => Styled.plain message
  | tooLarge name size limit =>
      Styled.plain ("Template file is too large: " ++ name ++ " is " ++ megabytes size ++
        " MB (max: " ++ megabytes limit ++ " MB)")
  | recursion chain maxDepth =>
      let path := String.intercalate " → " chain
      Styled.plain <| match maxDepth with
        | some depth =>
            "Maximum template nesting depth (" ++ toString depth ++ ") exceeded: " ++ path
        | none => "Circular template reference: " ++ path
  | source e => Styled.plain e.fullText
  | unknownName e => e.message
  | render e => e.fullText
  | undefinedReference e => e.message

/-- The message behind its code, unless the message shows the code already. -/
def withCode (code : Option ErrorCode) (message : Styled) : Styled :=
  match code with
  | some code =>
      if (Text.splitAt? code.text.toList message.text.toList).isSome then message
      else Styled.plain (code.text ++ ": ") ++ message
  | none => message

def compact : Diagnostic → Styled
  | source e => Styled.plain e.compactText
  | render e => e.compact
  | undefinedReference e => e.compact
  | e => withCode e.code? e.message

/-- A header behind its code, unless the header as it is shown, with its colours, has the code
already. -/
def headerWithCode (code : Option ErrorCode) (header : String) : String :=
  match code with
  | some code =>
      if (Text.splitAt? code.text.toList header.toList).isSome then header
      else code.text ++ ": " ++ header
  | none => header

/-- The compact form as it is sent to a terminal that shows colours or does not. -/
def compactText (color : Bool) : Diagnostic → String
  | source e => e.compactText
  | render e => e.compact.render color
  | undefinedReference e => e.compact.render color
  | e => headerWithCode e.code? (e.message.render color)

end Diagnostic

end Stencil
