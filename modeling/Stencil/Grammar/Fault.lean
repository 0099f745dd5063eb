import Stencil.Diagnostic.Basic
import Stencil.Text.Quoted
import Stencil.Token.Scan

namespace Stencil

namespace ScanFault

def message : ScanFault → String
  | unclosedTag d => "Unclosed tag, expected '" ++ String.ofList d.closer ++ "'"
  | unclosedComment => "Unclosed comment, expected '#\x7d'"
  | unclosedVerbatim keyword =>
      "Unclosed '" ++ keyword ++ "' block, expected '\x7b% end" ++ keyword ++ " %\x7d'"
  | unclosedString => "Unclosed string literal"
  | strayCharacter c =>
      "Unexpected character " ++ String.ofList (Text.quoted [c]) ++ " in expression"

def code : ScanFault → ErrorCode
  | unclosedTag _ | unclosedVerbatim _ => .unclosedTag
  | unclosedComment => .unclosedComment
  | unclosedString => .unclosedString
  | strayCharacter _ => .unexpectedCharacter

end ScanFault

inductive BlockKind
  | branch
  | loop
  | while
  | block
  | spaceless
  | autoescape
  deriving DecidableEq, Repr

namespace BlockKind

def keyword : BlockKind → String
  | branch => "if"
  | loop => "for"
  | .while => "while"
  | block => "block"
  | spaceless => "spaceless"
  | autoescape => "autoescape"

def endKeyword (k : BlockKind) : String := "end" ++ k.keyword

end BlockKind

def statementKeywords : List String :=
  ["if", "for", "while", "block", "extends", "include", "set", "spaceless", "autoescape", "debug"]

def continuationKeywords : List String :=
  ["end", "endif", "endfor", "endwhile", "endblock", "endspaceless", "endautoescape", "else",
   "elseif", "elif", "empty"]

inductive GrammarCause
  | expected (kind : TokenKind) (got : Option Token)
  | unexpectedOperand (got : Option Token)
  | expectedTestName
  | testKeyword
  | expectedFilterName
  | expectedAttribute
  | positionalAfterKeyword
  | unexpectedToken (text : String)
  | closesNothing (keyword : String)
  | emptyOutput
  | expectedKeyword
  | unknownTag (name : String)
  | nestingTooDeep (limit : Int)
  | unclosedBlock (kind : BlockKind) (line : Nat)
  | wrongEnd (kind : BlockKind) (line : Nat) (got : String)
  | expectedIn
  | tooManyTargets
  | unknownMode (mode : String)
  | expectedBlockName
  | parentInsideBlock
  | secondParent (first : String)
  | expectedTemplateName (keyword : String)
  | emptyTemplateName
  | stuck
  deriving DecidableEq, Repr

/-- A cause, and the token it was found at; none at the end of the source. -/
structure GrammarFault where
  cause : GrammarCause
  token : Option Token
  deriving DecidableEq, Repr

namespace GrammarCause

def describeKind : TokenKind → String
  | .name => "name"
  | .string => "string"
  | .integer => "integer"
  | .decimal => "float"
  | .data => "'data'"
  | .opening d => "'" ++ String.ofList d.opener ++ "'"
  | .closing d => "'" ++ String.ofList d.closer ++ "'"
  | .symbol s => "'" ++ String.ofList s.text ++ "'"

def describeToken : Option Token → String
  | none => "end of template"
  | some t =>
      match t.kind with
      | .name => "name '" ++ t.text ++ "'"
      | .string => "string " ++ String.ofList (Text.quoted t.text.toList)
      | _ => "'" ++ t.text ++ "'"

def operandText : Option Token → String
  | none => "''"
  | some t =>
      match t.kind with
      | .closing _ => "end of expression"
      | _ => String.ofList (Text.quoted t.text.toList)

def message : GrammarCause → String
  | expected kind got => "Expected " ++ describeKind kind ++ ", got " ++ describeToken got
  | unexpectedOperand got => "Unexpected " ++ operandText got
  | expectedTestName => "Expected test name after 'is'"
  | testKeyword => "Tests do not accept keyword arguments"
  | expectedFilterName => "Expected filter name after '|'"
  | expectedAttribute => "Expected attribute name after '.'"
  | positionalAfterKeyword => "Positional argument follows keyword argument"
  | unexpectedToken text => "Unexpected token '" ++ text ++ "'"
  | closesNothing keyword => "Unexpected '\x7b% " ++ keyword ++ " %\x7d' with no open block"
  | emptyOutput => "Empty expression"
  | expectedKeyword => "Expected statement keyword after '\x7b%'"
  | unknownTag name => "Unknown tag '" ++ name ++ "'"
  | nestingTooDeep limit => "Maximum nesting level (" ++ toString limit ++ ") exceeded"
  | unclosedBlock kind line =>
      "Unclosed '" ++ kind.keyword ++ "' block started at line " ++ toString line
  | wrongEnd kind line got =>
      "Expected end of '" ++ kind.keyword ++ "' block (opened at line " ++ toString line ++
        "), got '" ++ got ++ "'"
  | expectedIn => "Expected 'in' in for loop"
  | tooManyTargets => "A for loop binds at most two names (key, value)"
  | unknownMode mode => "Unknown autoescape mode '" ++ mode ++ "'"
  | expectedBlockName => "Expected block name"
  | parentInsideBlock => "\x7b% extends %\x7d must appear at the top level of a template"
  | secondParent first => "Template already extends '" ++ first ++ "'"
  | expectedTemplateName keyword =>
      "\x7b% " ++ keyword ++ " %\x7d requires a string literal template name"
  | emptyTemplateName => "Template name cannot be empty"
  | stuck => "No progress"

def suggestion? : GrammarCause → Option String
  | expectedTestName =>
      some "Use a test such as 'defined', 'null', 'empty', 'odd' or 'iterable'"
  | unknownTag name =>
      (Text.closest? name statementKeywords).map fun keyword =>
        "Did you mean '\x7b% " ++ keyword ++ " %\x7d'?"
  | unclosedBlock kind _ =>
      some ("Add \x7b% " ++ kind.endKeyword ++ " %\x7d or \x7b% end %\x7d")
  | wrongEnd kind _ _ =>
      some ("Close '" ++ kind.keyword ++ "' with \x7b% " ++ kind.endKeyword ++
        " %\x7d or \x7b% end %\x7d")
  | expectedIn =>
      some "Use \x7b% for item in items %\x7d or \x7b% for key, value in mapping %\x7d"
  | unknownMode _ => some "Use \x7b% autoescape false %\x7d or \x7b% autoescape true %\x7d"
  | secondParent _ => some "A template can extend only one parent"
  | expectedTemplateName keyword => some ("Use \x7b% " ++ keyword ++ " \"name.html\" %\x7d")
  | _ => none

def code : GrammarCause → ErrorCode
  | unexpectedOperand _ | expectedFilterName | emptyOutput => .invalidExpression
  | unknownTag _ => .unknownTag
  | nestingTooDeep _ => .nestingTooDeep
  | unclosedBlock _ _ | wrongEnd _ _ _ => .unclosedBlock
  | _ => .unexpectedToken

end GrammarCause

end Stencil
