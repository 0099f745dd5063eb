import Stencil.Diagnostic.Basic

namespace Stencil

inductive ZeroDivision
  | whole
  | float
  | wholeRemainder
  | floatRemainder
  deriving DecidableEq, Repr

/-- The failures of computing with values. Types are given by their names. -/
inductive Fault
  | unsupportedOperands (op left right : String)
  | badOperand (op type : String)
  | cannotJoin (type other : String)
  | cannotRepeat (type : String)
  | notOrdered (op left right : String)
  | notIterable (type : String)
  | notCallable (type : String)
  | notHashable (type : String)
  | noLength (type : String)
  | noWholeNumber (type : String)
  | wrongType (message : String)
  | wrongArguments (message : String)
  | badNumeral (shown : String)
  | longNumeral (digits : Nat)
  | badValue (message : String)
  | zeroDivision (how : ZeroDivision)
  | tooLarge (message : String)
  /-- Decimal places that no quantity can be rounded to. -/
  | badPlaces (signal : String)
  | missingKey (shown : String)
  | failure (message : String)
  | systemFailure (message : String)
  | noSuchFile (path : String)
  | accessDenied (path : String)
  /-- Bytes that are not the UTF-8 of a text. -/
  | undecodable (message : String)
  /-- A variable of a function that is read before it is assigned. -/
  | unassigned (id : String)
  /-- A template that cannot be carried out. -/
  | unsupported (message : String)
  | diagnostic (d : Diagnostic)
  /-- A loop was not finished within the rounds that it was given. -/
  | endless
  /-- More calls are open than there is room for. -/
  | overflow
  deriving DecidableEq, Repr

namespace Fault

def kind : Fault → String
  | unsupportedOperands _ _ _ | badOperand _ _ | cannotJoin _ _ | cannotRepeat _
  | notOrdered _ _ _ | notIterable _ | notCallable _ | notHashable _ | noLength _
  | noWholeNumber _ | wrongType _ | wrongArguments _ => "TypeError"
  | badNumeral _ | longNumeral _ | badValue _ => "ValueError"
  | zeroDivision _ => "ZeroDivisionError"
  | tooLarge _ => "OverflowError"
  | badPlaces signal => signal
  | missingKey _ => "KeyError"
  | failure _ => "RuntimeError"
  | systemFailure _ => "OSError"
  | noSuchFile _ => "FileNotFoundError"
  | accessDenied _ => "PermissionError"
  | undecodable _ => "UnicodeDecodeError"
  | unassigned _ => "UnboundLocalError"
  | unsupported _ => "SyntaxError"
  | diagnostic d => d.kind
  | endless => "RuntimeError"
  | overflow => "RecursionError"

def message : Fault → String
  | unsupportedOperands op left right =>
      "unsupported operand type(s) for " ++ op ++ ": '" ++ left ++ "' and '" ++ right ++ "'"
  | badOperand op type => "bad operand type for unary " ++ op ++ ": '" ++ type ++ "'"
  | cannotJoin type other =>
      "can only concatenate " ++ type ++ " (not \"" ++ other ++ "\") to " ++ type
  | cannotRepeat type => "can't multiply sequence by non-int of type '" ++ type ++ "'"
  | notOrdered op left right =>
      "'" ++ op ++ "' not supported between instances of '" ++ left ++ "' and '" ++ right ++ "'"
  | notIterable type => "'" ++ type ++ "' object is not iterable"
  | notCallable type => "'" ++ type ++ "' object is not callable"
  | notHashable type => "unhashable type: '" ++ type ++ "'"
  | noLength type => "object of type '" ++ type ++ "' has no len()"
  | noWholeNumber type =>
      "int() argument must be a string, a bytes-like object or a real number, not '" ++ type ++ "'"
  | wrongType message | wrongArguments message => message
  | badNumeral shown => "invalid literal for int() with base 10: " ++ shown
  | longNumeral digits =>
      "Exceeds the limit (4300 digits) for integer string conversion: value has " ++
        toString digits ++ " digits; use sys.set_int_max_str_digits() to increase the limit"
  | badValue message => message
  | zeroDivision .whole => "division by zero"
  | zeroDivision .float => "float division by zero"
  | zeroDivision .wholeRemainder => "integer modulo by zero"
  | zeroDivision .floatRemainder => "float modulo"
  | tooLarge message => message
  | badPlaces signal => "[<class 'decimal." ++ signal ++ "'>]"
  | missingKey shown => shown
  | failure message | systemFailure message | unsupported message | undecodable message => message
  | noSuchFile path => "[Errno 2] No such file or directory: '" ++ path ++ "'"
  | accessDenied path => "[Errno 13] Permission denied: '" ++ path ++ "'"
  | unassigned id =>
      "cannot access local variable '" ++ id ++ "' where it is not associated with a value"
  | diagnostic d => d.message.text
  | endless => "endless loop"
  | overflow => "maximum recursion depth exceeded"

/-- Whether a fault is one of types or of values; bytes that are no text are one of values. -/
def speaksForItself (f : Fault) : Bool :=
  f.kind == "TypeError" || f.kind == "ValueError" || f.kind == "UnicodeDecodeError"

end Fault

end Stencil
