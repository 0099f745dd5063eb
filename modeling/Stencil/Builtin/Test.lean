import Stencil.Call.Signature
import Stencil.Decimal.Numeral

namespace Stencil

namespace Test

inductive Name
  | array | boolean | callable | defined | divisibleBy | empty | even | float | integer | iterable
  | mapping | null | number | object | odd | sequence | string | undefined
  deriving DecidableEq, Repr

def Name.text : Name → String
  | .array => "array" | .boolean => "bool" | .callable => "callable" | .defined => "defined"
  | .divisibleBy => "divisible_by" | .empty => "empty" | .even => "even" | .float => "float"
  | .integer => "integer" | .iterable => "iterable" | .mapping => "mapping" | .null => "null"
  | .number => "number" | .object => "object" | .odd => "odd" | .sequence => "sequence"
  | .string => "string" | .undefined => "undefined"

def registered : List (String × Name) :=
  [("array", .array), ("bool", .boolean), ("boolean", .boolean), ("callable", .callable),
   ("defined", .defined), ("divisibleby", .divisibleBy), ("empty", .empty), ("even", .even),
   ("float", .float), ("int", .integer), ("integer", .integer), ("iterable", .iterable),
   ("mapping", .mapping), ("none", .null), ("null", .null), ("number", .number),
   ("numeric", .number), ("object", .object), ("odd", .odd), ("sequence", .sequence),
   ("string", .string), ("undefined", .undefined)]

def Name.signature (n : Name) : Signature :=
  ⟨"_test_" ++ n.text,
    ⟨"value", none⟩ :: if n = .divisibleBy then [⟨"num", none⟩] else []⟩

/-- The whole number that a value is or writes. Truth values are none. -/
def wholeNumber? : Value → Option Int
  | .int i => some i
  | .float f => if Decimal.isWhole f then Decimal.truncate? f else none
  | .str s | .markup s => (Decimal.readInt s.toList).toOption
  | _ => none

def isNull : Value → Bool
  | .null | .undefined => true
  | _ => false

/-- Whether a value counts as a collection. Texts do not; an object of the host does, even one that
refuses to be gone through. -/
def isIterable : Value → Bool
  | .list _ | .tuple _ | .dict _ | .view _ _ | .object _ _ _ _ | .loop _ | .generator _ => true
  | _ => false

def isNumber : Value → Bool
  | .int _ | .float _ => true
  | .str s | .markup s => (Decimal.readFloat? s.toList).isSome
  | _ => false

def isObject : Value → Bool
  | .date _ | .moment _ | .object _ _ _ _ | .html _ _ | .function _ | .method _ _ | .view _ _
  | .loop _ | .generator _ => true
  | _ => false

def passes (n : Name) (v : Value) (args : List Value) : Bool :=
  match n with
  | .array => match v with
    | .list _ | .tuple _ | .dict _ => true
    | _ => false
  | .boolean => match v with
    | .bool _ => true
    | _ => false
  | .callable => v.isCallable && !isNull v
  | .defined => !isNull v
  | .divisibleBy =>
      match wholeNumber? v, (args.head?.bind wholeNumber?) with
      | some n, some d => d ≠ 0 && n % d == 0
      | _, _ => false
  | .empty => !v.truthy
  | .even => (wholeNumber? v).any (· % 2 == 0)
  | .float => match v with
    | .float _ => true
    | _ => false
  | .integer => match v with
    | .int _ => true
    | _ => false
  | .iterable => isIterable v
  | .mapping => match v with
    | .dict _ => true
    | _ => false
  | .null => isNull v
  | .number => isNumber v
  | .object => isObject v
  | .odd => (wholeNumber? v).any (· % 2 != 0)
  | .sequence => match v with
    | .list _ | .tuple _ | .str _ | .markup _ => true
    | _ => false
  | .string => v.text?.isSome
  | .undefined => isNull v

def call (n : Name) (a : Arguments) : Except Fault Value := do
  match ← n.signature.bind a with
  | v :: args => return .bool (passes n v args)
  | [] => return .null

end Test

end Stencil
