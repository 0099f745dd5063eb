import Stencil.Time.Calendar

/-!
The values that templates compute with. Loops and generators change while a template is rendered,
so a value only names them; everything else is fixed.
-/

namespace Stencil

inductive ViewKind
  | keys
  | values
  | items
  deriving DecidableEq, Repr

inductive Value
  | null
  | bool (b : Bool)
  | int (i : Int)
  | float (f : Float)
  | str (s : String)
  /-- A text that is safe to be put into HTML as it is. -/
  | markup (s : String)
  | list (items : List Value)
  | tuple (items : List Value)
  /-- Entries in the order in which their keys were first set. -/
  | dict (entries : List (Value × Value))
  /-- What a missing variable, key or attribute stands for. -/
  | undefined
  | date (d : Date)
  | moment (m : Moment)
  | bytes (bs : List UInt8)
  /-- An object of the host, equal to itself alone. Its items can be read by subscript. -/
  | object (id : Nat) (type : String) (attrs : List (String × Value))
      (items : Option (List (Value × Value)))
  /-- An object of the host that knows its own HTML text. -/
  | html (id : Nat) (text : String)
  | function (name : String)
  | method (self : Value) (name : String)
  | view (kind : ViewKind) (entries : List (Value × Value))
  | loop (id : Nat)
  | generator (id : Nat)
  deriving Inhabited

namespace Value

def typeName : Value → String
  | null => "NoneType"
  | bool _ => "bool"
  | int _ => "int"
  | float _ => "float"
  | str _ => "str"
  | markup _ => "Markup"
  | list _ => "list"
  | tuple _ => "tuple"
  | dict _ => "dict"
  | undefined => "Undefined"
  | date _ => "datetime.date"
  | moment _ => "datetime.datetime"
  | bytes _ => "bytes"
  | object _ type _ _ => type
  | html _ _ => "Html"
  | function _ => "function"
  | method (loop _) _ => "method"
  | method _ _ => "builtin_function_or_method"
  | view .keys _ => "dict_keys"
  | view .values _ => "dict_values"
  | view .items _ => "dict_items"
  | loop _ => "LoopContext"
  | generator _ => "generator"

def shortTypeName : Value → String
  | date _ => "date"
  | moment _ => "datetime"
  | v => v.typeName

def truthy : Value → Bool
  | null | undefined => false
  | bool b => b
  | int i => i ≠ 0
  | float f => f != 0
  | str s | markup s => s ≠ ""
  | list items | tuple items => !items.isEmpty
  | dict entries | view _ entries => !entries.isEmpty
  | bytes bs => !bs.isEmpty
  | date _ | moment _ | object _ _ _ _ | html _ _ | function _ | method _ _ | loop _
  | generator _ => true

def text? : Value → Option String
  | str s | markup s => some s
  | _ => none

def int? : Value → Option Int
  | int i => some i
  | bool b => some (if b then 1 else 0)
  | _ => none

def size? : Value → Option Nat
  | str s | markup s => some s.length
  | list items | tuple items => some items.length
  | dict entries | view _ entries => some entries.length
  | bytes bs => some bs.length
  | undefined => some 0
  | _ => none

def isCallable : Value → Bool
  | function _ | method _ _ | undefined => true
  | _ => false

end Value

end Stencil
