import Stencil.Decimal.Numeral
import Stencil.Decimal.Shortest
import Stencil.Text.Quoted
import Stencil.Token.Basic

namespace Stencil

/-- A constant. A decimal is kept as it was written: its digits and how many follow the point. -/
inductive Literal
  | null
  | bool (b : Bool)
  | nat (n : Nat)
  | decimal (digits places : Nat)
  | string (s : String)
  deriving DecidableEq, Repr, Inhabited

namespace Literal

def decimalValue (digits places : Nat) : Float :=
  Decimal.floatOfDecimal false digits (-(places : Int))

def text : Literal → String
  | null => "None"
  | bool true => "True"
  | bool false => "False"
  | nat n => toString n
  | decimal digits places => String.ofList (Decimal.floatText (decimalValue digits places))
  | string s => String.ofList (Text.quoted s.toList)

end Literal

inductive ArithOp
  | add | sub | mul | div | mod
  deriving DecidableEq, Repr

inductive SignOp
  | not | neg | pos
  deriving DecidableEq, Repr

inductive CompareOp
  | eq | ne | lt | gt | le | ge | isIn | notIn | startsWith | endsWith
  deriving DecidableEq, Repr

inductive LogicOp
  | and | or
  deriving DecidableEq, Repr

namespace ArithOp

def text : ArithOp → String
  | add => "+" | sub => "-" | mul => "*" | div => "/" | mod => "%"

end ArithOp

namespace SignOp

def text : SignOp → String
  | not => "not" | neg => "-" | pos => "+"

end SignOp

namespace CompareOp

def text : CompareOp → String
  | eq => "==" | ne => "!=" | lt => "<" | gt => ">" | le => "<=" | ge => ">="
  | isIn => "in" | notIn => "not in" | startsWith => "starts with" | endsWith => "ends with"

end CompareOp

namespace LogicOp

def text : LogicOp → String
  | and => "and" | or => "or"

end LogicOp

/-- An expression. A comparison chain has at least one link, a logical chain and a concatenation at
least two parts. A call names a registered function if its callee is a bare name. -/
inductive Expr
  | const (pos : Pos) (value : Literal)
  | name (pos : Pos) (name : String)
  | list (pos : Pos) (items : List Expr)
  | dict (pos : Pos) (entries : List (Expr × Expr))
  | attr (pos : Pos) (object : Expr) (name : String)
  | item (pos : Pos) (object key : Expr)
  | call (pos : Pos) (callee : Expr) (args : List Expr) (kwargs : List (String × Expr))
  | filter (pos : Pos) (value : Expr) (name : String) (args : List Expr)
      (kwargs : List (String × Expr))
  | test (pos : Pos) (value : Expr) (name : String) (args : List Expr) (negated : Bool)
  | arith (pos : Pos) (op : ArithOp) (left right : Expr)
  | sign (pos : Pos) (op : SignOp) (operand : Expr)
  | compare (pos : Pos) (first : Expr) (links : List (CompareOp × Expr))
  | logic (pos : Pos) (op : LogicOp) (parts : List Expr)
  | choice (pos : Pos) (condition ifTrue ifFalse : Expr)
  | range (pos : Pos) (first last : Expr)
  | concat (pos : Pos) (parts : List Expr)
  deriving Repr, Inhabited

namespace Expr

def pos : Expr → Pos
  | const p _ | name p _ | list p _ | dict p _ | attr p _ _ | item p _ _ | call p _ _ _
  | filter p _ _ _ _ | test p _ _ _ _ | arith p _ _ _ | sign p _ _ | compare p _ _ | logic p _ _
  | choice p _ _ _ | range p _ _ | concat p _ => p

def label : Expr → String
  | name _ n => n
  | attr _ object n => object.label ++ "." ++ n
  | item _ object (const _ key) => object.label ++ "[" ++ key.text ++ "]"
  | item _ object key => object.label ++ "[" ++ key.label ++ "]"
  | filter _ value n _ _ => value.label ++ "|" ++ n
  | const _ value => value.text
  | _ => "expression"

end Expr

end Stencil
