import Stencil.Expr.Basic

namespace Stencil

structure Binder where
  pos : Pos
  name : String
  deriving DecidableEq, Repr, Inhabited

/-- What a loop binds: the item, or a key and a value. -/
inductive Target
  | one (item : Binder)
  | pair (key value : Binder)
  deriving DecidableEq, Repr, Inhabited

namespace Target

def binders : Target → List Binder
  | one item => [item]
  | pair key value => [key, value]

def names (t : Target) : List String := t.binders.map Binder.name

def isPair : Target → Bool
  | one _ => false
  | pair _ _ => true

end Target

inductive Stmt
  | text (pos : Pos) (value : String)
  | output (pos : Pos) (value : Expr) (escape : Bool)
  | branch (pos : Pos) (condition : Expr) (body : List Stmt) (others : List (Expr × List Stmt))
      (otherwise : List Stmt)
  | loop (pos : Pos) (target : Target) (items : Expr) (body empty : List Stmt)
  | while (pos : Pos) (condition : Expr) (body : List Stmt)
  | block (pos : Pos) (name : String) (body : List Stmt)
  | include (pos : Pos) (template : String)
  | set (pos : Pos) (target : Binder) (value : Expr)
  | spaceless (pos : Pos) (body : List Stmt)
  | debug (pos : Pos) (value : Option Expr) (label : String)
  deriving Repr, Inhabited

structure Parent where
  pos : Pos
  template : String
  deriving DecidableEq, Repr, Inhabited

/-- A template: its statements, and the parent whose blocks it fills. -/
structure Template where
  body : List Stmt
  parent : Option Parent
  deriving Repr, Inhabited

end Stencil
