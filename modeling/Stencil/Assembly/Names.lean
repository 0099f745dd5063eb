import Stencil.Diagnostic.Basic
import Stencil.Expr.Basic
import Stencil.Registry.Basic

namespace Stencil

section Check

variable (r : Registries) (template : Option String)

def checkName (kind : NameKind) (t : Table) (pos : Pos) (name : String) : Except Fault Unit :=
  if ((r.table t).lookup name).isSome then .ok ()
  else .error
    (.diagnostic (.unknownName ⟨kind, name, (r.table t).map (·.1), template, some pos.line⟩))

variable (locals : List String)

mutual

/-- Checks the names in an expression. A bare name that is called is a function, unless it is a
loop variable. -/
def checkExpr : Expr → Except Fault Unit
  | .const _ _ | .name _ _ => .ok ()
  | .list _ items => checkAll items
  | .dict _ entries => do
      checkKeys entries
      checkValues entries
  | .attr _ object _ => checkExpr object
  | .item _ object key => do
      checkExpr object
      checkExpr key
  | .call pos (.name _ name) args named => do
      checkAll args
      checkNamed named
      if locals.contains name then return ()
      else checkName r template .function .functions pos name
  | .call _ callee args named => do
      checkAll args
      checkNamed named
      checkExpr callee
  | .filter pos value name args named => do
      checkName r template .filter .filters pos name
      checkExpr value
      checkAll args
      checkNamed named
  | .test pos value name args _ => do
      checkName r template .test .tests pos name
      checkExpr value
      checkAll args
  | .arith _ _ left right => do
      checkExpr left
      checkExpr right
  | .sign _ _ operand => checkExpr operand
  | .compare _ first links => do
      checkExpr first
      checkLinks links
  | .logic _ _ parts => checkAll parts
  | .choice _ condition ifTrue ifFalse => do
      checkExpr condition
      checkExpr ifTrue
      checkExpr ifFalse
  | .range _ first last => do
      checkExpr first
      checkExpr last
  | .concat _ parts => checkAll parts

def checkAll : List Expr → Except Fault Unit
  | [] => .ok ()
  | e :: rest => do
      checkExpr e
      checkAll rest

def checkNamed : List (String × Expr) → Except Fault Unit
  | [] => .ok ()
  | (_, e) :: rest => do
      checkExpr e
      checkNamed rest

def checkKeys : List (Expr × Expr) → Except Fault Unit
  | [] => .ok ()
  | (key, _) :: rest => do
      checkExpr key
      checkKeys rest

def checkValues : List (Expr × Expr) → Except Fault Unit
  | [] => .ok ()
  | (_, e) :: rest => do
      checkExpr e
      checkValues rest

def checkLinks : List (CompareOp × Expr) → Except Fault Unit
  | [] => .ok ()
  | (_, e) :: rest => do
      checkExpr e
      checkLinks rest

end

end Check

end Stencil
