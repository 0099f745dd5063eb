import Stencil.Expr.Basic
import Stencil.Render.Call
import Stencil.Value.Format

namespace Stencil

namespace Literal

def value : Literal → Value
  | null => .null
  | bool b => .bool b
  | nat n => .int n
  | decimal digits places => .float (decimalValue digits places)
  | string s => .str s

end Literal

def quietFilters : List String := ["default"]

def quietTests : List String := ["defined", "undefined", "null", "none", "empty"]

/-- A dictionary of entries in order; a later entry replaces an earlier one with an equal key. -/
def buildDict (entries : List (Value × Value)) : Except Fault Value :=
  match entries.findSome? fun e => e.1.unhashable? with
  | some type => .error (.notHashable type)
  | none => .ok (.dict (entries.foldl (fun acc e => Value.setEntry e.1 e.2 acc) []))

namespace ArithOp

def apply (op : ArithOp) (loopText : Nat → List Char) (a b : Value) : Except Fault Value :=
  match op with
  | add => Value.add a b
  | sub => Value.subtract a b
  | mul => Value.multiply a b
  | div => Value.divide a b
  | mod => Value.modulo loopText a b

end ArithOp

namespace SignOp

def apply (op : SignOp) (v : Value) : Except Fault Value :=
  match op with
  | not => .ok (.bool !v.truthy)
  | neg => v.negate
  | pos => v.affirm

end SignOp

namespace CompareOp

def isMembership : CompareOp → Bool
  | isIn | notIn => true
  | _ => false

def apply (op : CompareOp) (a b : Value) : Eval Bool :=
  match op with
  | eq => return Value.beq a b
  | ne => return !Value.beq a b
  | lt => Eval.ofExcept (Value.order .lt a b)
  | gt => Eval.ofExcept (Value.order .gt a b)
  | le => Eval.ofExcept (Value.order .le a b)
  | ge => Eval.ofExcept (Value.order .ge a b)
  | isIn => b.holds a
  | notIn => return !(← b.holds a)
  | startsWith => Eval.withLoopText fun loopText =>
      .ok (Text.beginsWith (b.textOf loopText) (a.textOf loopText))
  | endsWith => Eval.withLoopText fun loopText =>
      .ok (Text.beginsWith (b.textOf loopText).reverse (a.textOf loopText).reverse)

end CompareOp

namespace LogicOp

def stopsAt (op : LogicOp) (v : Value) : Bool :=
  match op with
  | and => !v.truthy
  | or => v.truthy

end LogicOp

section Evaluate

variable (s : Setting)

mutual

def evaluate : Expr → Eval Value
  | .const _ value => return value.value
  | .name _ name => s.variableOf name
  | .list _ items => return .list (← evaluateAll items)
  | .dict _ entries => do Eval.ofExcept (buildDict (← evaluateEntries entries))
  | .attr _ object name => do s.access (← evaluate object) (.str name)
  | .item _ object key => do
      let v ← evaluate object
      s.access v (← evaluate key)
  | .call _ (.name _ name) args named => do
      match (← get).locals.lookup name with
      | some f =>
          let positional ← evaluateAll args
          s.callValue f ⟨positional, ← evaluateNamed named⟩
      | none =>
          let positional ← evaluateAll args
          s.callFunction name ⟨positional, ← evaluateNamed named⟩
  | .call _ callee args named => do
      let f ← evaluate callee
      let positional ← evaluateAll args
      s.callValue f ⟨positional, ← evaluateNamed named⟩
  | .filter _ value name args named => do
      let v ← if quietFilters.contains name then Eval.quietly (evaluate value) else evaluate value
      let positional ← evaluateAll args
      s.callFilter name v ⟨positional, ← evaluateNamed named⟩
  | .test _ value name args negated => do
      let v ← if quietTests.contains name then Eval.quietly (evaluate value) else evaluate value
      let holds ← s.callTest name v (← evaluateAll args)
      return .bool (holds != negated)
  | .arith _ op left right => do
      let a ← evaluate left
      let b ← evaluate right
      Eval.withLoopText fun loopText => op.apply loopText a b
  | .sign _ op operand => do Eval.ofExcept (op.apply (← evaluate operand))
  | .compare _ first [] => evaluate first
  | .compare _ first ((op, e) :: rest) => do
      if op.isMembership then
        let b ← evaluate e
        let a ← evaluate first
        evaluateLinks b (← op.apply a b) rest
      else
        let a ← evaluate first
        let b ← evaluate e
        evaluateLinks b (← op.apply a b) rest
  | .logic _ op parts => evaluateLogic op parts
  | .choice _ condition ifTrue ifFalse => do
      if (← evaluate condition).truthy then evaluate ifTrue else evaluate ifFalse
  | .range _ first last => do
      let a ← evaluate first
      let b ← evaluate last
      return .list (← Eval.ofExcept (Range.inclusive a b (.int 1)))
  | .concat _ parts => do
      let values ← evaluateAll parts
      Eval.withLoopText fun loopText =>
        .ok (.str (String.ofList (values.flatMap (Value.textOf loopText))))

def evaluateAll : List Expr → Eval (List Value)
  | [] => return []
  | e :: rest => do
      let v ← evaluate e
      return v :: (← evaluateAll rest)

def evaluateNamed : List (String × Expr) → Eval (List (String × Value))
  | [] => return []
  | (name, e) :: rest => do
      let v ← evaluate e
      return (name, v) :: (← evaluateNamed rest)

def evaluateEntries : List (Expr × Expr) → Eval (List (Value × Value))
  | [] => return []
  | (key, e) :: rest => do
      let k ← evaluate key
      let v ← evaluate e
      return (k, v) :: (← evaluateEntries rest)

/-- The pairs of a comparison chain after the first one, as long as the pairs before hold. -/
def evaluateLinks (left : Value) (holds : Bool) : List (CompareOp × Expr) → Eval Value
  | [] => return .bool holds
  | (op, e) :: rest => do
      if holds then
        let right ← evaluate e
        evaluateLinks right (← op.apply left right) rest
      else return .bool false

def evaluateLogic (op : LogicOp) : List Expr → Eval Value
  | [] => return .null
  | [e] => evaluate e
  | e :: rest => do
      let v ← evaluate e
      if op.stopsAt v then return v else evaluateLogic op rest

end

end Evaluate

end Stencil
