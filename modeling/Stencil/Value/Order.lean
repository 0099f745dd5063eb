import Stencil.Value.Equality
import Stencil.Value.Fault

/-!
The order of values. Numbers are ordered by value, strings by their characters, sequences by their
first difference; most other pairs have no order. A missing value is never less or greater.
-/

namespace Stencil.Value

inductive OrderOp
  | lt | le | gt | ge
  deriving DecidableEq, Repr

namespace OrderOp

def text : OrderOp → String
  | lt => "<" | le => "<=" | gt => ">" | ge => ">="

def holds : OrderOp → Ordering → Bool
  | lt, .lt => true
  | le, .lt | le, .eq => true
  | gt, .gt => true
  | ge, .gt | ge, .eq => true
  | _, _ => false

end OrderOp

/-- The order of two numbers; there is none if one of them is not a number. -/
def Worth.order : Worth → Worth → Option Ordering
  | .int a, .int b => some (compare a b)
  | .float a, .float b =>
      if a < b then some .lt else if a > b then some .gt else if a == b then some .eq else none
  | .int a, .float b => Decimal.compareIntFloat a b
  | .float a, .int b => (Decimal.compareIntFloat b a).map Ordering.swap

def compareMoments (a b : Moment) : Option Ordering :=
  match a.offset, b.offset with
  | none, none => some (compare a.localMicros b.localMicros)
  | some x, some y => some (compare (a.localMicros - x) (b.localMicros - y))
  | _, _ => none

section

variable (op : OrderOp)

def orderFlat (a b : Value) : Except Fault Bool :=
  let refused : Except Fault Bool := .error (.notOrdered op.text a.typeName b.typeName)
  match a, b with
  | undefined, _ | _, undefined => .ok false
  | date x, date y => .ok (op.holds (compare x.ordinal y.ordinal))
  | moment x, moment y =>
      match compareMoments x y with
      | some o => .ok (op.holds o)
      | none => .error (.wrongType "can't compare offset-naive and offset-aware datetimes")
  | moment _, date _ | date _, moment _ =>
      .error (.wrongType ("can't compare " ++ "datetime.datetime to datetime.date"))
  | bytes x, bytes y => .ok (op.holds (compareOfLessAndEq x y))
  | _, _ =>
      match a.worth?, b.worth? with
      | some x, some y => .ok ((x.order y).any op.holds)
      | _, _ =>
          match a.text?, b.text? with
          | some x, some y => .ok (op.holds (compareOfLessAndEq x y))
          | _, _ => refused

mutual

def order (a b : Value) : Except Fault Bool :=
  match a with
  | list as =>
      match b with
      | list bs => orderAll as bs
      | b => orderFlat op (list []) b
  | tuple as =>
      match b with
      | tuple bs => orderAll as bs
      | b => orderFlat op (tuple []) b
  | a => orderFlat op a b

def orderAll : List Value → List Value → Except Fault Bool
  | [], [] => .ok (op.holds .eq)
  | [], _ :: _ => .ok (op.holds .lt)
  | _ :: _, [] => .ok (op.holds .gt)
  | a :: as, b :: bs => if beq a b then orderAll as bs else order a b

end

end

end Stencil.Value
