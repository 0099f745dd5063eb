import Stencil.Call.Signature
import Stencil.Value.Number
import Stencil.Value.Order

namespace Stencil.Range

/-- How many numbers there are from a first one to a stop that is left out, in steps of a size that
is not zero. -/
def count (first stop step : Int) : Nat :=
  if 0 < step then ((stop - first - 1) / step + 1).toNat else ((first - stop - 1) / -step + 1).toNat

def before (first stop step : Int) : List Int :=
  (List.range (count first stop step)).map fun (i : Nat) => first + i * step

/-- The stop for a last number that is included: it lies next to it, on the side that the step leads
to. -/
def stopBehind (last step : Int) : Int := if 0 < step then last + 1 else last - 1

/-- The whole numbers from a first one to a last one that is included. -/
def wholes (first last step : Int) : List Int := before first (stopBehind last step) step

def stepFault (a b : Value) : Fault → Fault
  | .unsupportedOperands _ _ _ => .unsupportedOperands "+=" a.typeName b.typeName
  | .cannotJoin "list" _ => .notIterable b.typeName
  | fault => fault

def next (a step : Value) : Except Fault Value :=
  match Value.add a step with
  | .ok v => .ok v
  | .error fault => .error (stepFault a step fault)

/-- Counts while the values compare to the last one as `op` says, for at most so many rounds. -/
def countWithin (op : Value.OrderOp) (last step : Value) :
    (rounds : Nat) → (reached : List Value) → (current : Value) → Except Fault (List Value)
  | 0, _, _ => .error .endless
  | rounds + 1, reached, current =>
      match Value.order op current last with
      | .error fault => .error fault
      | .ok false => .ok reached.reverse
      | .ok true =>
          match next current step with
          | .error fault => .error fault
          | .ok v => countWithin op last step rounds (current :: reached) v

def mostRounds : Nat := 10000000

/-- The values from a first one to a last one, counted up or down as the step says. -/
def counted (rounds : Nat) (first last step : Value) : Except Fault (List Value) := do
  let up ← Value.order .gt step (.int 0)
  countWithin (if up then .le else .ge) last step rounds [] first

/-- The values from a first one to a last one. Whole numbers are listed at once; other values are
counted. -/
def inclusive (first last step : Value) : Except Fault (List Value) :=
  if Value.beq step (.int 0) then .error (.badValue "range() step cannot be zero")
  else
    match first.int?, last.int?, step.int? with
    | some a, some b, some s => .ok ((wholes a b s).map Value.int)
    | _, _, _ => counted mostRounds first last step

def signature : Signature :=
  ⟨"inclusive_range", [⟨"start", none⟩, ⟨"end", none⟩, ⟨"step", some (.int 1)⟩]⟩

def call (a : Arguments) : Except Fault Value := do
  match ← signature.bind a with
  | [first, last, step] => return .list (← inclusive first last step)
  | _ => return .null

end Stencil.Range
