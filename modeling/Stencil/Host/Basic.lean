import Stencil.Call.Signature
import Stencil.Render.World

/-!
What the host of a template offers: functions, and those attributes and methods of values that are
not known here. Host code sees values and what is behind them. It answers with a value or a fault,
and may note values down, go through loops and use up generators.
-/

namespace Stencil

structure HostAnswer where
  result : Except Fault Value
  notes : List Value := []
  /-- The loops that were gone through, each with the index at which it stands afterwards. -/
  moved : List (Nat × Nat) := []
  /-- How many items were taken from generators. -/
  taken : List (Nat × Nat) := []

structure Host where
  /-- The answer of a function or a method. -/
  call : Heap → (callee : Value) → Arguments → HostAnswer
  attribute? : Heap → Value → (name : String) → Option Value := fun _ _ _ => none

/-- A host whose functions give null, and that offers nothing else. -/
def Host.bare : Host where
  call _ _ _ := { result := .ok .null }

namespace World

def moveLoops (w : World) : List (Nat × Nat) → World
  | [] => w
  | (id, index) :: rest => (w.moveLoop id index).moveLoops rest

def record (w : World) (a : HostAnswer) : World :=
  { w with
    notes := w.notes ++ a.notes
    generators := a.taken.foldl (fun g e => g.modify e.1 (·.drop e.2)) w.generators }

def settle (w : World) (a : HostAnswer) : World := (w.record a).moveLoops a.moved

end World

end Stencil
