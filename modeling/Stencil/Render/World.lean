import Stencil.Registry.Basic

namespace Stencil

/-- A loop over items: the item it stands at, counted from zero, and the value of `loop` outside. -/
structure LoopState where
  items : List Value
  index : Nat
  parent : Value

namespace LoopState

def start (items : List Value) (parent : Value) : LoopState := ⟨items, 0, parent⟩

def neighbour (l : LoopState) (i : Option Nat) : Value := (i.bind fun i => l.items[i]?).getD .null

def previous (l : LoopState) : Value :=
  l.neighbour (if l.index = 0 then none else some (l.index - 1))

def next (l : LoopState) : Value := l.neighbour (some (l.index + 1))

def remaining (l : LoopState) : Int := (l.items.length : Int) - l.index

def shown (l : LoopState) : List Char :=
  ("<LoopContext " ++ toString (l.index + 1) ++ "/" ++ toString l.items.length ++ ">").toList

def cycle (l : LoopState) (values : List Value) : Value :=
  (values[l.index % values.length]?).getD .null

def attribute? (l : LoopState) (id : Nat) (name : String) : Option Value :=
  match name with
  | "index" => some (.int (l.index + 1))
  | "index0" => some (.int l.index)
  | "first" => some (.bool (l.index == 0))
  | "last" => some (.bool (l.index + 1 == l.items.length))
  | "length" => some (.int l.items.length)
  | "revindex" => some (.int l.remaining)
  | "revindex0" => some (.int (l.remaining - 1))
  | "parent" => some l.parent
  | "previtem" => some l.previous
  | "nextitem" => some l.next
  | "cycle" => some (.method (.loop id) "cycle")
  | "_index" => some (.int l.index)
  | "_length" => some (.int l.items.length)
  | "_items" => some (.list l.items)
  | "_parent" => some l.parent
  | _ => none

end LoopState

/-- The variables of a render. Entries under keys that are no names cannot be looked up, but they
are there. -/
structure Context where
  vars : List (String × Value)
  others : List (Value × Value) := []

namespace Context

def get? (c : Context) (name : String) : Option Value := c.vars.lookup name

def set (c : Context) (name : String) (v : Value) : Context :=
  { c with vars := setNamed name v c.vars }

def setAll (c : Context) (entries : List (String × Value)) : Context :=
  entries.foldl (fun c e => c.set e.1 e.2) c

def setKey (c : Context) (key value : Value) : Context :=
  match key.text? with
  | some name => c.set name value
  | none => { c with others := Value.setEntry key value c.others }

/-- The variables that a dictionary stands for; no other value stands for any. -/
def ofValue : Value → Context
  | .dict entries => entries.foldl (fun c e => c.setKey e.1 e.2) ⟨[], []⟩
  | _ => ⟨[], []⟩

def toDict (c : Context) : Value :=
  .dict ((c.vars.map fun (name, v) => (.str name, v)) ++ c.others)

end Context

/-- A reference to something that is missing: its name, what was missed, where, and the names that
there were. -/
structure Reference where
  name : String
  message : String
  line : Nat
  available : List String
  deriving DecidableEq, Repr

/-- What changes behind the values that name it: loops, and what generators have still to give. -/
structure Heap where
  loops : Array LoopState
  generators : Array (List Value)

def Heap.loopText (h : Heap) (id : Nat) : List Char :=
  match h.loops[id]? with
  | some l => l.shown
  | none => []

structure World where
  context : Context
  /-- The variables of the loops around, the nearest first. -/
  locals : List (String × Value)
  loops : Array LoopState
  generators : Array (List Value)
  line : Nat
  /-- How many quiet operands are being evaluated. -/
  quiet : Nat
  references : List Reference
  notes : List Value

namespace World

def start (context : Context) (generators : Array (List Value)) : World :=
  { context, generators, locals := [], loops := #[], line := 0, quiet := 0, references := []
    notes := [] }

def heap (w : World) : Heap := ⟨w.loops, w.generators⟩

def loopText (w : World) (id : Nat) : List Char := w.heap.loopText id

def names (w : World) : List String :=
  w.context.vars.map (·.1) ++
    w.context.others.map fun (key, _) => String.ofList (key.plain w.loopText)

def moveLoop (w : World) (id index : Nat) : World :=
  match w.loops[id]? with
  | some l => { w with loops := w.loops.setIfInBounds id { l with index } }
  | none => w

def setLocal (w : World) (name : String) (v : Value) : World :=
  { w with locals := setNamed name v w.locals }

end World

/-- A computation in a render: it changes the world even if it fails. -/
abbrev Eval (α : Type) := ExceptT Fault (StateM World) α

namespace Eval

variable {α β : Type}

def ofExcept (x : Except Fault α) : Eval α := ExceptT.mk (pure x)

def withLoopText (f : (Nat → List Char) → Except Fault α) : Eval α := do
  ofExcept (f (← get).loopText)

def quietly (x : Eval α) : Eval α := ExceptT.mk fun w =>
  let (result, after) := x.run { w with quiet := w.quiet + 1 }
  (result, { after with quiet := after.quiet - 1 })

def forEach (step : α → Eval (List β)) : List α → (given : List β) → Eval (List β)
  | [], given => return given.reverse
  | a :: rest, given => do
      let parts ← step a
      forEach step rest (parts.reverseAux given)

/-- Runs a step while a condition holds, for at most so many rounds, and joins what the steps
give. -/
def whileWithin (condition : Eval Bool) (step : Eval (List β)) :
    (rounds : Nat) → (given : List β) → Eval (List β)
  | 0, _ => throw .endless
  | rounds + 1, given => do
      if ← condition then
        let parts ← step
        whileWithin condition step rounds (parts.reverseAux given)
      else return given.reverse

end Eval

end Stencil
