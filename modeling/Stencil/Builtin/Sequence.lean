import Stencil.Builtin.Text

namespace Stencil.Filter

def items? : Value → Option (List Value)
  | .list items | .tuple items => some items
  | .dict entries => some (entries.map (·.2))
  | _ => none

def length (loopText : Nat → List Char) (v : Value) : Nat :=
  match v.text?, v.size? with
  | none, some n => n
  | _, _ => (v.textOf loopText).length

/-- The number of items; no items in anything but a collection. -/
def count (v : Value) : Nat :=
  match v.text?, v.size? with
  | none, some n => n
  | _, _ => 0

def join (loopText : Nat → List Char) (v separator : Value) : Value :=
  match items? v with
  | some items =>
      plainText (Value.joinTexts (separator.plain loopText)
        (items.map (Value.textOf loopText)))
  | none => v

def first (v : Value) : Value := ((items? v).bind List.head?).getD .null

def last (v : Value) : Value := ((items? v).bind List.getLast?).getD .null

def keys : Value → Value
  | .dict entries => .list (entries.map (·.1))
  | .list items | .tuple items => .list (items.zipIdx.map fun (_, i) => .int i)
  | _ => .list []

def values (v : Value) : Value := .list ((items? v).getD [])

def reverse (loopText : Nat → List Char) : Value → Value
  | .dict entries => .dict entries.reverse
  | .list items | .tuple items => .list items.reverse
  | v => plainText (v.textOf loopText).reverse

/-- Cuts a list into pieces of a size, the last one perhaps shorter. -/
def chunksWithin {α : Type} (size : Nat) : (rounds : Nat) → List α → List (List α)
  | 0, _ => []
  | _ + 1, [] => []
  | rounds + 1, a :: as =>
      (a :: as).take size :: chunksWithin size rounds ((a :: as).drop size)

/-- The pieces of a list. Each is to hold at least one item. -/
def chunks {α : Type} (size : Nat) (items : List α) : List (List α) :=
  chunksWithin size items.length items

def pad (size : Nat) (filling : Value) (piece : List Value) : List Value :=
  piece ++ List.replicate (size - piece.length) filling

def batch (v size filling : Value) : Except Fault Value :=
  match items? v with
  | none => .ok v
  | some items => do
      let size := max 1 (← size.toWhole).toNat
      let pieces := chunks size items
      let filled := match filling with
        | .null => pieces
        | filling => pieces.map (pad size filling)
      return .list (filled.map Value.list)

def cut {α : Type} (items : List α) (start length : Value) : Except Fault (List α) := do
  let rest := dropTo items (← start.toWhole)
  match length with
  | .null => return rest
  | length => return takeTo rest (← length.toWhole)

def slice (v start length : Value) : Except Fault Value :=
  match items? v, v.text? with
  | some items, _ => (cut items start length).map Value.list
  | none, some s => (cut s.toList start length).map plainText
  | none, none => .ok v

end Stencil.Filter
