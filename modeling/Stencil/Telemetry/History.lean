import Stencil.Registry.Basic

namespace Stencil

/-- One finished render; `given` names the variables that it was given. -/
structure RenderRecord where
  template : String
  path : Option String
  given : List String
  elapsed : Float
  memory : Int
  outputSize : Int
  fromCache : Bool

structure History where
  limit : Nat := 500
  records : List RenderRecord := []

structure Totals where
  total : Nat
  elapsed : Float
  memory : Int
  size : Int
  fromCache : Nat

def Totals.assembled (t : Totals) : Nat := t.total - t.fromCache

namespace History

def latest (h : History) (count : Nat) : List RenderRecord :=
  h.records.drop (h.records.length - count)

/-- Adds a record. A full history first drops its older half. -/
def record (h : History) (r : RenderRecord) : History :=
  let kept := if h.limit ≤ h.records.length then h.records.drop (h.limit / 2) else h.records
  { h with records := kept ++ [r] }

def clear (h : History) : History := { h with records := [] }

def totals (h : History) : Totals where
  total := h.records.length
  elapsed := (h.records.map RenderRecord.elapsed).foldl (· + ·) 0
  memory := (h.records.map RenderRecord.memory).foldl (· + ·) 0
  size := (h.records.map RenderRecord.outputSize).foldl (· + ·) 0
  fromCache := h.records.countP RenderRecord.fromCache

end History

structure Missed where
  count : Nat
  message : String
  location : String
  deriving DecidableEq, Repr

structure Counter where
  limit : Nat := 1000
  entries : List (String × Missed) := []
  deriving DecidableEq, Repr

namespace Counter

def add (c : Counter) (name message location : String) : Counter :=
  match c.entries.lookup name with
  | some m => { c with entries := setNamed name ⟨m.count + 1, message, location⟩ c.entries }
  | none =>
      if c.limit ≤ c.entries.length then c
      else { c with entries := setNamed name ⟨1, message, location⟩ c.entries }

def clear (c : Counter) : Counter := { c with entries := [] }

end Counter

end Stencil
