import Stencil.Builtin.Filter
import Stencil.Builtin.Range
import Stencil.Builtin.Test

namespace Stencil

inductive Callable
  | filter (n : Filter.Name)
  | test (n : Test.Name)
  | range
  | value (v : Value)

def Callable.value? : Callable → Option Value
  | .value v => some v
  | _ => none

abbrev Registry := List (String × Callable)

/-- Sets a name: a known name keeps its place. -/
def setNamed {α : Type} (name : String) (a : α) : List (String × α) → List (String × α)
  | [] => [(name, a)]
  | (n, b) :: rest => if n = name then (n, a) :: rest else (n, b) :: setNamed name a rest

theorem lookup_setNamed {α : Type} (name other : String) (a : α) (entries : List (String × α)) :
    (setNamed name a entries).lookup other =
      if other = name then some a else entries.lookup other := by
  induction entries with
  | nil =>
      by_cases h : other = name
      · simp [setNamed, h]
      · simp [setNamed, List.lookup_cons, h, beq_false_of_ne h]
  | cons entry rest ih =>
      obtain ⟨n, b⟩ := entry
      by_cases hn : n = name
      · subst hn
        by_cases h : other = n
        · simp [setNamed, h]
        · simp [setNamed, List.lookup_cons, h, beq_false_of_ne h]
      · by_cases h : other = n
        · subst h
          simp [setNamed, hn]
        · simp [setNamed, List.lookup_cons, hn, beq_false_of_ne h, ih]

section Entries

variable {α : Type} {name : String} {first second : List (String × α)}

theorem setNamed_append_of_mem (a : α) (member : name ∈ first.map (·.1)) :
    setNamed name a (first ++ second) = setNamed name a first ++ second := by
  induction first with
  | nil => cases member
  | cons entry rest ih =>
      rw [List.cons_append, setNamed, setNamed]
      split
      · rfl
      · next other =>
          rcases List.mem_cons.mp member with same | further
          · exact (other same.symm).elim
          · rw [ih further, List.cons_append]

theorem setNamed_append_of_notMem (a : α) (free : name ∉ first.map (·.1)) :
    setNamed name a (first ++ second) = first ++ setNamed name a second := by
  induction first with
  | nil => rfl
  | cons entry rest ih =>
      rw [List.map_cons, List.mem_cons, not_or] at free
      rw [List.cons_append, setNamed, if_neg fun same => free.1 same.symm, ih free.2,
        List.cons_append]

theorem setNamed_of_notMem (a : α) (free : name ∉ first.map (·.1)) :
    setNamed name a first = first ++ [(name, a)] := by
  have appended : setNamed name a (first ++ []) = first ++ [(name, a)] :=
    setNamed_append_of_notMem a free
  rwa [List.append_nil] at appended

theorem setNamed_names (a : α) (member : name ∈ first.map (·.1)) :
    (setNamed name a first).map (·.1) = first.map (·.1) := by
  induction first with
  | nil => cases member
  | cons entry rest ih =>
      rw [setNamed]
      split
      · rfl
      · next other =>
          rcases List.mem_cons.mp member with same | further
          · exact (other same.symm).elim
          · rw [List.map_cons, ih further, List.map_cons]

theorem setNamed_length (a : α) (member : name ∈ first.map (·.1)) :
    (setNamed name a first).length = first.length := by
  rw [← List.length_map (·.1), setNamed_names a member, List.length_map]

theorem mem_names_of_lookup {a : α} (found : first.lookup name = some a) :
    name ∈ first.map (·.1) := by
  obtain ⟨before, after, split, _⟩ := List.lookup_eq_some_iff.mp found
  simp [split]

theorem lookup_eq_none_iff_names : first.lookup name = none ↔ name ∉ first.map (·.1) := by
  rw [List.lookup_eq_none_iff, List.mem_map]
  constructor
  · rintro apart ⟨entry, member, rfl⟩
    simpa using apart entry member
  · intro free entry member
    simpa using fun same : name = entry.1 => free ⟨entry, member, same.symm⟩

end Entries

inductive Table
  | filters
  | functions
  | tests
  deriving DecidableEq, Repr

def Table.text : Table → String
  | filters => "filters"
  | functions => "functions"
  | tests => "tests"

structure Registries where
  filters : Registry
  functions : Registry
  tests : Registry

namespace Registries

def builtin : Registries :=
  { filters := Filter.registered.map fun (name, n) => (name, .filter n)
    functions := [("range", .range)]
    tests := Test.registered.map fun (name, n) => (name, .test n) }

def table (r : Registries) : Table → Registry
  | .filters => r.filters
  | .functions => r.functions
  | .tests => r.tests

def withTable (r : Registries) (t : Table) (entries : Registry) : Registries :=
  match t with
  | .filters => { r with filters := entries }
  | .functions => { r with functions := entries }
  | .tests => { r with tests := entries }

def notCallable (t : Table) (name : String) : Fault :=
  .wrongType (t.text ++ " entry '" ++ name ++ "' must be callable")

def register (r : Registries) (t : Table) (name : String) (v : Value) : Except Fault Registries :=
  if v.isCallable then .ok (r.withTable t (setNamed name (.value v) (r.table t)))
  else .error (notCallable t name)

/-- Registers several values. Either all of them are registered or none. -/
def registerAll (r : Registries) (t : Table) (entries : List (String × Value)) :
    Except Fault Registries :=
  match entries.find? fun e => !e.2.isCallable with
  | some (name, _) => .error (notCallable t name)
  | none =>
      .ok (r.withTable t
        (entries.foldl (fun acc e => setNamed e.1 (.value e.2) acc) (r.table t)))

def withFunctions (r : Registries) (t : Table) (names : List (String × String)) : Registries :=
  r.withTable t
    (names.foldl (fun acc e => setNamed e.1 (.value (.function e.2)) acc) (r.table t))

end Registries

end Stencil
