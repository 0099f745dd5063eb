import Stencil.Proofs.Render.Asks
import Stencil.Render.Code

namespace Stencil

namespace World

/-- The variables at the bottom of the stack: those that were there when it was so high. -/
def outer (w : World) (depth : Nat) : List (String × Value) :=
  w.locals.drop (w.locals.length - depth)

def inner (w : World) (depth : Nat) : List (String × Value) :=
  w.locals.take (w.locals.length - depth)

def innerNames (w : World) (depth : Nat) : List String := (w.inner depth).map (·.1)

variable {depth : Nat} {w u : World}

theorem inner_append_outer (w : World) (depth : Nat) : w.inner depth ++ w.outer depth = w.locals :=
  List.take_append_drop _ _

@[simp] theorem outer_self (w : World) : w.outer w.locals.length = w.locals := by simp [outer]

theorem length_outer (deep : depth ≤ w.locals.length) : (w.outer depth).length = depth := by
  rw [outer, List.length_drop]
  omega

theorem outer_eq {inside around : List (String × Value)} (split : w.locals = inside ++ around)
    (deep : around.length = depth) : w.outer depth = around := by
  rw [outer, split, List.length_append, deep, Nat.add_sub_cancel, List.drop_left]

theorem setLocal_names {name : String} (v : Value) (isLocal : name ∈ w.locals.map (·.1)) :
    (w.setLocal name v).locals.map (·.1) = w.locals.map (·.1) :=
  setNamed_names v isLocal

theorem outer_setLocal_of_inner {name : String} (v : Value) (deep : depth ≤ w.locals.length)
    (isInner : name ∈ w.innerNames depth) : (w.setLocal name v).outer depth = w.outer depth := by
  have split : (w.setLocal name v).locals =
      setNamed name v (w.inner depth) ++ w.outer depth := by
    rw [setLocal, ← setNamed_append_of_mem v isInner, inner_append_outer]
  exact outer_eq split (length_outer deep)

theorem outer_setLocal_of_outer {name : String} (v : Value) (deep : depth ≤ w.locals.length)
    (isLocal : name ∈ w.locals.map (·.1)) (isOuter : name ∉ w.innerNames depth) :
    (w.setLocal name v).outer depth = setNamed name v (w.outer depth) := by
  have there : name ∈ (w.outer depth).map (·.1) := by
    rw [← inner_append_outer w depth, List.map_append, List.mem_append] at isLocal
    exact isLocal.resolve_left isOuter
  have split : (w.setLocal name v).locals =
      w.inner depth ++ setNamed name v (w.outer depth) := by
    rw [setLocal, ← setNamed_append_of_notMem v isOuter, inner_append_outer]
  exact outer_eq split ((setNamed_length v there).trans (length_outer deep))

/-- What a step of a render may do to the variables of the loops around, to the context and to the
metadata of the first loops: change names that were `assigned` where a name meant that variable, and
loops that were `asked` for their items. -/
structure Scoped (assigned : String → World → Prop) (asked : Nat → Prop) (depth bound : Nat)
    (w u : World) : Prop where
  names : u.locals.map (·.1) = w.locals.map (·.1)
  locals : ∀ name, (u.outer depth).lookup name = (w.outer depth).lookup name ∨
    ∃ here, assigned name here ∧ name ∉ here.innerNames depth
  context : ∀ name, u.context.get? name = w.context.get? name ∨
    ∃ here, assigned name here ∧ here.locals.lookup name = none
  others : u.context.others = w.context.others
  size : w.loops.size ≤ u.loops.size
  loops : ∀ id < bound, u.loops[id]? = w.loops[id]? ∨ asked id

/-- Whether the stack is at least so high, and at least so many loops have metadata. -/
structure Above (w : World) (depth bound : Nat) : Prop where
  deep : depth ≤ w.locals.length
  many : bound ≤ w.loops.size

theorem above_self (w : World) : w.Above w.locals.length w.loops.size :=
  ⟨Nat.le_refl _, Nat.le_refl _⟩

namespace Scoped

variable {assigned : String → World → Prop} {asked : Nat → Prop} {bound : Nat}

theorem refl (w : World) : Scoped assigned asked depth bound w w where
  names := rfl
  locals _ := .inl rfl
  context _ := .inl rfl
  others := rfl
  size := Nat.le_refl _
  loops _ _ := .inl rfl

theorem trans {v : World} (first : Scoped assigned asked depth bound w u)
    (second : Scoped assigned asked depth bound u v) :
    Scoped assigned asked depth bound w v where
  names := second.names.trans first.names
  locals name := by
    rcases second.locals name with same | changed
    · rw [same]
      exact first.locals name
    · exact .inr changed
  context name := by
    rcases second.context name with same | changed
    · rw [same]
      exact first.context name
    · exact .inr changed
  others := second.others.trans first.others
  size := Nat.le_trans first.size second.size
  loops id small := by
    rcases second.loops id small with same | isAsked
    · rw [same]
      exact first.loops id small
    · exact .inr isAsked

theorem length (step : Scoped assigned asked depth bound w u) :
    u.locals.length = w.locals.length := by
  rw [← List.length_map (·.1), step.names, List.length_map]

theorem above (step : Scoped assigned asked depth bound w u) (above : w.Above depth bound) :
    u.Above depth bound where
  deep := step.length ▸ above.deep
  many := Nat.le_trans above.many step.size

theorem of_stays {own : Nat → Prop} (stays : w.Stays own u) (isAsked : ∀ id, own id → asked id) :
    Scoped assigned asked depth bound w u where
  names := by rw [stays.locals]
  locals name := by
    left
    rw [outer, outer, stays.locals]
  context name := by
    left
    rw [stays.context]
  others := by rw [stays.context]
  size := Nat.le_of_eq stays.size.symm
  loops id _ := by
    by_cases own : own id
    · exact .inr (isAsked id own)
    · exact .inl (stays.loops id own)

theorem setLine (w : World) (line : Nat) : Scoped assigned asked depth bound w { w with line } where
  names := rfl
  locals _ := .inl rfl
  context _ := .inl rfl
  others := rfl
  size := Nat.le_refl _
  loops _ _ := .inl rfl

theorem setLocal_inner {name : String} (v : Value) (deep : depth ≤ w.locals.length)
    (isInner : name ∈ w.innerNames depth) :
    Scoped assigned asked depth bound w (w.setLocal name v) where
  names := by
    apply setLocal_names
    rw [← inner_append_outer w depth, List.map_append]
    exact List.mem_append_left _ isInner
  locals _ := .inl (by rw [outer_setLocal_of_inner v deep isInner])
  context _ := .inl rfl
  others := rfl
  size := Nat.le_refl _
  loops _ _ := .inl rfl

theorem setLocal_outer {name : String} {here : World} (v : Value) (deep : depth ≤ w.locals.length)
    (isLocal : name ∈ w.locals.map (·.1)) (isOuter : name ∉ w.innerNames depth)
    (isAssigned : assigned name here) (same : w.locals = here.locals) :
    Scoped assigned asked depth bound w (w.setLocal name v) where
  names := setLocal_names v isLocal
  locals other := by
    by_cases isName : other = name
    · subst isName
      rw [innerNames, inner, same] at isOuter
      exact .inr ⟨here, isAssigned, isOuter⟩
    · left
      rw [outer_setLocal_of_outer v deep isLocal isOuter, lookup_setNamed, if_neg isName]
  context _ := .inl rfl
  others := rfl
  size := Nat.le_refl _
  loops _ _ := .inl rfl

theorem setVariable {name : String} {here : World} (v : Value)
    (free : w.locals.lookup name = none) (isAssigned : assigned name here)
    (same : w.locals = here.locals) :
    Scoped assigned asked depth bound w { w with context := w.context.set name v } where
  names := rfl
  locals _ := .inl rfl
  context other := by
    by_cases isName : other = name
    · subst isName
      exact .inr ⟨here, isAssigned, same ▸ free⟩
    · left
      show (setNamed name v w.context.vars).lookup other = w.context.vars.lookup other
      rw [lookup_setNamed, if_neg isName]
  others := rfl
  size := Nat.le_refl _
  loops _ _ := .inl rfl

theorem moveLoop {id : Nat} (i : Nat) (isNew : bound ≤ id) :
    Scoped assigned asked depth bound w (w.moveLoop id i) where
  names := by rw [moveLoop_locals]
  locals name := by
    left
    rw [outer, outer, moveLoop_locals]
  context name := by
    left
    rw [moveLoop_context]
  others := by rw [moveLoop_context]
  size := Nat.le_of_eq (by rw [moveLoop_loops, Array.size_modify])
  loops other small := by
    left
    rw [moveLoop_loops, Array.getElem?_modify, if_neg (by omega)]

end Scoped

end World

end Stencil
