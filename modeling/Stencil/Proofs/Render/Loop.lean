import Stencil.Proofs.Render.Locals

namespace Stencil

open Eval

section Repeat

variable {α β : Type} {step : α → Eval (List β)} {P : World → Prop} {w u : World}

theorem forEach_append (first second : List α) (given : List β) :
    forEach step (first ++ second) given =
      forEach step first given >>= fun written => forEach step second written.reverse := by
  induction first generalizing given with
  | nil => simp [forEach]
  | cons a rest ih => simp only [List.cons_append, forEach, ih, bind_assoc]

theorem forEach_concat {before : List α} {a : α} {given parts : List β} {m v : World}
    (done : (forEach step before []).run w = (.ok given, m))
    (run : (step a).run m = (.ok parts, v)) :
    (forEach step (before ++ [a]) []).run w = (.ok (given ++ parts), v) := by
  rw [forEach_append, Step.run_bind, done]
  simp only [forEach]
  rw [Step.run_bind, run]
  simp

/-- What holds before a loop and is kept by each round, with the rounds before it done, holds after
the loop. -/
theorem forEach_invariant {items : List α} {written : List β} (start : P w)
    (keeps : ∀ before a after given parts m v, items = before ++ a :: after →
      (forEach step before []).run w = (.ok given, m) → P m →
      (step a).run m = (.ok parts, v) → P v)
    (run : (forEach step items []).run w = (.ok written, u)) : P u := by
  have further : ∀ rest before given m, items = before ++ rest →
      (forEach step before []).run w = (.ok given, m) → P m →
      (forEach step rest given.reverse).run m = (.ok written, u) → P u := by
    intro rest
    induction rest with
    | nil =>
        intro before given m _ _ here run
        cases run
        exact here
    | cons a rest ih =>
        intro before given m split done here run
        obtain ⟨parts, v, runStep, runRest⟩ := Step.run_bind_ok run
        have kept := keeps before a rest given parts m v split done here runStep
        refine ih (before ++ [a]) (given ++ parts) v (by simpa using split)
          (forEach_concat done runStep) kept ?_
        simpa using runRest
  exact further items [] [] w rfl rfl start run

end Repeat

/-! Entering and leaving. -/

namespace World

def loopId? (w : World) (tracked : Bool) : Option Nat := if tracked then some w.loops.size else none

def loopVariables (w : World) (target : Target) (tracked : Bool) : List (String × Value) :=
  loopBindings target ((w.loopId? tracked).map .loop)

def inLoop (w : World) (target : Target) (tracked : Bool) (items : List Value) : World :=
  { w with
    locals := w.loopVariables target tracked ++ w.locals
    loops :=
      if tracked then w.loops.push (.start items ((w.locals.lookup "loop").getD .null))
      else w.loops }

theorem inLoop_loops {w : World} (target : Target) (tracked : Bool) (items : List Value) {id : Nat}
    (older : id < w.loops.size) : (w.inLoop target tracked items).loops[id]? = w.loops[id]? := by
  cases tracked with
  | true => exact Array.getElem?_push_lt older |>.trans (Array.getElem?_eq_getElem older).symm
  | false => rfl

theorem inLoop_above {w : World} {depth bound : Nat} (above : w.Above depth bound) (target : Target)
    (tracked : Bool) (items : List Value) : (w.inLoop target tracked items).Above depth bound where
  deep := Nat.le_trans above.deep (by simp [inLoop])
  many := Nat.le_trans above.many (by cases tracked <;> simp [inLoop])

theorem loopId?_new {w : World} {depth bound : Nat} (above : w.Above depth bound) (tracked : Bool) :
    ∀ id ∈ w.loopId? tracked, bound ≤ id := by
  intro id isId
  cases tracked with
  | true => exact Option.mem_some.mp isId ▸ above.many
  | false => cases isId

theorem mem_loopVariables {target : Target} {name : String} (isTarget : name ∈ target.names)
    (w : World) (tracked : Bool) : name ∈ (w.loopVariables target tracked).map (·.1) := by
  unfold loopVariables loopBindings
  rw [List.map_append, List.mem_append]
  left
  cases target with
  | one b => simpa [Target.names, Target.binders] using isTarget
  | pair k v => simpa [Target.names, Target.binders] using isTarget

variable {depth : Nat} {w u : World}

theorem innerNames_congr (same : u.locals.map (·.1) = w.locals.map (·.1)) :
    u.innerNames depth = w.innerNames depth := by
  have length : u.locals.length = w.locals.length := by
    rw [← List.length_map (·.1), same, List.length_map]
  rw [innerNames, inner, List.map_take, same, innerNames, inner, List.map_take, length]

theorem outer_append {added : List (String × Value)} (split : u.locals = added ++ w.locals)
    (deep : depth ≤ w.locals.length) : u.outer depth = w.outer depth := by
  have further : u.locals = (added ++ w.inner depth) ++ w.outer depth := by
    rw [split, List.append_assoc, inner_append_outer]
  exact outer_eq further (length_outer deep)

theorem mem_innerNames {added : List (String × Value)} {name : String}
    (split : u.locals = added ++ w.locals) (deep : depth ≤ w.locals.length)
    (member : name ∈ added.map (·.1)) : name ∈ u.innerNames depth := by
  have height : u.locals.length - depth = added.length + (w.locals.length - depth) := by
    rw [split, List.length_append]
    omega
  rw [innerNames, inner, height, split, List.take_length_add_append, List.map_append]
  exact List.mem_append_left _ member

theorem outer_drop {added : Nat} (deep : depth + added ≤ u.locals.length) :
    World.outer { u with locals := u.locals.drop added } depth = u.outer depth := by
  simp only [outer, List.drop_drop, List.length_drop]
  congr 1
  omega

end World

theorem enterLoop_run (target : Target) (tracked : Bool) (items : List Value) (w : World) :
    (enterLoop target tracked items).run w =
      (.ok (w.loopId? tracked, (w.loopVariables target tracked).length),
        w.inLoop target tracked items) := by
  cases tracked with
  | true => rfl
  | false => rfl

namespace World.Scoped

variable {assigned : String → World → Prop} {asked : Nat → Prop} {depth bound : Nat} {w u : World}

theorem bindTarget {target : Target} (item : Value) (deep : depth ≤ w.locals.length)
    (isInner : ∀ name ∈ target.names, name ∈ w.innerNames depth) :
    Scoped assigned asked depth bound w (bindTarget target item w) := by
  unfold Stencil.bindTarget
  split
  · exact setLocal_inner _ deep (isInner _ (by simp [Target.names, Target.binders]))
  · next k v key value =>
      have first : Scoped assigned asked depth bound w (w.setLocal k.name key) :=
        setLocal_inner key deep (isInner _ (by simp [Target.names, Target.binders]))
      refine first.trans (setLocal_inner value (first.length ▸ deep) ?_)
      rw [innerNames_congr first.names]
      exact isInner _ (by simp [Target.names, Target.binders])
  · exact refl w

theorem atItem {target : Target} {id : Option Nat} {item : Value} {index : Nat}
    (deep : depth ≤ w.locals.length)
    (isInner : ∀ name ∈ target.names, name ∈ w.innerNames depth)
    (isNew : ∀ n ∈ id, bound ≤ n) (run : (atItem target id item index).run w = (.ok (), u)) :
    Scoped assigned asked depth bound w u := by
  cases run
  cases id with
  | none => exact bindTarget item deep isInner
  | some id =>
      have moved : Scoped assigned asked depth bound w (w.moveLoop id index) :=
        moveLoop index (isNew id rfl)
      refine moved.trans (bindTarget item (moved.length ▸ deep) ?_)
      intro name isTarget
      rw [innerNames_congr moved.names]
      exact isInner name isTarget

theorem around {target : Target} {tracked : Bool} (items : List Value)
    (above : w.Above depth bound)
    (rounds : Scoped assigned asked depth bound (w.inLoop target tracked items) u) :
    Scoped assigned asked depth bound w
      { u with locals := u.locals.drop (w.loopVariables target tracked).length } where
  names := by
    have names := rounds.names
    rw [inLoop, List.map_append] at names
    rw [List.map_drop, names, ← List.length_map (·.1), List.drop_left]
  locals name := by
    have height := rounds.length
    rw [inLoop, List.length_append] at height
    have before : (w.inLoop target tracked items).outer depth = w.outer depth :=
      outer_append rfl above.deep
    have deep := above.deep
    have after : World.outer
        { u with locals := u.locals.drop (w.loopVariables target tracked).length } depth =
        u.outer depth := outer_drop (by omega)
    rw [after, ← before]
    exact rounds.locals name
  context := rounds.context
  others := rounds.others
  size := by
    refine Nat.le_trans ?_ rounds.size
    unfold inLoop
    cases tracked <;> simp
  loops id small := by
    rw [← inLoop_loops target tracked items (Nat.lt_of_lt_of_le small above.many)]
    exact rounds.loops id small

end World.Scoped

end Stencil
