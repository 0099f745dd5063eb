import Stencil.Proofs.Render.Strict
import Stencil.Proofs.Render.Walk

namespace Stencil

open Eval

namespace World

def unset (w : World) (name : String) : Reference :=
  ⟨name, "Undefined variable '" ++ name ++ "'", w.line, w.names⟩

/-- What there is to report of a part that a value does not have. -/
def lacking (w : World) (v key : Value) : Reference :=
  let name := String.ofList (key.plain w.loopText)
  ⟨name, v.missedPart name, w.line, w.names⟩

end World

/-- Whether the last step of an expression, when it is evaluated from one world, misses something in
another one: a name that stands for nothing, or a part of a value that is not missing itself. -/
inductive Misses (s : Setting) : Expr → World → Reference → World → Prop
  | name {p : Pos} {n : String} {w : World} :
      w.locals.lookup n = none → w.context.get? n = none → Misses s (.name p n) w (w.unset n) w
  | attr {p : Pos} {object : Expr} {n : String} {v : Value} {w u : World} :
      (evaluate s object).run w = (.ok v, u) → v ≠ .undefined →
        v.part? s.host u.heap (.str n) = none →
          Misses s (.attr p object n) w (u.lacking v (.str n)) u
  | item {p : Pos} {object key : Expr} {v k : Value} {w m u : World} :
      (evaluate s object).run w = (.ok v, m) → (evaluate s key).run m = (.ok k, u) →
        v ≠ .undefined → v.part? s.host u.heap k = none →
          Misses s (.item p object key) w (u.lacking v k) u

namespace Setting

variable {s : Setting} {w : World}

def afterMiss (s : Setting) (r : Reference) (w : World) : Except Fault Value × World :=
  if w.quiet = 0 then
    (if s.strict then .error (s.undefinedFault r) else .ok .undefined,
      { w with references := w.references ++ [r] })
  else (.ok .undefined, w)

theorem missing_run (name message : String) :
    (s.missing name message).run w = s.afterMiss ⟨name, message, w.line, w.names⟩ w := by
  rw [missing, Step.run_bind, report, Step.run_bind, Step.run_get, afterMiss]
  by_cases loud : w.quiet = 0
  · cases strict : s.strict with
    | false =>
        simp only [loud, ↓reduceIte, Step.run_bind, Step.run_set, Bool.false_eq_true, Step.run_pure]
    | true =>
        simp only [loud, ↓reduceIte, Step.run_bind, Step.run_set, undefinedFault]
        rfl
  · simp only [loud, ↓reduceIte]
    rfl

theorem variableOf_unset {n : String} (noLocal : w.locals.lookup n = none)
    (unset : w.context.get? n = none) : (s.variableOf n).run w = s.afterMiss (w.unset n) w := by
  rw [variableOf, Step.run_bind, Step.run_get]
  simp only [noLocal]
  rw [lookup, Step.run_bind, Step.run_get]
  simp only [unset]
  exact missing_run _ _

theorem variableOf_local {n : String} {v : Value} (isLocal : w.locals.lookup n = some v) :
    (s.variableOf n).run w = (.ok v, w) := by
  rw [variableOf, Step.run_bind, Step.run_get]
  simp only [isLocal]
  rfl

theorem variableOf_set {n : String} {v : Value} (noLocal : w.locals.lookup n = none)
    (isSet : w.context.get? n = some v) : (s.variableOf n).run w = (.ok v, w) := by
  rw [variableOf, Step.run_bind, Step.run_get]
  simp only [noLocal]
  rw [lookup, Step.run_bind, Step.run_get]
  simp only [isSet]
  rfl

theorem access_defined {v : Value} (defined : v ≠ .undefined) (key : Value) :
    (s.access v key).run w = match v.part? s.host w.heap key with
      | some part => (.ok part, w)
      | none => s.afterMiss (w.lacking v key) w := by
  unfold access
  split
  · exact absurd rfl defined
  · rw [Step.run_bind, Step.run_get]
    dsimp only
    cases v.part? s.host w.heap key with
    | some part => rfl
    | none => exact missing_run _ _

theorem afterMiss_references (r : Reference) :
    (s.afterMiss r w).2.references =
      if w.quiet = 0 then w.references ++ [r] else w.references := by
  unfold afterMiss
  split <;> rfl

theorem eq_undefined_of_afterMiss {r : Reference} {v : Value} {u : World}
    (ended : s.afterMiss r w = (.ok v, u)) : v = .undefined := by
  unfold afterMiss at ended
  split at ended
  · split at ended
    · cases ended
    · cases ended
      rfl
  · cases ended
    rfl

end Setting

namespace Misses

variable {s : Setting} {e : Expr} {w u : World} {r : Reference}

theorem run (misses : Misses s e w r u) : (evaluate s e).run w = s.afterMiss r u := by
  cases misses with
  | name noLocal unset => exact Setting.variableOf_unset noLocal unset
  | attr evaluated defined lacks =>
      rw [evaluate, Step.run_bind, evaluated]
      dsimp only
      rw [Setting.access_defined defined, lacks]
  | item evaluated keyed defined lacks =>
      rw [evaluate, Step.run_bind, evaluated]
      dsimp only
      rw [Step.run_bind, keyed]
      dsimp only
      rw [Setting.access_defined defined, lacks]

theorem references (misses : Misses s e w r u) : ((evaluate s e).run w).2.references =
    if u.quiet = 0 then u.references ++ [r] else u.references := by
  rw [misses.run, Setting.afterMiss_references]

end Misses

/-! How many quiet operands are being evaluated does not change. -/

def SameQuiet (w u : World) : Prop := u.quiet = w.quiet

theorem SameQuiet.walk : World.Walk SameQuiet where
  refl _ := rfl
  trans first second := second.trans first
  notes _ _ := rfl
  generators _ _ := rfl
  moves w id i := by
    unfold World.moveLoop
    split <;> rfl
  report _ _ _ := rfl
  loud {w u} same := by
    have inside : u.quiet = w.quiet + 1 := same
    show u.quiet - 1 = w.quiet
    omega

theorem evaluate_quiet (s : Setting) (e : Expr) (w : World) :
    ((evaluate s e).run w).2.quiet = w.quiet :=
  evaluate_follows SameQuiet.walk e w

theorem Misses.quiet {s : Setting} {e : Expr} {w u : World} {r : Reference}
    (misses : Misses s e w r u) : u.quiet = w.quiet := by
  cases misses with
  | name => rfl
  | @attr _ object _ _ _ _ evaluated _ _ =>
      have same := evaluate_quiet s object w
      rwa [evaluated] at same
  | @item _ object key _ _ _ m _ evaluated keyed _ _ =>
      have first := evaluate_quiet s object w
      have second := evaluate_quiet s key m
      rw [evaluated] at first
      rw [keyed] at second
      exact second.trans first

/-! What was reported stays reported. -/

def World.Grows (w u : World) : Prop := w.references <+: u.references

theorem World.Grows.walk : World.Walk World.Grows where
  refl _ := List.prefix_rfl
  trans first second := first.trans second
  notes _ _ := List.prefix_rfl
  generators _ _ := List.prefix_rfl
  moves w id i := by
    have same : (w.moveLoop id i).references = w.references := SameReferences.calls.moves w id i
    show w.references <+: (w.moveLoop id i).references
    exact same.symm ▸ List.prefix_rfl
  report _ r _ := List.prefix_append _ [r]
  loud grown := grown

theorem evaluate_grows (s : Setting) (e : Expr) (w : World) :
    w.references <+: ((evaluate s e).run w).2.references :=
  evaluate_follows World.Grows.walk e w

end Stencil
