import Stencil.Proofs.Step
import Stencil.Render.Evaluate

namespace Stencil

open Eval

/-- Whether a relation of worlds allows for changes of the notes and of the generators. -/
structure World.Frame (R : World → World → Prop) : Prop where
  refl : ∀ w, R w w
  trans : ∀ {u v w}, R u v → R v w → R u w
  notes : ∀ w notes, R w { w with notes }
  generators : ∀ w generators, R w { w with generators }

/-- Whether a relation of worlds allows for all that calls change: they may move any loop. -/
structure World.Calls (R : World → World → Prop) : Prop extends World.Frame R where
  moves : ∀ w id i, R w (w.moveLoop id i)

variable {R : World → World → Prop} {α β : Type}

theorem Eval.run_quietly (x : Eval α) (w : World) :
    (quietly x).run w =
      let (result, u) := x.run { w with quiet := w.quiet + 1 }
      (result, { u with quiet := u.quiet - 1 }) := rfl

namespace World.Frame

theorem pure (frame : World.Frame R) (a : α) : Step.Follows R (Pure.pure a : Eval α) :=
  .pure frame.refl a

theorem throw (frame : World.Frame R) (fault : Fault) :
    Step.Follows R (MonadExcept.throw fault : Eval α) :=
  .throw frame.refl fault

theorem bind (frame : World.Frame R) {x : Eval α} {f : α → Eval β} (hx : Step.Follows R x)
    (hf : ∀ a, Step.Follows R (f a)) : Step.Follows R (x >>= f) :=
  .bind (R := R) frame.trans hx hf

theorem get (frame : World.Frame R) : Step.Follows R (MonadState.get : Eval World) := frame.refl

theorem ofExcept (frame : World.Frame R) (x : Except Fault α) :
    Step.Follows R (Eval.ofExcept x) :=
  .mk_pure frame.refl x

theorem withLoopText (frame : World.Frame R) (f : (Nat → List Char) → Except Fault α) :
    Step.Follows R (Eval.withLoopText f) :=
  frame.bind frame.get fun _ => frame.ofExcept _

theorem update (frame : World.Frame R) {f : World → World} {next : World → Eval α}
    (hf : ∀ w, R w (f w)) (hnext : ∀ w, Step.Follows R (next w)) :
    Step.Follows R (MonadState.get >>= fun w => MonadStateOf.set (f w) >>= fun _ => next w) := by
  intro w
  exact frame.trans (hf w) (hnext w (f w))

theorem moveLoopUnless (frame : World.Frame R) {id : Nat}
    (moves : ∀ w i, R w (w.moveLoop id i)) (p : Prop) [Decidable p] (w : World) (i : Nat) :
    R w (if p then w else w.moveLoop id i) := by
  split
  · exact frame.refl w
  · exact moves w i

end World.Frame

theorem World.Frame.moveLoops (frame : World.Frame R) {moved : List (Nat × Nat)}
    (moves : ∀ w, ∀ e ∈ moved, R w (w.moveLoop e.1 e.2)) (w : World) : R w (w.moveLoops moved) := by
  induction moved generalizing w with
  | nil => exact frame.refl w
  | cons e rest ih =>
      exact frame.trans (moves w e List.mem_cons_self)
        (ih (fun u e member => moves u e (List.mem_cons_of_mem _ member)) _)

theorem World.Frame.settle (frame : World.Frame R) {answer : HostAnswer}
    (moves : ∀ w, ∀ e ∈ answer.moved, R w (w.moveLoop e.1 e.2)) (w : World) :
    R w (w.settle answer) := by
  have noted := frame.notes w (w.notes ++ answer.notes)
  have recorded : R w (w.record answer) := frame.trans noted (frame.generators _ _)
  exact frame.trans recorded (frame.moveLoops moves _)

theorem World.Calls.settle (calls : World.Calls R) (w : World) (answer : HostAnswer) :
    R w (w.settle answer) :=
  calls.toFrame.settle (fun w e _ => calls.moves w e.1 e.2) w

namespace Value

theorem iterate_follows (frame : World.Frame R) {v : Value}
    (moves : ∀ id, v = .loop id → ∀ w i, R w (w.moveLoop id i)) : Step.Follows R v.iterate := by
  cases v with
  | list | tuple | str | markup | bytes | dict | view | undefined => exact frame.pure _
  | generator id => exact fun w => frame.generators w _
  | loop id =>
      exact frame.update (fun w => frame.moveLoopUnless (moves id rfl) _ w _) fun _ => frame.pure _
  | null | bool | int | float | date | moment | object | html | function | method =>
      exact frame.throw _

theorem loopItems_follows (frame : World.Frame R) {v : Value} (pairs : Bool)
    (moves : ∀ id, v = .loop id → ∀ w i, R w (w.moveLoop id i)) :
    Step.Follows R (v.loopItems pairs) := by
  unfold loopItems
  split
  · exact frame.pure _
  · exact frame.pure _
  · exact frame.bind (iterate_follows frame moves) fun _ => frame.pure _

theorem holds_follows (frame : World.Frame R) {v : Value} (item : Value)
    (moves : ∀ id, v = .loop id → ∀ w i, R w (w.moveLoop id i)) :
    Step.Follows R (v.holds item) := by
  cases v with
  | null | bool | int | float | undefined | date | moment | object | html | function | method =>
      exact frame.pure _
  | list | tuple | str | markup | dict => exact frame.pure _
  | view kind entries =>
      cases kind with
      | keys | values => exact frame.pure _
      | items =>
          unfold holds
          dsimp only
          split
          · exact frame.pure _
          · exact frame.pure _
  | bytes bs =>
      unfold holds
      dsimp only
      split
      · exact frame.pure _
      · split
        · split
          · exact frame.pure _
          · exact frame.throw _
        · exact frame.pure _
  | generator id => exact frame.update (fun w => frame.generators w _) fun _ => frame.pure _
  | loop id =>
      exact frame.update (fun w => frame.moveLoopUnless (moves id rfl) _ w _) fun _ => frame.pure _

end Value

theorem CompareOp.apply_follows (frame : World.Frame R) (op : CompareOp) (a : Value) {b : Value}
    (moves : ∀ id, op.isMembership → b = .loop id → ∀ w i, R w (w.moveLoop id i)) :
    Step.Follows R (op.apply a b) := by
  cases op with
  | eq | ne => exact frame.pure _
  | lt | gt | le | ge => exact frame.ofExcept _
  | isIn => exact b.holds_follows frame a fun id => moves id rfl
  | notIn =>
      exact frame.bind (b.holds_follows frame a fun id => moves id rfl) fun _ => frame.pure _
  | startsWith | endsWith => exact frame.withLoopText _

namespace Setting

variable (s : Setting)

theorem callValue_cases {P : (Setting → Eval Value) → Prop} {f : Value} {a : Arguments}
    (host : f.isHosted → P fun s => s.callHost f a) (undefined : P fun _ => Pure.pure .undefined)
    (dict : ∀ entries name, f = .method (.dict entries) name →
      P fun _ => Eval.ofExcept (dictMethod entries name a))
    (cycle : ∀ id, P fun _ => callCycle id a)
    (refused : P fun _ => MonadExcept.throw (.notCallable f.typeName)) :
    P fun s => s.callValue f a := by
  unfold callValue
  split
  · next isHosted => exact host isHosted
  · split
    · exact undefined
    · exact dict _ _ rfl
    · exact cycle _
    · exact refused

theorem callHost_follows (calls : World.Calls R) (f : Value) (a : Arguments) :
    Step.Follows R (s.callHost f a) :=
  calls.update (fun w => calls.settle w _) fun _ => calls.ofExcept _

theorem callCycle_follows (frame : World.Frame R) (id : Nat) (a : Arguments) :
    Step.Follows R (callCycle id a) := by
  apply frame.bind frame.get
  intro w
  split
  · exact frame.ofExcept _
  · exact frame.pure _

theorem callValue_follows (calls : World.Calls R) (f : Value) (a : Arguments) :
    Step.Follows R (s.callValue f a) :=
  callValue_cases (P := fun call => Step.Follows R (call s))
    (fun _ => s.callHost_follows calls f a) (calls.pure _) (fun _ _ _ => calls.ofExcept _)
    (fun id => callCycle_follows calls.toFrame id a) (calls.throw _)

theorem callRegistered_follows (calls : World.Calls R) (c : Callable) (a : Arguments) :
    Step.Follows R (s.callRegistered c a) := by
  cases c with
  | filter n => exact calls.withLoopText _
  | test n => exact calls.ofExcept _
  | range => exact calls.ofExcept _
  | value v => exact s.callValue_follows calls v a

theorem callNamed_follows (calls : World.Calls R) (kind : NameKind) (table : Registry)
    (name : String) (a : Arguments) : Step.Follows R (s.callNamed kind table name a) := by
  unfold callNamed
  split
  · exact s.callRegistered_follows calls _ a
  · exact calls.bind calls.get fun _ => calls.throw _

theorem refuseNames_follows (frame : World.Frame R) (caller : String) (taken : List String)
    (named : List (String × Value)) : Step.Follows R (refuseNames caller taken named) := by
  unfold refuseNames
  split
  · exact frame.throw _
  · exact frame.pure _

theorem callFilter_follows (calls : World.Calls R) (name : String) (v : Value) (a : Arguments) :
    Step.Follows R (s.callFilter name v a) :=
  calls.bind (refuseNames_follows calls.toFrame _ _ _) fun _ => s.callNamed_follows calls _ _ _ _

theorem callFunction_follows (calls : World.Calls R) (name : String) (a : Arguments) :
    Step.Follows R (s.callFunction name a) :=
  calls.bind (refuseNames_follows calls.toFrame _ _ _) fun _ => s.callNamed_follows calls _ _ _ _

theorem callTest_follows (calls : World.Calls R) (name : String) (v : Value)
    (args : List Value) : Step.Follows R (s.callTest name v args) :=
  calls.bind (s.callNamed_follows calls _ _ _ _) fun _ => calls.pure _

end Setting

end Stencil
