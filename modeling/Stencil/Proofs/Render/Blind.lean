import Stencil.Proofs.Render.Frame

namespace Stencil

open Eval

def Blind {α : Type} (x : Eval α) : Prop :=
  ∀ (w : World) quiet references locals, x.run { w with quiet, references, locals } =
    ((x.run w).1, { (x.run w).2 with quiet, references, locals })

namespace Blind

variable {α β : Type}

theorem quiet {x : Eval α} (blind : Blind x) (w : World) : (x.run w).2.quiet = w.quiet :=
  congrArg (fun ended => ended.2.quiet) (blind w w.quiet w.references w.locals)

theorem references {x : Eval α} (blind : Blind x) (w : World) :
    (x.run w).2.references = w.references :=
  congrArg (fun ended => ended.2.references) (blind w w.quiet w.references w.locals)

theorem locals {x : Eval α} (blind : Blind x) (w : World) : (x.run w).2.locals = w.locals :=
  congrArg (fun ended => ended.2.locals) (blind w w.quiet w.references w.locals)

theorem pure (a : α) : Blind (Pure.pure a : Eval α) := fun _ _ _ _ => rfl

theorem throw (fault : Fault) : Blind (MonadExcept.throw fault : Eval α) := fun _ _ _ _ => rfl

theorem bind {x : Eval α} {f : α → Eval β} (hx : Blind x) (hf : ∀ a, Blind (f a)) :
    Blind (x >>= f) := by
  intro w quiet references locals
  rw [Step.run_bind, Step.run_bind, hx]
  obtain ⟨fault | a, m⟩ := x.run w
  · rfl
  · exact hf a m quiet references locals

theorem ofExcept (x : Except Fault α) : Blind (Eval.ofExcept x) := fun _ _ _ _ => rfl

theorem withLoopText (f : (Nat → List Char) → Except Fault α) : Blind (Eval.withLoopText f) :=
  fun _ _ _ _ => rfl

theorem getBind {f : World → Eval β} (hf : ∀ w, Blind (f w))
    (same : ∀ (w : World) quiet references locals,
      f { w with quiet, references, locals } = f w) :
    Blind (MonadState.get >>= f) := by
  intro w quiet references locals
  show (f { w with quiet, references, locals }).run { w with quiet, references, locals } = _
  rw [same]
  exact hf w w quiet references locals

theorem update {f : World → World} {next : World → Eval α}
    (hf : ∀ (w : World) quiet references locals,
      f { w with quiet, references, locals } = { f w with quiet, references, locals })
    (hnext : ∀ w, Blind (next w))
    (same : ∀ (w : World) quiet references locals,
      next { w with quiet, references, locals } = next w) :
    Blind (MonadState.get >>= fun w => MonadStateOf.set (f w) >>= fun _ => next w) := by
  intro w quiet references locals
  show (next { w with quiet, references, locals }).run (f { w with quiet, references, locals }) = _
  rw [hf, same]
  exact hnext w (f w) quiet references locals

end Blind

namespace World

variable (quiet : Nat) (references : List Reference) (locals : List (String × Value))

theorem moveLoop_blind (w : World) (id index : Nat) :
    World.moveLoop { w with quiet, references, locals } id index =
      { w.moveLoop id index with quiet, references, locals } := by
  unfold moveLoop
  dsimp only
  split <;> rfl

theorem settle_blind (w : World) (answer : HostAnswer) :
    World.settle { w with quiet, references, locals } answer =
      { w.settle answer with quiet, references, locals } := by
  have moved : ∀ (moved : List (Nat × Nat)) (w : World),
      World.moveLoops { w with quiet, references, locals } moved =
        { w.moveLoops moved with quiet, references, locals } := by
    intro moved
    induction moved with
    | nil => exact fun _ => rfl
    | cons e rest ih =>
        intro w
        rw [moveLoops, moveLoop_blind, ih, moveLoops]
  exact moved answer.moved (w.record answer)

theorem moveLoopUnless_blind (p : Prop) [Decidable p] (w : World) (id index : Nat) :
    (if p then { w with quiet, references, locals }
      else World.moveLoop { w with quiet, references, locals } id index) =
      { if p then w else w.moveLoop id index with quiet, references, locals } := by
  split
  · rfl
  · exact moveLoop_blind quiet references locals w id index

end World

namespace Value

theorem iterate_blind (v : Value) : Blind v.iterate := by
  cases v with
  | generator id => exact .update (fun _ _ _ _ => rfl) (fun _ => .pure _) fun _ _ _ _ => rfl
  | loop id =>
      exact .update (fun w quiet references locals =>
        World.moveLoopUnless_blind quiet references locals _ w id _) (fun _ => .pure _)
        fun _ _ _ _ => rfl
  | null | bool | int | float | date | moment | object | html | function | method =>
      exact .throw _
  | _ => exact .pure _

theorem loopItems_blind (v : Value) (pairs : Bool) : Blind (v.loopItems pairs) := by
  unfold loopItems
  split
  · exact .pure _
  · exact .pure _
  · exact (iterate_blind v).bind fun _ => .pure _

theorem holds_blind (v item : Value) : Blind (v.holds item) := by
  cases v with
  | generator id => exact .update (fun _ _ _ _ => rfl) (fun _ => .pure _) fun _ _ _ _ => rfl
  | loop id =>
      exact .update (fun w quiet references locals =>
        World.moveLoopUnless_blind quiet references locals _ w id _) (fun _ => .pure _)
        fun _ _ _ _ => rfl
  | view kind entries =>
      cases kind with
      | keys | values => exact .pure _
      | items =>
          unfold holds
          dsimp only
          split
          · exact .pure _
          · exact .pure _
  | bytes bs =>
      unfold holds
      dsimp only
      split
      · exact .pure _
      · split
        · split
          · exact .pure _
          · exact .throw _
        · exact .pure _
  | _ => exact .pure _

end Value

theorem CompareOp.apply_blind (op : CompareOp) (a b : Value) : Blind (op.apply a b) := by
  cases op with
  | eq | ne => exact .pure _
  | lt | gt | le | ge => exact .ofExcept _
  | isIn => exact Value.holds_blind b a
  | notIn => exact (Value.holds_blind b a).bind fun _ => .pure _
  | startsWith | endsWith =>
      unfold apply
      exact .withLoopText _

namespace Setting

variable (s : Setting)

theorem callHost_blind (f : Value) (a : Arguments) : Blind (s.callHost f a) :=
  .update (fun w quiet references locals => w.settle_blind quiet references locals _)
    (fun _ => .ofExcept _) fun _ _ _ _ => rfl

theorem callCycle_blind (id : Nat) (a : Arguments) : Blind (callCycle id a) := by
  refine .getBind (fun w => ?_) fun _ _ _ _ => rfl
  split
  · exact .ofExcept _
  · exact .pure _

theorem callValue_blind (f : Value) (a : Arguments) : Blind (s.callValue f a) :=
  callValue_cases (P := fun call => Blind (call s)) (fun _ => s.callHost_blind f a) (.pure _)
    (fun _ _ _ => .ofExcept _) (fun id => callCycle_blind id a) (.throw _)

theorem callRegistered_blind (c : Callable) (a : Arguments) : Blind (s.callRegistered c a) := by
  cases c with
  | filter n =>
      unfold callRegistered
      exact .withLoopText _
  | test n => exact .ofExcept _
  | range => exact .ofExcept _
  | value v => exact s.callValue_blind v a

theorem callNamed_blind (kind : NameKind) (table : Registry) (name : String) (a : Arguments) :
    Blind (s.callNamed kind table name a) := by
  unfold callNamed
  split
  · exact s.callRegistered_blind _ a
  · exact .getBind (fun _ => .throw _) fun _ _ _ _ => rfl

theorem refuseNames_blind (caller : String) (taken : List String) (named : List (String × Value)) :
    Blind (refuseNames caller taken named) := by
  unfold refuseNames
  split
  · exact .throw _
  · exact .pure _

theorem callFilter_blind (name : String) (v : Value) (a : Arguments) :
    Blind (s.callFilter name v a) :=
  (refuseNames_blind _ _ _).bind fun _ => s.callNamed_blind _ _ _ _

theorem callFunction_blind (name : String) (a : Arguments) : Blind (s.callFunction name a) :=
  (refuseNames_blind _ _ _).bind fun _ => s.callNamed_blind _ _ _ _

theorem callTest_blind (name : String) (v : Value) (args : List Value) :
    Blind (s.callTest name v args) :=
  (s.callNamed_blind _ _ _ _).bind fun _ => .pure _

end Setting

end Stencil
