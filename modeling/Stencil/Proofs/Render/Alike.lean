import Stencil.Proofs.Grammar.Printer
import Stencil.Proofs.Render.Asks

namespace Stencil

open Eval

/-! Reports without their places. -/

def Reference.unplaced (r : Reference) : Reference := { r with line := 0 }

def Diagnostic.unplaced : Diagnostic → Diagnostic
  | .undefinedReference r => .undefinedReference { r with line := none, snippet := none }
  | .unknownName n => .unknownName { n with line := none }
  | .render e => .render { e with line := none, snippet := none }
  | d => d

def Fault.unplaced : Fault → Fault
  | .diagnostic d => .diagnostic d.unplaced
  | fault => fault

def Setting.sourceless (s : Setting) : Setting := { s with source := "" }

/-- Worlds that differ at most in the current line and in the lines of the references that were
reported. -/
inductive World.Like (w : World) : World → Prop
  | intro {line : Nat} {references : List Reference} :
      references.map Reference.unplaced = w.references.map Reference.unplaced →
        w.Like { w with line, references }

namespace World.Like

variable {w u v : World}

theorem refl (w : World) : w.Like w := .intro rfl

theorem symm (like : w.Like u) : u.Like w := by
  cases like with
  | intro same => exact @intro _ w.line w.references same.symm

theorem trans (first : w.Like u) (second : u.Like v) : w.Like v := by
  cases first with
  | intro same =>
      cases second with
      | intro same' => exact .intro (same'.trans same)

theorem references (like : w.Like u) :
    w.references.map Reference.unplaced = u.references.map Reference.unplaced := by
  cases like with
  | intro same => exact same.symm

theorem setQuiet (like : w.Like u) :
    World.Like { w with quiet := w.quiet + 1 } { u with quiet := u.quiet + 1 } ∧
      World.Like { w with quiet := w.quiet - 1 } { u with quiet := u.quiet - 1 } := by
  cases like with
  | intro same => exact ⟨.intro same, .intro same⟩

theorem moveLoop (like : w.Like u) (id index : Nat) :
    (w.moveLoop id index).Like (u.moveLoop id index) := by
  cases like with
  | intro same =>
      unfold World.moveLoop
      dsimp only
      split
      · exact .intro same
      · exact .intro same

theorem settle (like : w.Like u) (answer : HostAnswer) :
    (w.settle answer).Like (u.settle answer) := by
  have moved : ∀ (moved : List (Nat × Nat)) {w u : World}, w.Like u →
      (w.moveLoops moved).Like (u.moveLoops moved) := by
    intro moved
    induction moved with
    | nil => exact id
    | cons e rest ih => exact fun like => ih (like.moveLoop e.1 e.2)
  apply moved
  cases like with
  | intro same => exact .intro same

end World.Like

namespace Eval

variable {α β : Type}

/-- Ends of two computations that differ at most in the places of what is reported. -/
inductive Alike : Except Fault α × World → Except Fault α × World → Prop
  | ok {a : α} {w u : World} : w.Like u → Alike (.ok a, w) (.ok a, u)
  | error {fault fault' : Fault} {w u : World} :
      fault.unplaced = fault'.unplaced → w.Like u → Alike (.error fault, w) (.error fault', u)

namespace Alike

variable {first second third : Except Fault α × World}

theorem symm (alike : Alike first second) : Alike second first := by
  cases alike with
  | ok like => exact .ok like.symm
  | error same like => exact .error same.symm like.symm

theorem trans (alike : Alike first second) (alike' : Alike second third) : Alike first third := by
  cases alike with
  | ok like =>
      cases alike' with
      | ok like' => exact .ok (like.trans like')
  | error same like =>
      cases alike' with
      | error same' like' => exact .error (same.trans same') (like.trans like')

end Alike

/-- From worlds that are alike two computations come to ends that are alike. -/
def Matches (x y : Eval α) : Prop := ∀ w u : World, w.Like u → Alike (x.run w) (y.run u)

namespace Matches

theorem symm {x y : Eval α} (matched : Matches x y) : Matches y x :=
  fun w u like => (matched u w like.symm).symm

theorem trans {x y z : Eval α} (first : Matches x y) (second : Matches y z) : Matches x z :=
  fun w u like => (first w u like).trans (second u u (.refl u))

theorem bind {x y : Eval α} {f g : α → Eval β} (hxy : Matches x y)
    (hfg : ∀ a, Matches (f a) (g a)) : Matches (x >>= f) (y >>= g) := by
  intro w u like
  have first := hxy w u like
  rw [Step.run_bind, Step.run_bind]
  generalize x.run w = r at first ⊢
  generalize y.run u = r' at first ⊢
  cases first with
  | ok like => exact hfg _ _ _ like
  | error same like => exact .error same like

theorem pure (a : α) : Matches (Pure.pure a : Eval α) (Pure.pure a) := fun _ _ like => .ok like

theorem throw {fault fault' : Fault} (same : fault.unplaced = fault'.unplaced) :
    Matches (MonadExcept.throw fault : Eval α) (MonadExcept.throw fault') :=
  fun _ _ like => .error same like

theorem ofExcept (x : Except Fault α) : Matches (Eval.ofExcept x) (Eval.ofExcept x) := by
  intro w u like
  rw [Eval.ofExcept, Step.run_mk_pure, Step.run_mk_pure]
  cases x with
  | ok a => exact .ok like
  | error fault => exact .error rfl like

theorem getBind {f g : World → Eval β} (hfg : ∀ w u : World, w.Like u → Matches (f w) (g u)) :
    Matches (MonadState.get >>= f) (MonadState.get >>= g) :=
  fun w u like => hfg w u like w u like

theorem set {w u : World} (like : w.Like u) :
    Matches (MonadStateOf.set w : Eval PUnit) (MonadStateOf.set u) := fun _ _ _ => .ok like

theorem modify {f g : World → World} (hfg : ∀ w u : World, w.Like u → (f w).Like (g u)) :
    Matches (modify f : Eval PUnit) (modify g) := fun w u like => .ok (hfg w u like)

theorem withLoopText (f : (Nat → List Char) → Except Fault α) :
    Matches (Eval.withLoopText f) (Eval.withLoopText f) := by
  apply Matches.getBind
  intro w u like
  cases like
  exact .ofExcept _

theorem quietly {x y : Eval α} (hxy : Matches x y) : Matches (quietly x) (quietly y) := by
  intro w u like
  have inside := hxy _ _ like.setQuiet.1
  rw [run_quietly, run_quietly]
  generalize x.run { w with quiet := w.quiet + 1 } = r at inside ⊢
  generalize y.run { u with quiet := u.quiet + 1 } = r' at inside ⊢
  cases inside with
  | ok like => exact .ok like.setQuiet.2
  | error same like => exact .error same like.setQuiet.2

theorem bindQuietly {x y : Eval α} {f g : α → Eval β} (quiet : Bool) (hxy : Matches x y)
    (hfg : ∀ a, Matches (f a) (g a)) :
    Matches (if quiet then Eval.quietly x >>= f else x >>= f)
      (if quiet then Eval.quietly y >>= g else y >>= g) := by
  cases quiet with
  | false => exact hxy.bind hfg
  | true => exact hxy.quietly.bind hfg

theorem forEach {step bare : α → Eval (List β)} (hstep : ∀ a, Matches (step a) (bare a))
    (items : List α) (given : List β) :
    Matches (forEach step items given) (Eval.forEach bare items given) := by
  induction items generalizing given with
  | nil => exact .pure _
  | cons a rest ih => exact (hstep a).bind fun parts => ih _

theorem whileWithin {condition condition' : Eval Bool} {step step' : Eval (List β)}
    (hcondition : Matches condition condition') (hstep : Matches step step') (rounds : Nat)
    (given : List β) :
    Matches (whileWithin condition step rounds given)
      (Eval.whileWithin condition' step' rounds given) := by
  induction rounds generalizing given with
  | zero => exact .throw rfl
  | succ rounds ih =>
      apply hcondition.bind
      intro holds
      split
      · exact hstep.bind fun parts => ih _
      · exact .pure _

end Matches

end Eval

namespace Value

theorem iterate_matches (v : Value) : Matches v.iterate v.iterate := by
  cases v with
  | list | tuple | str | markup | bytes | dict | view | undefined => exact .pure _
  | generator id =>
      apply Matches.getBind
      intro w u like
      cases like with
      | intro same => exact .bind (.set (.intro same)) fun _ => .pure _
  | loop id =>
      apply Matches.getBind
      intro w u like
      have moved := like.moveLoop id
      cases like with
      | intro same =>
          refine .bind (.set ?_) fun _ => .pure _
          dsimp only
          split
          · exact .intro same
          · exact moved _
  | null | bool | int | float | date | moment | object | html | function | method =>
      exact .throw rfl

theorem loopItems_matches (v : Value) (pairs : Bool) :
    Matches (v.loopItems pairs) (v.loopItems pairs) := by
  unfold loopItems
  split
  · exact .pure _
  · exact .pure _
  · exact (iterate_matches v).bind fun _ => .pure _

theorem holds_matches (v item : Value) : Matches (v.holds item) (v.holds item) := by
  cases v with
  | null | bool | int | float | undefined | date | moment | object | html | function | method =>
      exact .pure _
  | list | tuple | str | markup | dict => exact .pure _
  | view kind entries =>
      cases kind with
      | keys | values => exact .pure _
      | items =>
          unfold holds
          dsimp only
          split
          · exact .pure _
          · exact .pure _
  | bytes bs =>
      unfold holds
      dsimp only
      split
      · exact .pure _
      · split
        · split
          · exact .pure _
          · exact .throw rfl
        · exact .pure _
  | generator id =>
      apply Matches.getBind
      intro w u like
      cases like with
      | intro same => exact .bind (.set (.intro same)) fun _ => .pure _
  | loop id =>
      apply Matches.getBind
      intro w u like
      have moved := like.moveLoop id
      cases like with
      | intro same =>
          refine .bind (.set ?_) fun _ => .pure _
          dsimp only
          split
          · exact .intro same
          · exact moved _

end Value

theorem CompareOp.apply_matches (op : CompareOp) (a b : Value) :
    Matches (op.apply a b) (op.apply a b) := by
  cases op with
  | eq | ne => exact .pure _
  | lt | gt | le | ge => exact .ofExcept _
  | isIn => exact Value.holds_matches b a
  | notIn => exact (Value.holds_matches b a).bind fun _ => .pure _
  | startsWith | endsWith =>
      unfold CompareOp.apply
      exact .withLoopText _

namespace Setting

variable (s : Setting)

theorem report_matches (name message : String) :
    Matches (s.report name message) (s.sourceless.report name message) := by
  apply Matches.getBind
  intro w u like
  cases like with
  | @intro line references same =>
      dsimp only
      split
      · refine .bind (.set (.intro ?_)) fun _ => ?_
        · rw [List.map_append, List.map_append, same]
          rfl
        · show Matches (if s.strict = true then _ else _) (if s.strict = true then _ else _)
          split
          · exact .throw rfl
          · exact .pure _
      · exact .pure _

theorem missing_matches (name message : String) :
    Matches (s.missing name message) (s.sourceless.missing name message) :=
  (s.report_matches name message).bind fun _ => .pure _

theorem access_matches (v key : Value) :
    Matches (s.access v key) (s.sourceless.access v key) := by
  unfold access
  split
  · exact .pure _
  · next defined =>
      apply Matches.getBind
      intro w u like
      cases like with
      | @intro line references same =>
          rw [show s.sourceless.host = s.host from rfl]
          have sameHeap : ({ w with line, references } : World).heap = w.heap := rfl
          rw [sameHeap]
          cases v.part? s.host w.heap key with
          | some part => exact .pure _
          | none => exact s.missing_matches _ _

theorem lookup_matches (name : String) : Matches (s.lookup name) (s.sourceless.lookup name) := by
  apply Matches.getBind
  intro w u like
  cases like
  dsimp only
  split
  · exact .pure _
  · exact s.missing_matches _ _

theorem variableOf_matches (name : String) :
    Matches (s.variableOf name) (s.sourceless.variableOf name) := by
  apply Matches.getBind
  intro w u like
  cases like
  dsimp only
  split
  · exact .pure _
  · exact s.lookup_matches name

theorem callHost_matches (f : Value) (a : Arguments) :
    Matches (s.callHost f a) (s.sourceless.callHost f a) := by
  apply Matches.getBind
  intro w u like
  have settled := like.settle (s.host.call w.heap f a)
  cases like with
  | intro same => exact .bind (.set settled) fun _ => .ofExcept _

theorem callCycle_matches (id : Nat) (a : Arguments) :
    Matches (callCycle id a) (callCycle id a) := by
  apply Matches.getBind
  intro w u like
  cases like
  dsimp only
  split
  · exact .ofExcept _
  · exact .pure _

theorem callValue_matches (f : Value) (a : Arguments) :
    Matches (s.callValue f a) (s.sourceless.callValue f a) :=
  callValue_cases (P := fun call => Matches (call s) (call s.sourceless))
    (fun _ => s.callHost_matches f a) (.pure _) (fun _ _ _ => .ofExcept _)
    (fun id => callCycle_matches id a) (.throw rfl)

theorem callRegistered_matches (c : Callable) (a : Arguments) :
    Matches (s.callRegistered c a) (s.sourceless.callRegistered c a) := by
  cases c with
  | filter n =>
      unfold callRegistered
      exact .withLoopText _
  | test n => exact .ofExcept _
  | range => exact .ofExcept _
  | value v => exact s.callValue_matches v a

theorem callNamed_matches (kind : NameKind) (table : Registry) (name : String) (a : Arguments) :
    Matches (s.callNamed kind table name a) (s.sourceless.callNamed kind table name a) := by
  unfold callNamed
  split
  · exact s.callRegistered_matches _ a
  · apply Matches.getBind
    intro w u like
    exact .throw rfl

theorem refuseNames_matches (caller : String) (taken : List String)
    (named : List (String × Value)) :
    Matches (refuseNames caller taken named) (refuseNames caller taken named) := by
  unfold refuseNames
  split
  · exact .throw rfl
  · exact .pure _

theorem callFilter_matches (name : String) (v : Value) (a : Arguments) :
    Matches (s.callFilter name v a) (s.sourceless.callFilter name v a) :=
  (refuseNames_matches _ _ _).bind fun _ => s.callNamed_matches _ _ _ _

theorem callFunction_matches (name : String) (a : Arguments) :
    Matches (s.callFunction name a) (s.sourceless.callFunction name a) :=
  (refuseNames_matches _ _ _).bind fun _ => s.callNamed_matches _ _ _ _

theorem callTest_matches (name : String) (v : Value) (args : List Value) :
    Matches (s.callTest name v args) (s.sourceless.callTest name v args) :=
  (s.callNamed_matches _ _ _ _).bind fun _ => .pure _

end Setting

theorem called_matches {positional positional' : Eval (List Value)}
    {named named' : Eval (List (String × Value))} {call call' : Arguments → Eval Value}
    (hpositional : Matches positional positional') (hnamed : Matches named named')
    (hcall : ∀ a, Matches (call a) (call' a)) :
    Matches (positional >>= fun p => named >>= fun n => call ⟨p, n⟩)
      (positional' >>= fun p => named' >>= fun n => call' ⟨p, n⟩) := by
  apply hpositional.bind
  intro p
  apply hnamed.bind
  intro n
  exact hcall ⟨p, n⟩

end Stencil
