import Stencil.Proofs.Assembly.Bare
import Stencil.Proofs.Assembly.Registered
import Stencil.Proofs.Builtin.Plain
import Stencil.Proofs.Render.Loop

namespace Stencil

open Eval

namespace Host

/-- Whether a fault is what a function of the host answers to some call. -/
def Answers (h : Host) (fault : Fault) : Prop :=
  ∃ heap f a, (h.call heap f a).result = .error fault

/-- A fault that refuses a name is let through only if it comes from the host. -/
def Admits (h : Host) (fault : Fault) : Prop :=
  ∀ n, fault = .diagnostic (.unknownName n) → h.Answers fault

variable {h : Host}

theorem admits_of_plain {fault : Fault} (plain : fault.isPlain = true) : h.Admits fault := by
  rintro n rfl
  cases plain

theorem admits_undefined (r : UndefinedReference) :
    h.Admits (.diagnostic (.undefinedReference r)) := nofun

end Host

def World.localNames (w : World) : List String := w.locals.map (·.1)

namespace Eval

variable {α β : Type} {h : Host} {locals : List String}

/-- From worlds with loop variables of these names a computation leads to worlds with the same ones,
unless it fails, and it refuses no name. -/
def Resolves (h : Host) (locals : List String) (x : Eval α) : Prop :=
  ∀ w : World, w.localNames = locals → match x.run w with
    | (.ok _, u) => u.localNames = locals
    | (.error fault, _) => h.Admits fault

namespace Resolves

theorem bind {x : Eval α} {f : α → Eval β} (hx : Resolves h locals x)
    (hf : ∀ a, Resolves h locals (f a)) : Resolves h locals (x >>= f) := by
  intro w names
  have first := hx w names
  rw [Step.run_bind]
  cases run : x.run w with
  | mk result m =>
      rw [run] at first
      cases result with
      | error fault => exact first
      | ok a => exact hf a m first

theorem pure (a : α) : Resolves h locals (Pure.pure a : Eval α) := fun _ names => names

theorem throw {fault : Fault} (admitted : h.Admits fault) :
    Resolves h locals (MonadExcept.throw fault : Eval α) := fun _ _ => admitted

theorem throwPlain {fault : Fault} (plain : fault.isPlain = true) :
    Resolves h locals (MonadExcept.throw fault : Eval α) :=
  .throw (Host.admits_of_plain plain)

theorem ofExcept {x : Except Fault α} (plain : Except.Plain x) :
    Resolves h locals (Eval.ofExcept x) := by
  intro w names
  rw [Eval.ofExcept, Step.run_mk_pure]
  cases x with
  | error fault => exact Host.admits_of_plain (Except.plain_error.mp plain)
  | ok a => exact names

theorem getBind {f : World → Eval β}
    (hf : ∀ w : World, w.localNames = locals → Resolves h locals (f w)) :
    Resolves h locals (MonadState.get >>= f) :=
  fun w names => hf w names w names

theorem withLoopText {f : (Nat → List Char) → Except Fault α}
    (plain : ∀ loopText, Except.Plain (f loopText)) :
    Resolves h locals (Eval.withLoopText f) :=
  .getBind fun w _ => .ofExcept (plain w.loopText)

theorem set {u : World} (names : u.localNames = locals) :
    Resolves h locals (MonadStateOf.set u : Eval PUnit) := fun _ _ => names

theorem modify {f : World → World}
    (same : ∀ w : World, w.localNames = locals → (f w).localNames = w.localNames) :
    Resolves h locals (modify f : Eval PUnit) :=
  fun w names => (same w names).trans names

theorem quietly {x : Eval α} (hx : Resolves h locals x) : Resolves h locals (quietly x) := by
  intro w names
  have inside := hx { w with quiet := w.quiet + 1 } names
  rw [run_quietly]
  cases run : x.run { w with quiet := w.quiet + 1 } with
  | mk result u =>
      rw [run] at inside
      cases result with
      | error fault => exact inside
      | ok a => exact inside

theorem bindQuietly {x : Eval α} {f : α → Eval β} (quiet : Bool) (hx : Resolves h locals x)
    (hf : ∀ a, Resolves h locals (f a)) :
    Resolves h locals (if quiet then Eval.quietly x >>= f else x >>= f) := by
  cases quiet with
  | false => exact hx.bind hf
  | true => exact hx.quietly.bind hf

theorem forEach {step : α → Eval (List β)} (hstep : ∀ a, Resolves h locals (step a))
    (items : List α) (given : List β) : Resolves h locals (forEach step items given) := by
  induction items generalizing given with
  | nil => exact .pure _
  | cons a rest ih => exact (hstep a).bind fun parts => ih _

theorem whileWithin {condition : Eval Bool} {step : Eval (List β)}
    (hcondition : Resolves h locals condition) (hstep : Resolves h locals step) (rounds : Nat)
    (given : List β) : Resolves h locals (whileWithin condition step rounds given) := by
  induction rounds generalizing given with
  | zero => exact .throwPlain rfl
  | succ rounds ih =>
      apply hcondition.bind
      intro holds
      split
      · exact hstep.bind fun parts => ih _
      · exact .pure _

end Resolves

end Eval

section Steps

variable {h : Host} {locals : List String} {s : Setting}

theorem World.localNames_moveLoopUnless (p : Prop) [Decidable p] (w : World) (id i : Nat) :
    World.localNames (if p then w else w.moveLoop id i) = w.localNames := by
  split
  · rfl
  · rw [localNames, localNames, moveLoop_locals]

namespace Value

theorem iterate_resolves (v : Value) : Resolves h locals v.iterate := by
  cases v with
  | list | tuple | str | markup | bytes | dict | view | undefined => exact .pure _
  | generator id => exact .getBind fun _ names => .bind (.set names) fun _ => .pure _
  | loop id =>
      refine .getBind fun w names => .bind (.set ?_) fun _ => .pure _
      exact (w.localNames_moveLoopUnless _ id _).trans names
  | null | bool | int | float | date | moment | object | html | function | method =>
      exact .throwPlain rfl

theorem loopItems_resolves (v : Value) (pairs : Bool) : Resolves h locals (v.loopItems pairs) := by
  unfold loopItems
  split
  · exact .pure _
  · exact .pure _
  · exact (iterate_resolves v).bind fun _ => .pure _

theorem holds_resolves (v item : Value) : Resolves h locals (v.holds item) := by
  cases v with
  | null | bool | int | float | undefined | date | moment | object | html | function | method =>
      exact .pure _
  | list | tuple | str | markup | dict => exact .pure _
  | view kind entries =>
      cases kind with
      | keys | values => exact .pure _
      | items =>
          unfold holds
          dsimp only
          split
          · exact .pure _
          · exact .pure _
  | bytes bs =>
      unfold holds
      dsimp only
      split
      · exact .pure _
      · split
        · split
          · exact .pure _
          · exact .throwPlain rfl
        · exact .pure _
  | generator id => exact .getBind fun _ names => .bind (.set names) fun _ => .pure _
  | loop id =>
      refine .getBind fun w names => .bind (.set ?_) fun _ => .pure _
      exact (w.localNames_moveLoopUnless _ id _).trans names

end Value

theorem CompareOp.apply_resolves (op : CompareOp) (a b : Value) :
    Resolves h locals (op.apply a b) := by
  cases op with
  | eq | ne => exact .pure _
  | lt => exact .ofExcept (Value.order_plain .lt a b)
  | gt => exact .ofExcept (Value.order_plain .gt a b)
  | le => exact .ofExcept (Value.order_plain .le a b)
  | ge => exact .ofExcept (Value.order_plain .ge a b)
  | isIn => exact Value.holds_resolves b a
  | notIn => exact (Value.holds_resolves b a).bind fun _ => .pure _
  | startsWith | endsWith => exact .getBind fun _ _ => .ofExcept Except.plain_ok

namespace Setting

variable (s)

theorem report_resolves (name message : String) : Resolves h locals (s.report name message) := by
  apply Resolves.getBind
  intro w names
  split
  · refine .bind (.set names) fun _ => ?_
    split
    · exact .throw (Host.admits_undefined _)
    · exact .pure _
  · exact .pure _

theorem missing_resolves (name message : String) : Resolves h locals (s.missing name message) :=
  (s.report_resolves name message).bind fun _ => .pure _

theorem access_resolves (v key : Value) : Resolves h locals (s.access v key) := by
  unfold access
  split
  · exact .pure _
  · apply Resolves.getBind
    intro w _
    split
    · exact .pure _
    · exact s.missing_resolves _ _

theorem lookup_resolves (name : String) : Resolves h locals (s.lookup name) := by
  apply Resolves.getBind
  intro w _
  split
  · exact .pure _
  · exact s.missing_resolves _ _

theorem variableOf_resolves (name : String) : Resolves h locals (s.variableOf name) := by
  apply Resolves.getBind
  intro w _
  split
  · exact .pure _
  · exact s.lookup_resolves name

theorem callHost_resolves (f : Value) (a : Arguments) :
    Resolves s.host locals (s.callHost f a) := by
  intro w names
  rw [callHost, Step.run_bind, Step.run_get]
  dsimp only
  rw [Step.run_bind, Step.run_set, Eval.ofExcept]
  dsimp only
  rw [Step.run_mk_pure]
  cases answered : (s.host.call w.heap f a).result with
  | ok v => exact (congrArg (List.map Prod.fst) (w.settle_locals _)).trans names
  | error fault => exact fun _ _ => ⟨w.heap, f, a, answered⟩

theorem callCycle_resolves (id : Nat) (a : Arguments) : Resolves h locals (callCycle id a) := by
  apply Resolves.getBind
  intro w _
  split
  · exact .ofExcept (cycleMethod_plain _ a)
  · exact .pure _

theorem callValue_resolves (f : Value) (a : Arguments) :
    Resolves s.host locals (s.callValue f a) :=
  callValue_cases (P := fun call => Resolves s.host locals (call s))
    (fun _ => s.callHost_resolves f a) (.pure _)
    (fun entries name _ => .ofExcept (dictMethod_plain entries name a))
    (fun id => callCycle_resolves id a) (.throwPlain rfl)

theorem callRegistered_resolves (c : Callable) (a : Arguments) :
    Resolves s.host locals (s.callRegistered c a) := by
  cases c with
  | filter n => exact .withLoopText fun loopText => Filter.call_plain loopText n a
  | test n => exact .ofExcept (Test.call_plain n a)
  | range => exact .ofExcept (Range.call_plain a)
  | value v => exact s.callValue_resolves v a

theorem callNamed_resolves {kind : NameKind} {table : Registry} {name : String}
    (known : (table.lookup name).isSome = true) (a : Arguments) :
    Resolves s.host locals (s.callNamed kind table name a) := by
  obtain ⟨c, found⟩ := Option.isSome_iff_exists.mp known
  rw [callNamed, found]
  exact s.callRegistered_resolves c a

theorem refuseNames_resolves (caller : String) (taken : List String)
    (named : List (String × Value)) : Resolves h locals (refuseNames caller taken named) := by
  unfold refuseNames
  split
  · exact .throwPlain rfl
  · exact .pure _

theorem callFilter_resolves {name : String} (known : s.registries.Knows .filters name) (v : Value)
    (a : Arguments) : Resolves s.host locals (s.callFilter name v a) :=
  (refuseNames_resolves _ _ _).bind fun _ => s.callNamed_resolves known _

theorem callFunction_resolves {name : String} (known : s.registries.Knows .functions name)
    (a : Arguments) : Resolves s.host locals (s.callFunction name a) :=
  (refuseNames_resolves _ _ _).bind fun _ => s.callNamed_resolves known a

theorem callTest_resolves {name : String} (known : s.registries.Knows .tests name) (v : Value)
    (args : List Value) : Resolves s.host locals (s.callTest name v args) :=
  (s.callNamed_resolves known _).bind fun _ => .pure _

end Setting

theorem called_resolves {positional : Eval (List Value)} {named : Eval (List (String × Value))}
    {call : Arguments → Eval Value} (hpositional : Resolves h locals positional)
    (hnamed : Resolves h locals named) (hcall : ∀ a, Resolves h locals (call a)) :
    Resolves h locals (positional >>= fun p => named >>= fun n => call ⟨p, n⟩) := by
  apply hpositional.bind
  intro p
  apply hnamed.bind
  intro n
  exact hcall ⟨p, n⟩

end Steps

section Evaluate

open Expr (any anyOf anyNamed anyEntry anyLink looksUp)
open Registries (covers_or covers_none covers_single)

variable {s : Setting} {locals : List String}

mutual

theorem evaluate_resolves :
    (e : Expr) → e.Registered s.registries locals → Resolves s.host locals (evaluate s e)
  | .const _ value, _ => .pure _
  | .name _ name, _ => s.variableOf_resolves name
  | .list _ items, known => by
      simp only [Expr.Registered, any, looksUp, covers_or] at known
      exact (evaluateAll_resolves items known.2).bind fun _ => .pure _
  | .dict _ entries, known => by
      simp only [Expr.Registered, any, looksUp, covers_or] at known
      exact (evaluateEntries_resolves entries known.2).bind fun values =>
        .ofExcept (buildDict_plain values)
  | .attr _ object name, known => by
      simp only [Expr.Registered, any, looksUp, covers_or] at known
      exact (evaluate_resolves object known.2).bind fun v => s.access_resolves v _
  | .item _ object key, known => by
      simp only [Expr.Registered, any, looksUp, covers_or] at known
      apply (evaluate_resolves object known.1.2).bind
      intro v
      exact (evaluate_resolves key known.2).bind fun k => s.access_resolves v k
  | .call _ callee args named, known => by
      simp only [Expr.Registered, any, covers_or] at known
      have hargs := evaluateAll_resolves args known.1.2
      have hnamed := evaluateNamed_resolves named known.2
      have called := (evaluate_resolves callee known.1.1.2).bind fun f =>
        called_resolves hargs hnamed fun a => s.callValue_resolves f a
      cases callee with
      | name _ name =>
          apply Resolves.getBind
          intro w names
          split
          · next f _ => exact called_resolves hargs hnamed (s.callValue_resolves f)
          · next free =>
              have bare := known.1.1.1
              simp only [looksUp, covers_call] at bare
              have notLocal : name ∉ locals := names ▸ lookup_eq_none_iff_names.mp free
              exact called_resolves hargs hnamed (s.callFunction_resolves (bare notLocal))
      | _ => exact called
  | .filter _ value name args named, known => by
      simp only [Expr.Registered, any, looksUp, covers_or, covers_single] at known
      apply Resolves.bindQuietly _ (evaluate_resolves value known.1.1.2)
      intro v
      exact called_resolves (evaluateAll_resolves args known.1.2)
        (evaluateNamed_resolves named known.2) (s.callFilter_resolves known.1.1.1 v)
  | .test _ value name args negated, known => by
      simp only [Expr.Registered, any, looksUp, covers_or, covers_single] at known
      apply Resolves.bindQuietly _ (evaluate_resolves value known.1.2)
      intro v
      apply (evaluateAll_resolves args known.2).bind
      intro given
      exact (s.callTest_resolves known.1.1 v given).bind fun _ => .pure _
  | .arith _ op left right, known => by
      simp only [Expr.Registered, any, looksUp, covers_or] at known
      apply (evaluate_resolves left known.1.2).bind
      intro a
      apply (evaluate_resolves right known.2).bind
      intro b
      exact .withLoopText fun loopText => op.apply_plain loopText a b
  | .sign _ op operand, known => by
      simp only [Expr.Registered, any, looksUp, covers_or] at known
      exact (evaluate_resolves operand known.2).bind fun v => .ofExcept (op.apply_plain v)
  | .compare _ first [], known => by
      simp only [Expr.Registered, any, looksUp, covers_or] at known
      exact evaluate_resolves first known.1.2
  | .compare _ first ((op, e) :: rest), known => by
      simp only [Expr.Registered, any, anyLink, looksUp, covers_or] at known
      have hfirst := evaluate_resolves first known.1.2
      have hsecond := evaluate_resolves e known.2.1
      have linked : ∀ a b : Value, Resolves s.host locals
          (op.apply a b >>= fun holds => evaluateLinks s b holds rest) := by
        intro a b
        apply (op.apply_resolves a b).bind
        intro holds
        exact evaluateLinks_resolves b holds rest known.2.2
      rw [evaluate]
      split
      · exact hsecond.bind fun b => hfirst.bind fun a => linked a b
      · exact hfirst.bind fun a => hsecond.bind fun b => linked a b
  | .logic _ op parts, known => by
      simp only [Expr.Registered, any, looksUp, covers_or] at known
      exact evaluateLogic_resolves op parts known.2
  | .choice _ condition ifTrue ifFalse, known => by
      simp only [Expr.Registered, any, looksUp, covers_or] at known
      apply (evaluate_resolves condition known.1.1.2).bind
      intro v
      split
      · exact evaluate_resolves ifTrue known.1.2
      · exact evaluate_resolves ifFalse known.2
  | .range _ first last, known => by
      simp only [Expr.Registered, any, looksUp, covers_or] at known
      apply (evaluate_resolves first known.1.2).bind
      intro a
      apply (evaluate_resolves last known.2).bind
      intro b
      exact (Resolves.ofExcept (Range.inclusive_plain a b _)).bind fun _ => .pure _
  | .concat _ parts, known => by
      simp only [Expr.Registered, any, looksUp, covers_or] at known
      exact (evaluateAll_resolves parts known.2).bind fun _ =>
        .withLoopText fun _ => Except.plain_ok

theorem evaluateAll_resolves :
    (es : List Expr) → (s.registries.Covers fun t name => anyOf (looksUp locals t name) es) →
      Resolves s.host locals (evaluateAll s es)
  | [], _ => .pure _
  | e :: rest, known => by
      simp only [anyOf, covers_or] at known
      apply (evaluate_resolves e known.1).bind
      intro v
      exact (evaluateAll_resolves rest known.2).bind fun _ => .pure _

theorem evaluateNamed_resolves :
    (named : List (String × Expr)) →
      (s.registries.Covers fun t name => anyNamed (looksUp locals t name) named) →
      Resolves s.host locals (evaluateNamed s named)
  | [], _ => .pure _
  | (name, e) :: rest, known => by
      simp only [anyNamed, covers_or] at known
      apply (evaluate_resolves e known.1).bind
      intro v
      exact (evaluateNamed_resolves rest known.2).bind fun _ => .pure _

theorem evaluateEntries_resolves :
    (entries : List (Expr × Expr)) →
      (s.registries.Covers fun t name => anyEntry (looksUp locals t name) entries) →
      Resolves s.host locals (evaluateEntries s entries)
  | [], _ => .pure _
  | (key, e) :: rest, known => by
      simp only [anyEntry, covers_or] at known
      apply (evaluate_resolves key known.1.1).bind
      intro k
      apply (evaluate_resolves e known.1.2).bind
      intro v
      exact (evaluateEntries_resolves rest known.2).bind fun _ => .pure _

theorem evaluateLinks_resolves (left : Value) (holds : Bool) :
    (links : List (CompareOp × Expr)) →
      (s.registries.Covers fun t name => anyLink (looksUp locals t name) links) →
      Resolves s.host locals (evaluateLinks s left holds links)
  | [], _ => .pure _
  | (op, e) :: rest, known => by
      simp only [anyLink, covers_or] at known
      rw [evaluateLinks]
      split
      · apply (evaluate_resolves e known.1).bind
        intro right
        apply (op.apply_resolves left right).bind
        intro holds
        exact evaluateLinks_resolves right holds rest known.2
      · exact .pure _

theorem evaluateLogic_resolves (op : LogicOp) :
    (parts : List Expr) →
      (s.registries.Covers fun t name => anyOf (looksUp locals t name) parts) →
      Resolves s.host locals (evaluateLogic s op parts)
  | [], _ => .pure _
  | [e], known => by
      simp only [anyOf, covers_or] at known
      exact evaluate_resolves e known.1
  | e :: next :: rest, known => by
      change s.registries.Covers fun t name =>
        e.any (looksUp locals t name) || anyOf (looksUp locals t name) (next :: rest) at known
      rw [covers_or] at known
      apply (evaluate_resolves e known.1).bind
      intro v
      split
      · exact .pure _
      · exact evaluateLogic_resolves op (next :: rest) known.2

end

end Evaluate

end Stencil
