import Stencil.Environment.Render
import Stencil.Proofs.Render.Frame

namespace Stencil

open Eval

namespace Setting

def strictly (s : Setting) : Setting := { s with strict := true }

def undefinedFault (s : Setting) (r : Reference) : Fault :=
  .diagnostic (.undefinedReference (s.undefinedError r))

end Setting

def SameReferences (w u : World) : Prop := u.references = w.references

theorem SameReferences.calls : World.Calls SameReferences where
  refl _ := rfl
  trans first second := second.trans first
  notes _ _ := rfl
  generators _ _ := rfl
  moves w id i := by
    unfold World.moveLoop
    split <;> rfl

section Agreement

variable {α β : Type}

/-- What a strict computation does from a world where the lenient one gives `lenient`: the same if
nothing was missing on the way; or else it fails at the first reference that was. -/
inductive Agreement (s : Setting) (w : World) (lenient : Except Fault α × World) :
    Except Fault α × World → Prop
  | same : lenient.2.references = w.references → Agreement s w lenient lenient
  | stopped {r : Reference} {more : List Reference} {u : World} :
      lenient.2.references = w.references ++ r :: more → u.references = w.references ++ [r] →
      Agreement s w lenient (.error (s.undefinedFault r), u)

theorem Agreement.grows {s : Setting} {w : World} {lenient strict : Except Fault α × World}
    (agreement : Agreement s w lenient strict) :
    ∃ more, lenient.2.references = w.references ++ more := by
  cases agreement with
  | same unchanged => exact ⟨[], by simpa using unchanged⟩
  | stopped found _ => exact ⟨_, found⟩

theorem Agreement.loud {s : Setting} {w : World} {quiet : Nat}
    {lenient strict : Except Fault α × World}
    (agreement : Agreement s { w with quiet } lenient strict) :
    Agreement s w (lenient.1, { lenient.2 with quiet := lenient.2.quiet - 1 })
      (strict.1, { strict.2 with quiet := strict.2.quiet - 1 }) := by
  cases agreement with
  | same unchanged => exact .same unchanged
  | stopped found ends => exact .stopped found ends

namespace Eval

/-- Whether the second computation is the first one made strict. -/
def Agrees (s : Setting) (x y : Eval α) : Prop := ∀ w, Agreement s w (x.run w) (y.run w)

namespace Agrees

variable {s : Setting}

theorem bind {x y : Eval α} {f g : α → Eval β} (hxy : Agrees s x y)
    (hfg : ∀ a, Agrees s (f a) (g a)) : Agrees s (x >>= f) (y >>= g) := by
  intro w
  have first := hxy w
  rw [Step.run_bind, Step.run_bind]
  generalize hx : x.run w = lenient at first
  generalize hy : y.run w = strict at first
  obtain ⟨result, u⟩ := lenient
  cases first with
  | same unchanged =>
      cases result with
      | error fault => exact .same unchanged
      | ok a =>
          have second := hfg a u
          dsimp only at unchanged ⊢
          generalize (f a).run u = lenient at second
          generalize (g a).run u = strict at second
          cases second with
          | same further => exact .same (further.trans unchanged)
          | stopped found ends => exact .stopped (unchanged ▸ found) (unchanged ▸ ends)
  | @stopped r more v found ends =>
      cases result with
      | error fault => exact .stopped found ends
      | ok a =>
          obtain ⟨further, grown⟩ := (hfg a u).grows
          have all : ((f a).run u).2.references = w.references ++ r :: (more ++ further) := by
            rw [grown, found, List.append_assoc, List.cons_append]
          exact .stopped all ends

theorem pure (a : α) : Agrees s (Pure.pure a : Eval α) (Pure.pure a) := fun _ => .same rfl

theorem throw (fault : Fault) :
    Agrees s (MonadExcept.throw fault : Eval α) (MonadExcept.throw fault) := fun _ => .same rfl

theorem get : Agrees s (MonadState.get : Eval World) MonadState.get := fun _ => .same rfl

theorem modify {f : World → World} (unchanged : ∀ w, (f w).references = w.references) :
    Agrees s (modify f : Eval PUnit) (modify f) :=
  fun w => .same (unchanged w)

theorem silent {x : Eval α} (unchanged : Step.Follows SameReferences x) : Agrees s x x :=
  fun w => .same (unchanged w)

theorem ofExcept (x : Except Fault α) : Agrees s (Eval.ofExcept x) (Eval.ofExcept x) :=
  .silent (SameReferences.calls.ofExcept x)

theorem withLoopText (f : (Nat → List Char) → Except Fault α) :
    Agrees s (Eval.withLoopText f) (Eval.withLoopText f) :=
  .silent (SameReferences.calls.withLoopText f)

theorem quietly {x y : Eval α} (hxy : Agrees s x y) : Agrees s (quietly x) (quietly y) := by
  intro w
  exact (hxy { w with quiet := w.quiet + 1 }).loud

theorem bindQuietly {x y : Eval α} {f g : α → Eval β} (quiet : Bool) (hxy : Agrees s x y)
    (hfg : ∀ a, Agrees s (f a) (g a)) :
    Agrees s (if quiet then Eval.quietly x >>= f else x >>= f)
      (if quiet then Eval.quietly y >>= g else y >>= g) := by
  cases quiet with
  | false => exact hxy.bind hfg
  | true => exact hxy.quietly.bind hfg

theorem forEach {step strict : α → Eval (List β)} (hstep : ∀ a, Agrees s (step a) (strict a))
    (items : List α) (given : List β) :
    Agrees s (forEach step items given) (Eval.forEach strict items given) := by
  induction items generalizing given with
  | nil => exact .pure _
  | cons a rest ih => exact (hstep a).bind fun parts => ih _

theorem whileWithin {condition strictly : Eval Bool} {step strict : Eval (List β)}
    (hcondition : Agrees s condition strictly) (hstep : Agrees s step strict) (rounds : Nat)
    (given : List β) :
    Agrees s (whileWithin condition step rounds given)
      (Eval.whileWithin strictly strict rounds given) := by
  induction rounds generalizing given with
  | zero => exact .throw _
  | succ rounds ih =>
      apply hcondition.bind
      intro holds
      split
      · exact hstep.bind fun parts => ih _
      · exact .pure _

end Agrees

end Eval

end Agreement

open Eval

/-! Every step of a render agrees with the one of the strict render. -/

section Strict

variable {s : Setting}

namespace Setting

theorem report_agrees (lenient : s.strict = false) (name message : String) :
    Agrees s (s.report name message) (s.strictly.report name message) := by
  intro w
  by_cases loud : w.quiet = 0
  · simp only [report, Step.run_bind, Step.run_get, loud, ↓reduceIte, Step.run_set, lenient,
      strictly, Bool.false_eq_true]
    exact .stopped rfl rfl
  · simp only [report, Step.run_bind, Step.run_get, loud, ↓reduceIte]
    exact .same rfl

theorem missing_agrees (lenient : s.strict = false) (name message : String) :
    Agrees s (s.missing name message) (s.strictly.missing name message) :=
  (report_agrees lenient name message).bind fun _ => .pure _

theorem access_agrees (lenient : s.strict = false) (v key : Value) :
    Agrees s (s.access v key) (s.strictly.access v key) := by
  unfold access
  split
  · exact .pure _
  · apply Agrees.get.bind
    intro w
    rw [show s.strictly.host = s.host from rfl]
    cases v.part? s.host w.heap key with
    | some part => exact .pure _
    | none => exact missing_agrees lenient _ _

theorem lookup_agrees (lenient : s.strict = false) (name : String) :
    Agrees s (s.lookup name) (s.strictly.lookup name) := by
  apply Agrees.get.bind
  intro w
  split
  · exact .pure _
  · exact missing_agrees lenient _ _

theorem variableOf_agrees (lenient : s.strict = false) (name : String) :
    Agrees s (s.variableOf name) (s.strictly.variableOf name) := by
  apply Agrees.get.bind
  intro w
  split
  · exact .pure _
  · exact lookup_agrees lenient _

end Setting

/-! Calls, iteration and comparisons report nothing, and the strict setting changes none of them. -/

theorem Value.loopItems_agrees (v : Value) (pairs : Bool) :
    Agrees s (v.loopItems pairs) (v.loopItems pairs) :=
  .silent (v.loopItems_follows SameReferences.calls.toFrame pairs fun id _ w =>
    SameReferences.calls.moves w id)

theorem CompareOp.apply_agrees (op : CompareOp) (a b : Value) :
    Agrees s (op.apply a b) (op.apply a b) :=
  .silent (op.apply_follows SameReferences.calls.toFrame a fun id _ _ w =>
    SameReferences.calls.moves w id)

theorem called_agrees {positional strict : Eval (List Value)}
    {named strictly : Eval (List (String × Value))} {call : Arguments → Eval Value}
    (hpositional : Agrees s positional strict) (hnamed : Agrees s named strictly)
    (hcall : ∀ a, Step.Follows SameReferences (call a)) :
    Agrees s (positional >>= fun p => named >>= fun n => call ⟨p, n⟩)
      (strict >>= fun p => strictly >>= fun n => call ⟨p, n⟩) := by
  apply hpositional.bind
  intro p
  apply hnamed.bind
  intro n
  exact .silent (hcall ⟨p, n⟩)

mutual

theorem evaluate_agrees (lenient : s.strict = false) :
    (e : Expr) → Agrees s (evaluate s e) (evaluate s.strictly e)
  | .const _ value => .pure _
  | .name _ name => s.variableOf_agrees lenient name
  | .list _ items => (evaluateAll_agrees lenient items).bind fun _ => .pure _
  | .dict _ entries => (evaluateEntries_agrees lenient entries).bind fun _ => .ofExcept _
  | .attr _ object name =>
      (evaluate_agrees lenient object).bind fun v => s.access_agrees lenient v _
  | .item _ object key => by
      apply (evaluate_agrees lenient object).bind
      intro v
      exact (evaluate_agrees lenient key).bind fun k => s.access_agrees lenient v k
  | .call _ callee args named => by
      have hargs := evaluateAll_agrees lenient args
      have hnamed := evaluateNamed_agrees lenient named
      have called := (evaluate_agrees lenient callee).bind fun f =>
        called_agrees hargs hnamed fun a => s.callValue_follows SameReferences.calls f a
      cases callee with
      | name _ name =>
          apply Agrees.get.bind
          intro w
          split
          · next f _ =>
              exact called_agrees hargs hnamed (s.callValue_follows SameReferences.calls f)
          · exact called_agrees hargs hnamed (s.callFunction_follows SameReferences.calls name)
      | _ => exact called
  | .filter _ value name args named => by
      apply Agrees.bindQuietly _ (evaluate_agrees lenient value)
      intro v
      exact called_agrees (evaluateAll_agrees lenient args) (evaluateNamed_agrees lenient named)
        (s.callFilter_follows SameReferences.calls name v)
  | .test _ value name args negated => by
      apply Agrees.bindQuietly _ (evaluate_agrees lenient value)
      intro v
      apply (evaluateAll_agrees lenient args).bind
      intro given
      apply (Agrees.silent (s.callTest_follows SameReferences.calls name v given)).bind
      intro passes
      exact .pure _
  | .arith _ op left right => by
      apply (evaluate_agrees lenient left).bind
      intro a
      exact (evaluate_agrees lenient right).bind fun b => .withLoopText _
  | .sign _ op operand => (evaluate_agrees lenient operand).bind fun _ => .ofExcept _
  | .compare _ first [] => evaluate_agrees lenient first
  | .compare _ first ((op, e) :: rest) => by
      have hfirst := evaluate_agrees lenient first
      have hsecond := evaluate_agrees lenient e
      have linked : ∀ a b : Value, Agrees s
          (op.apply a b >>= fun holds => evaluateLinks s b holds rest)
          (op.apply a b >>= fun holds => evaluateLinks s.strictly b holds rest) := by
        intro a b
        apply (op.apply_agrees a b).bind
        intro holds
        exact evaluateLinks_agrees lenient b holds rest
      rw [evaluate, evaluate]
      split
      · exact hsecond.bind fun b => hfirst.bind fun a => linked a b
      · exact hfirst.bind fun a => hsecond.bind fun b => linked a b
  | .logic _ op parts => evaluateLogic_agrees lenient op parts
  | .choice _ condition ifTrue ifFalse => by
      apply (evaluate_agrees lenient condition).bind
      intro v
      split
      · exact evaluate_agrees lenient ifTrue
      · exact evaluate_agrees lenient ifFalse
  | .range _ first last => by
      apply (evaluate_agrees lenient first).bind
      intro a
      apply (evaluate_agrees lenient last).bind
      intro b
      exact (Agrees.ofExcept _).bind fun _ => .pure _
  | .concat _ parts => (evaluateAll_agrees lenient parts).bind fun _ => .withLoopText _

theorem evaluateAll_agrees (lenient : s.strict = false) :
    (es : List Expr) → Agrees s (evaluateAll s es) (evaluateAll s.strictly es)
  | [] => .pure _
  | e :: rest => by
      apply (evaluate_agrees lenient e).bind
      intro v
      exact (evaluateAll_agrees lenient rest).bind fun _ => .pure _

theorem evaluateNamed_agrees (lenient : s.strict = false) : (named : List (String × Expr)) →
    Agrees s (evaluateNamed s named) (evaluateNamed s.strictly named)
  | [] => .pure _
  | (name, e) :: rest => by
      apply (evaluate_agrees lenient e).bind
      intro v
      exact (evaluateNamed_agrees lenient rest).bind fun _ => .pure _

theorem evaluateEntries_agrees (lenient : s.strict = false) : (entries : List (Expr × Expr)) →
    Agrees s (evaluateEntries s entries) (evaluateEntries s.strictly entries)
  | [] => .pure _
  | (key, e) :: rest => by
      apply (evaluate_agrees lenient key).bind
      intro k
      apply (evaluate_agrees lenient e).bind
      intro v
      exact (evaluateEntries_agrees lenient rest).bind fun _ => .pure _

theorem evaluateLinks_agrees (lenient : s.strict = false) (left : Value) (holds : Bool) :
    (links : List (CompareOp × Expr)) →
      Agrees s (evaluateLinks s left holds links) (evaluateLinks s.strictly left holds links)
  | [] => .pure _
  | (op, e) :: rest => by
      rw [evaluateLinks, evaluateLinks]
      split
      · apply (evaluate_agrees lenient e).bind
        intro right
        apply (op.apply_agrees left right).bind
        intro holds
        exact evaluateLinks_agrees lenient right holds rest
      · exact .pure _

theorem evaluateLogic_agrees (lenient : s.strict = false) (op : LogicOp) :
    (parts : List Expr) → Agrees s (evaluateLogic s op parts) (evaluateLogic s.strictly op parts)
  | [] => .pure _
  | [e] => evaluate_agrees lenient e
  | e :: next :: rest => by
      apply (evaluate_agrees lenient e).bind
      intro v
      split
      · exact .pure _
      · exact evaluateLogic_agrees lenient op (next :: rest)

end

theorem holds_agrees (lenient : s.strict = false) (condition : Expr) :
    Agrees s (holds s condition) (holds s.strictly condition) := by
  unfold holds
  split
  · apply Agrees.get.bind
    intro w
    split
    · exact .pure _
    · exact Agrees.get.bind fun _ => .pure _
  · exact (evaluate_agrees lenient condition).bind fun _ => .pure _

theorem bindTarget_references (target : Target) (item : Value) (w : World) :
    (bindTarget target item w).references = w.references := by
  unfold bindTarget
  split <;> rfl

theorem enterLoop_agrees (target : Target) (tracked : Bool) (items : List Value) :
    Agrees s (enterLoop target tracked items) (enterLoop target tracked items) := by
  apply Agrees.silent
  intro w
  cases tracked with
  | true => rfl
  | false => rfl

theorem atItem_agrees (target : Target) (id : Option Nat) (item : Value) (index : Nat) :
    Agrees s (atItem target id item index) (atItem target id item index) := by
  refine .modify fun w => ?_
  rw [bindTarget_references]
  cases id with
  | none => rfl
  | some id => exact SameReferences.calls.moves w id index

theorem leaveLoop_agrees (added : Nat) : Agrees s (leaveLoop added) (leaveLoop added) :=
  .modify fun _ => rfl

theorem assign_agrees (name : String) (v : Value) : Agrees s (assign name v) (assign name v) := by
  refine .modify fun w => ?_
  split <;> rfl

mutual

theorem execute_agrees (lenient : s.strict = false) :
    (c : Code) → Agrees s (execute s c) (execute s.strictly c)
  | .text value => .pure _
  | .mark line => by
      refine Agrees.bind (.modify ?_) fun _ => .pure _
      intro w
      rfl
  | .output value escape => by
      apply (evaluate_agrees lenient value).bind
      intro v
      exact Agrees.get.bind fun w => .pure _
  | .branch condition body others otherwise => by
      apply (holds_agrees lenient condition).bind
      intro holds
      split
      · exact executeAll_agrees lenient body
      · exact executeOthers_agrees lenient others (executeAll_agrees lenient otherwise)
  | .loop target tracked items body empty => by
      apply (evaluate_agrees lenient items).bind
      intro v
      apply (v.loopItems_agrees target.isPair).bind
      intro found
      split
      · exact executeAll_agrees lenient empty
      · apply (enterLoop_agrees target tracked found).bind
        intro entered
        refine (Agrees.forEach (fun e => ?_) found.zipIdx []).bind fun written => ?_
        · exact (atItem_agrees target entered.1 e.1 e.2).bind fun _ =>
            executeAll_agrees lenient body
        · exact (leaveLoop_agrees entered.2).bind fun _ => .pure _
  | .while condition body =>
      (holds_agrees lenient condition).whileWithin (executeAll_agrees lenient body) mostRounds []
  | .set name value => by
      apply (evaluate_agrees lenient value).bind
      intro v
      exact (assign_agrees name v).bind fun _ => .pure _
  | .spaceless body => (executeAll_agrees lenient body).bind fun _ => .pure _
  | .debug value label => by
      have dumped : ∀ v : Value, Agrees s
          (get >>= fun w => pure [Fragment.dump (debugDump (World.loopText w) v label)])
          (get >>= fun w => pure [Fragment.dump (debugDump (World.loopText w) v label)]) :=
        fun v => Agrees.get.bind fun w => .pure _
      cases value with
      | some e => exact (evaluate_agrees lenient e).bind dumped
      | none => exact Agrees.get.bind fun w => (Agrees.pure _).bind dumped

theorem executeAll_agrees (lenient : s.strict = false) :
    (code : List Code) → Agrees s (executeAll s code) (executeAll s.strictly code)
  | [] => .pure _
  | c :: rest => by
      apply (execute_agrees lenient c).bind
      intro written
      exact (executeAll_agrees lenient rest).bind fun _ => .pure _

theorem executeOthers_agrees (lenient : s.strict = false)
    {otherwise strict : Eval (List Fragment)} :
    (others : List (Expr × List Code)) → Agrees s otherwise strict →
      Agrees s (executeOthers s others otherwise) (executeOthers s.strictly others strict)
  | [], agrees => agrees
  | (condition, body) :: rest, agrees => by
      apply (holds_agrees lenient condition).bind
      intro holds
      split
      · exact executeAll_agrees lenient body
      · exact executeOthers_agrees lenient rest agrees

end

end Strict

end Stencil
