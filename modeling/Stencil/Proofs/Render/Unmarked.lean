import Stencil.Environment.Render
import Stencil.Proofs.Assembly.Bare
import Stencil.Proofs.Render.Alike

namespace Stencil

open Eval
open Expr (erase eraseAll eraseNamed eraseEntries eraseLinks)

variable {s : Setting}

mutual

theorem evaluate_erase : (e : Expr) → Matches (evaluate s e) (evaluate s.sourceless e.erase)
  | .const _ value => by
      rw [erase]
      exact .pure _
  | .name _ name => by
      rw [erase]
      exact s.variableOf_matches name
  | .list _ items => by
      rw [erase]
      exact (evaluateAll_erase items).bind fun _ => .pure _
  | .dict _ entries => by
      rw [erase]
      exact (evaluateEntries_erase entries).bind fun _ => .ofExcept _
  | .attr _ object name => by
      rw [erase]
      exact (evaluate_erase object).bind fun v => s.access_matches v _
  | .item _ object key => by
      rw [erase]
      apply (evaluate_erase object).bind
      intro v
      exact (evaluate_erase key).bind fun k => s.access_matches v k
  | .call _ callee args named => by
      have hargs := evaluateAll_erase args
      have hnamed := evaluateNamed_erase named
      have called := (evaluate_erase callee).bind fun f =>
        called_matches hargs hnamed fun a => s.callValue_matches f a
      rw [erase]
      cases callee with
      | name _ name =>
          rw [erase]
          apply Matches.getBind
          intro w u like
          cases like
          dsimp only
          split
          · next f _ => exact called_matches hargs hnamed (s.callValue_matches f)
          · exact called_matches hargs hnamed (s.callFunction_matches name)
      | _ =>
          rw [erase] at called ⊢
          exact called
  | .filter _ value name args named => by
      rw [erase]
      apply Matches.bindQuietly _ (evaluate_erase value)
      intro v
      exact called_matches (evaluateAll_erase args) (evaluateNamed_erase named)
        (s.callFilter_matches name v)
  | .test _ value name args negated => by
      rw [erase]
      apply Matches.bindQuietly _ (evaluate_erase value)
      intro v
      apply (evaluateAll_erase args).bind
      intro given
      apply (s.callTest_matches name v given).bind
      intro passes
      exact .pure _
  | .arith _ op left right => by
      rw [erase]
      apply (evaluate_erase left).bind
      intro a
      exact (evaluate_erase right).bind fun b => .withLoopText _
  | .sign _ op operand => by
      rw [erase]
      exact (evaluate_erase operand).bind fun _ => .ofExcept _
  | .compare _ first [] => by
      rw [erase, eraseLinks]
      exact evaluate_erase first
  | .compare _ first ((op, e) :: rest) => by
      have hfirst := evaluate_erase first
      have hsecond := evaluate_erase e
      have linked : ∀ a b : Value, Matches
          (op.apply a b >>= fun holds => evaluateLinks s b holds rest)
          (op.apply a b >>= fun holds =>
            evaluateLinks s.sourceless b holds (eraseLinks rest)) := by
        intro a b
        apply (op.apply_matches a b).bind
        intro holds
        exact evaluateLinks_erase b holds rest
      rw [erase, eraseLinks, evaluate, evaluate]
      split
      · exact hsecond.bind fun b => hfirst.bind fun a => linked a b
      · exact hfirst.bind fun a => hsecond.bind fun b => linked a b
  | .logic _ op parts => by
      rw [erase]
      exact evaluateLogic_erase op parts
  | .choice _ condition ifTrue ifFalse => by
      rw [erase]
      apply (evaluate_erase condition).bind
      intro v
      split
      · exact evaluate_erase ifTrue
      · exact evaluate_erase ifFalse
  | .range _ first last => by
      rw [erase]
      apply (evaluate_erase first).bind
      intro a
      apply (evaluate_erase last).bind
      intro b
      exact (Matches.ofExcept _).bind fun _ => .pure _
  | .concat _ parts => by
      rw [erase]
      exact (evaluateAll_erase parts).bind fun _ => .withLoopText _

theorem evaluateAll_erase :
    (es : List Expr) → Matches (evaluateAll s es) (evaluateAll s.sourceless (eraseAll es))
  | [] => by
      rw [eraseAll]
      exact .pure _
  | e :: rest => by
      rw [eraseAll]
      apply (evaluate_erase e).bind
      intro v
      exact (evaluateAll_erase rest).bind fun _ => .pure _

theorem evaluateNamed_erase : (named : List (String × Expr)) →
    Matches (evaluateNamed s named) (evaluateNamed s.sourceless (eraseNamed named))
  | [] => by
      rw [eraseNamed]
      exact .pure _
  | (name, e) :: rest => by
      rw [eraseNamed]
      apply (evaluate_erase e).bind
      intro v
      exact (evaluateNamed_erase rest).bind fun _ => .pure _

theorem evaluateEntries_erase : (entries : List (Expr × Expr)) →
    Matches (evaluateEntries s entries) (evaluateEntries s.sourceless (eraseEntries entries))
  | [] => by
      rw [eraseEntries]
      exact .pure _
  | (key, e) :: rest => by
      rw [eraseEntries]
      apply (evaluate_erase key).bind
      intro k
      apply (evaluate_erase e).bind
      intro v
      exact (evaluateEntries_erase rest).bind fun _ => .pure _

theorem evaluateLinks_erase (left : Value) (holds : Bool) :
    (links : List (CompareOp × Expr)) →
      Matches (evaluateLinks s left holds links)
        (evaluateLinks s.sourceless left holds (eraseLinks links))
  | [] => by
      rw [eraseLinks]
      exact .pure _
  | (op, e) :: rest => by
      rw [eraseLinks, evaluateLinks, evaluateLinks]
      split
      · apply (evaluate_erase e).bind
        intro right
        apply (op.apply_matches left right).bind
        intro holds
        exact evaluateLinks_erase right holds rest
      · exact .pure _

theorem evaluateLogic_erase (op : LogicOp) :
    (parts : List Expr) →
      Matches (evaluateLogic s op parts) (evaluateLogic s.sourceless op (eraseAll parts))
  | [] => by
      rw [eraseAll]
      exact .pure _
  | [e] => by
      rw [eraseAll, eraseAll]
      exact evaluate_erase e
  | e :: next :: rest => by
      have further := evaluateLogic_erase op (next :: rest)
      rw [eraseAll] at further
      rw [eraseAll, eraseAll]
      apply (evaluate_erase e).bind
      intro v
      split
      · exact .pure _
      · exact further

end

theorem holds_erase (condition : Expr) :
    Matches (holds s condition) (holds s.sourceless condition.erase) := by
  have evaluated : Matches (evaluate s condition >>= fun v => pure v.truthy)
      (evaluate s.sourceless condition.erase >>= fun v => pure v.truthy) :=
    (evaluate_erase condition).bind fun _ => .pure _
  cases condition with
  | name _ name =>
      rw [erase]
      apply Matches.getBind
      intro w u like
      cases like
      dsimp only
      split
      · exact .pure _
      · apply Matches.getBind
        intro w u like
        cases like
        exact .pure _
  | _ =>
      rw [erase] at evaluated ⊢
      exact evaluated

/-! Loops and assignments. -/

theorem World.Like.setLocals {w u : World} (like : w.Like u)
    (f : List (String × Value) → List (String × Value)) :
    World.Like { w with locals := f w.locals } { u with locals := f u.locals } := by
  cases like with
  | intro same => exact .intro same

theorem World.Like.setLocal {w u : World} (like : w.Like u) (name : String) (v : Value) :
    (w.setLocal name v).Like (u.setLocal name v) :=
  like.setLocals _

theorem World.Like.bindTarget {w u : World} (like : w.Like u) (target : Target) (item : Value) :
    (bindTarget target item w).Like (bindTarget target.erase item u) := by
  cases target with
  | one b => exact like.setLocal _ _
  | pair k v =>
      unfold Stencil.bindTarget
      rw [Target.erase]
      split
      · next impossible => cases impossible
      · next same =>
          cases same
          exact (like.setLocal _ _).setLocal _ _
      · exact like

theorem enterLoop_erase (target : Target) (tracked : Bool) (items : List Value) :
    Matches (enterLoop target tracked items) (enterLoop target.erase tracked items) := by
  intro w u like
  cases like with
  | intro same =>
      cases target <;> cases tracked <;> exact .ok (.intro same)

theorem atItem_erase (target : Target) (id : Option Nat) (item : Value) (index : Nat) :
    Matches (atItem target id item index) (atItem target.erase id item index) := by
  apply Matches.modify
  intro w u like
  cases id with
  | none => exact like.bindTarget target item
  | some id => exact (like.moveLoop id index).bindTarget target item

theorem leaveLoop_matches (added : Nat) : Matches (leaveLoop added) (leaveLoop added) :=
  .modify fun _ _ like => like.setLocals _

theorem assign_matches (name : String) (v : Value) : Matches (assign name v) (assign name v) := by
  apply Matches.modify
  intro w u like
  cases like with
  | intro same =>
      dsimp only
      split
      · exact .intro same
      · exact .intro same

theorem isPair_erase (target : Target) : target.erase.isPair = target.isPair := by
  cases target <;> rfl

theorem executeAll_append (first second : List Code) :
    executeAll s (first ++ second) =
      executeAll s first >>= fun written => executeAll s second >>= fun more =>
        pure (written ++ more) := by
  induction first with
  | nil => simp [executeAll]
  | cons c rest ih =>
      rw [List.cons_append, executeAll, executeAll, ih]
      simp only [bind_assoc, pure_bind, List.append_assoc]

theorem executeAll_singleton (c : Code) : executeAll s [c] = execute s c := by
  simp [executeAll]

mutual

theorem execute_bare : (c : Code) → Matches (execute s c) (executeAll s.sourceless c.bare)
  | .text value => by
      rw [Code.bare, executeAll_singleton]
      exact .pure _
  | .mark line => by
      rw [Code.bare]
      intro w u like
      cases like with
      | intro same => exact .ok (.intro same)
  | .output value escape => by
      rw [Code.bare, executeAll_singleton]
      apply (evaluate_erase value).bind
      intro v
      apply Matches.getBind
      intro w u like
      cases like
      exact .pure _
  | .branch condition body others otherwise => by
      rw [Code.bare, executeAll_singleton]
      apply (holds_erase condition).bind
      intro holds
      split
      · exact executeAll_bare body
      · exact executeOthers_bare others (executeAll_bare otherwise)
  | .loop target tracked items body empty => by
      rw [Code.bare, executeAll_singleton]
      apply (evaluate_erase items).bind
      intro v
      rw [isPair_erase]
      apply (v.loopItems_matches target.isPair).bind
      intro found
      split
      · exact executeAll_bare empty
      · apply (enterLoop_erase target tracked found).bind
        intro entered
        refine (Matches.forEach (fun e => ?_) found.zipIdx []).bind fun written => ?_
        · exact (atItem_erase target entered.1 e.1 e.2).bind fun _ => executeAll_bare body
        · exact (leaveLoop_matches entered.2).bind fun _ => .pure _
  | .while condition body => by
      rw [Code.bare, executeAll_singleton]
      exact (holds_erase condition).whileWithin (executeAll_bare body) mostRounds []
  | .set name value => by
      rw [Code.bare, executeAll_singleton]
      apply (evaluate_erase value).bind
      intro v
      exact (assign_matches name v).bind fun _ => .pure _
  | .spaceless body => by
      rw [Code.bare, executeAll_singleton]
      exact (executeAll_bare body).bind fun _ => .pure _
  | .debug value label => by
      rw [Code.bare, executeAll_singleton]
      have dumped : ∀ v : Value, Matches
          (get >>= fun w => pure [Fragment.dump (debugDump (World.loopText w) v label)])
          (get >>= fun w => pure [Fragment.dump (debugDump (World.loopText w) v label)]) := by
        intro v
        apply Matches.getBind
        intro w u like
        cases like
        exact .pure _
      cases value with
      | some e => exact (evaluate_erase e).bind dumped
      | none =>
          apply Matches.getBind
          intro w u like
          cases like
          exact (Matches.pure _).bind dumped

theorem executeAll_bare :
    (code : List Code) → Matches (executeAll s code) (executeAll s.sourceless (Code.bareAll code))
  | [] => by
      rw [Code.bareAll]
      exact .pure _
  | c :: rest => by
      rw [Code.bareAll, executeAll_append]
      apply (execute_bare c).bind
      intro written
      exact (executeAll_bare rest).bind fun _ => .pure _

theorem executeOthers_bare {otherwise bare : Eval (List Fragment)} :
    (others : List (Expr × List Code)) → Matches otherwise bare →
      Matches (executeOthers s others otherwise)
        (executeOthers s.sourceless (Code.bareOthers others) bare)
  | [], matched => by
      rw [Code.bareOthers]
      exact matched
  | (condition, body) :: rest, matched => by
      rw [Code.bareOthers]
      apply (holds_erase condition).bind
      intro holds
      split
      · exact executeAll_bare body
      · exact executeOthers_bare rest matched

end

/-- Codes with one bare form run alike, whatever the text is that they come from. -/
theorem executeAll_matches {s' : Setting} {code code' : List Code}
    (setting : s.sourceless = s'.sourceless) (same : Code.bareAll code = Code.bareAll code') :
    Matches (executeAll s code) (executeAll s' code') := by
  have first := executeAll_bare (s := s) code
  rw [setting, same] at first
  exact first.trans (executeAll_bare code').symm

theorem Fault.eq_of_unplaced {fault fault' : Fault} (same : fault.unplaced = fault'.unplaced) :
    fault = fault' ∨ ∃ d d', fault = .diagnostic d ∧ fault' = .diagnostic d' ∧
      d.unplaced = d'.unplaced := by
  cases fault with
  | diagnostic d =>
      cases fault' with
      | diagnostic d' => exact .inr ⟨d, d', rfl, rfl, Fault.diagnostic.inj same⟩
      | _ => cases same
  | _ =>
      cases fault' with
      | diagnostic d' => cases same
      | _ => exact .inl same

theorem Setting.renderError_unplaced {s' : Setting} {line line' : Nat} {fault fault' : Fault}
    (setting : s.sourceless = s'.sourceless) (same : fault.unplaced = fault'.unplaced) :
    (s.renderError line fault).unplaced = (s'.renderError line' fault').unplaced := by
  have name : s.sourceless.name = s'.sourceless.name := congrArg (fun s => Setting.name s) setting
  rcases fault.eq_of_unplaced same with rfl | ⟨d, d', rfl, rfl, sameReport⟩
  · cases fault with
    | diagnostic d => rfl
    | _ =>
        unfold renderError
        rw [show s.name = s'.name from name]
        rfl
  · exact sameReport

/-- Ends of two renders that differ at most in the places of what is reported. -/
inductive Rendering.Like : Rendering → Rendering → Prop
  | ok {written : List Fragment} {w u : World} :
      w.Like u → Rendering.Like ⟨.ok written, w⟩ ⟨.ok written, u⟩
  | error {d d' : Diagnostic} {w u : World} :
      d.unplaced = d'.unplaced → w.Like u → Rendering.Like ⟨.error d, w⟩ ⟨.error d', u⟩

theorem Rendering.Like.world {r r' : Rendering} (like : r.Like r') : r.world.Like r'.world := by
  cases like with
  | ok worlds => exact worlds
  | error _ worlds => exact worlds

theorem renderCode_like {s' : Setting} {code code' : List Code}
    (setting : s.sourceless = s'.sourceless) (same : Code.bareAll code = Code.bareAll code')
    (context : Context) (generators : Array (List Value)) :
    (renderCode s code context generators).Like (renderCode s' code' context generators) := by
  have alike := executeAll_matches setting same _ _ (.refl (World.start context generators))
  unfold renderCode
  generalize (executeAll s code).run (World.start context generators) = r at alike ⊢
  generalize (executeAll s' code').run (World.start context generators) = r' at alike ⊢
  cases alike with
  | ok like => exact .ok like
  | error same like => exact .error (Setting.renderError_unplaced setting same) like

end Stencil
