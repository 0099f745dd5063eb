import Stencil.Proofs.Render.Frame
import Stencil.Render.Code

namespace Stencil

open Eval

/-- Whether a relation of worlds allows for all that evaluation changes. -/
structure World.Walk (R : World → World → Prop) : Prop extends World.Calls R where
  report : ∀ w r, r.line = w.line → R w { w with references := w.references ++ [r] }
  loud : ∀ {w u}, R { w with quiet := w.quiet + 1 } u → R w { u with quiet := u.quiet - 1 }

variable {R : World → World → Prop} {α β : Type}

namespace World.Walk

theorem quietly (walk : World.Walk R) {x : Eval α} (hx : Step.Follows R x) :
    Step.Follows R (Eval.quietly x) := by
  intro w
  exact walk.loud (hx { w with quiet := w.quiet + 1 })

theorem bindQuietly (walk : World.Walk R) {x : Eval α} {f : α → Eval β} (quiet : Bool)
    (hx : Step.Follows R x) (hf : ∀ a, Step.Follows R (f a)) :
    Step.Follows R (if quiet then Eval.quietly x >>= f else x >>= f) := by
  cases quiet with
  | false => exact walk.bind hx hf
  | true => exact walk.bind (walk.quietly hx) hf

theorem called (walk : World.Walk R) {positional : Eval (List Value)}
    {named : Eval (List (String × Value))} {call : Arguments → Eval α}
    (hpositional : Step.Follows R positional) (hnamed : Step.Follows R named)
    (hcall : ∀ a, Step.Follows R (call a)) :
    Step.Follows R (positional >>= fun p => named >>= fun n => call ⟨p, n⟩) := by
  apply walk.bind hpositional
  intro p
  apply walk.bind hnamed
  intro n
  exact hcall ⟨p, n⟩

end World.Walk

variable {s : Setting}

namespace Setting

theorem report_follows (walk : World.Walk R) (name message : String) :
    Step.Follows R (s.report name message) := by
  intro w
  rw [report, Step.run_bind, Step.run_get]
  dsimp only
  split
  · have reported := walk.report w { name, message, line := w.line, available := w.names } rfl
    rw [Step.run_bind, Step.run_set]
    dsimp only
    split
    · exact reported
    · exact reported
  · exact walk.refl w

theorem missing_follows (walk : World.Walk R) (name message : String) :
    Step.Follows R (s.missing name message) :=
  walk.bind (report_follows walk name message) fun _ => walk.pure _

theorem access_follows (walk : World.Walk R) (v key : Value) :
    Step.Follows R (s.access v key) := by
  unfold access
  split
  · exact walk.pure _
  · apply walk.bind walk.get
    intro w
    split
    · exact walk.pure _
    · exact missing_follows walk _ _

theorem lookup_follows (walk : World.Walk R) (name : String) :
    Step.Follows R (s.lookup name) := by
  apply walk.bind walk.get
  intro w
  split
  · exact walk.pure _
  · exact missing_follows walk _ _

theorem variableOf_follows (walk : World.Walk R) (name : String) :
    Step.Follows R (s.variableOf name) := by
  apply walk.bind walk.get
  intro w
  split
  · exact walk.pure _
  · exact lookup_follows walk _

end Setting

mutual

theorem evaluate_follows (walk : World.Walk R) : (e : Expr) → Step.Follows R (evaluate s e)
  | .const _ value => walk.pure _
  | .name _ name => s.variableOf_follows walk name
  | .list _ items => walk.bind (evaluateAll_follows walk items) fun _ => walk.pure _
  | .dict _ entries => walk.bind (evaluateEntries_follows walk entries) fun _ => walk.ofExcept _
  | .attr _ object name =>
      walk.bind (evaluate_follows walk object) fun v => s.access_follows walk v _
  | .item _ object key => by
      apply walk.bind (evaluate_follows walk object)
      intro v
      exact walk.bind (evaluate_follows walk key) fun k => s.access_follows walk v k
  | .call _ callee args named => by
      have hargs := evaluateAll_follows walk args
      have hnamed := evaluateNamed_follows walk named
      have called := walk.bind (evaluate_follows walk callee) fun f =>
        walk.called hargs hnamed (s.callValue_follows walk.toCalls f)
      cases callee with
      | name _ name =>
          apply walk.bind walk.get
          intro w
          split
          · next f _ => exact walk.called hargs hnamed (s.callValue_follows walk.toCalls f)
          · exact walk.called hargs hnamed (s.callFunction_follows walk.toCalls name)
      | _ => exact called
  | .filter _ value name args named => by
      apply walk.bindQuietly _ (evaluate_follows walk value)
      intro v
      exact walk.called (evaluateAll_follows walk args) (evaluateNamed_follows walk named)
        (s.callFilter_follows walk.toCalls name v)
  | .test _ value name args negated => by
      apply walk.bindQuietly _ (evaluate_follows walk value)
      intro v
      apply walk.bind (evaluateAll_follows walk args)
      intro given
      exact walk.bind (s.callTest_follows walk.toCalls name v given) fun _ => walk.pure _
  | .arith _ op left right => by
      apply walk.bind (evaluate_follows walk left)
      intro a
      exact walk.bind (evaluate_follows walk right) fun b => walk.withLoopText _
  | .sign _ op operand => walk.bind (evaluate_follows walk operand) fun _ => walk.ofExcept _
  | .compare _ first [] => evaluate_follows walk first
  | .compare _ first ((op, e) :: rest) => by
      have hfirst := evaluate_follows walk first
      have hsecond := evaluate_follows walk e
      have linked : ∀ a b : Value, Step.Follows R
          (op.apply a b >>= fun holds => evaluateLinks s b holds rest) := by
        intro a b
        apply walk.bind (op.apply_follows walk.toFrame a fun id _ _ w i => walk.moves w id i)
        intro holds
        exact evaluateLinks_follows walk b holds rest
      rw [evaluate]
      split
      · exact walk.bind hsecond fun b => walk.bind hfirst fun a => linked a b
      · exact walk.bind hfirst fun a => walk.bind hsecond fun b => linked a b
  | .logic _ op parts => evaluateLogic_follows walk op parts
  | .choice _ condition ifTrue ifFalse => by
      apply walk.bind (evaluate_follows walk condition)
      intro v
      split
      · exact evaluate_follows walk ifTrue
      · exact evaluate_follows walk ifFalse
  | .range _ first last => by
      apply walk.bind (evaluate_follows walk first)
      intro a
      apply walk.bind (evaluate_follows walk last)
      intro b
      exact walk.bind (walk.ofExcept _) fun _ => walk.pure _
  | .concat _ parts => walk.bind (evaluateAll_follows walk parts) fun _ => walk.withLoopText _

theorem evaluateAll_follows (walk : World.Walk R) :
    (es : List Expr) → Step.Follows R (evaluateAll s es)
  | [] => walk.pure _
  | e :: rest => by
      apply walk.bind (evaluate_follows walk e)
      intro v
      exact walk.bind (evaluateAll_follows walk rest) fun _ => walk.pure _

theorem evaluateNamed_follows (walk : World.Walk R) :
    (named : List (String × Expr)) → Step.Follows R (evaluateNamed s named)
  | [] => walk.pure _
  | (name, e) :: rest => by
      apply walk.bind (evaluate_follows walk e)
      intro v
      exact walk.bind (evaluateNamed_follows walk rest) fun _ => walk.pure _

theorem evaluateEntries_follows (walk : World.Walk R) :
    (entries : List (Expr × Expr)) → Step.Follows R (evaluateEntries s entries)
  | [] => walk.pure _
  | (key, e) :: rest => by
      apply walk.bind (evaluate_follows walk key)
      intro k
      apply walk.bind (evaluate_follows walk e)
      intro v
      exact walk.bind (evaluateEntries_follows walk rest) fun _ => walk.pure _

theorem evaluateLinks_follows (walk : World.Walk R) (left : Value) (holds : Bool) :
    (links : List (CompareOp × Expr)) → Step.Follows R (evaluateLinks s left holds links)
  | [] => walk.pure _
  | (op, e) :: rest => by
      rw [evaluateLinks]
      split
      · apply walk.bind (evaluate_follows walk e)
        intro right
        apply walk.bind (op.apply_follows walk.toFrame left fun id _ _ w i => walk.moves w id i)
        intro holds
        exact evaluateLinks_follows walk right holds rest
      · exact walk.pure _

theorem evaluateLogic_follows (walk : World.Walk R) (op : LogicOp) :
    (parts : List Expr) → Step.Follows R (evaluateLogic s op parts)
  | [] => walk.pure _
  | [e] => evaluate_follows walk e
  | e :: next :: rest => by
      apply walk.bind (evaluate_follows walk e)
      intro v
      split
      · exact walk.pure _
      · exact evaluateLogic_follows walk op (next :: rest)

end

/-- Whether one world comes from another at the same line, and what was reported in between was
reported at that line. -/
structure World.AtLine (w u : World) : Prop where
  line : u.line = w.line
  reports : ∃ more, u.references = w.references ++ more ∧ ∀ r ∈ more, r.line = w.line

namespace World.AtLine

variable {w u : World}

theorem of_same (line : u.line = w.line) (references : u.references = w.references) :
    w.AtLine u where
  line := line
  reports := ⟨[], by simp [references], by simp⟩

theorem walk : World.Walk World.AtLine where
  refl _ := .of_same rfl rfl
  trans := by
    rintro u v w ⟨first, more, added, here⟩ ⟨second, further, addedFurther, there⟩
    refine ⟨second.trans first, more ++ further, by simp [addedFurther, added], ?_⟩
    intro r member
    rcases List.mem_append.mp member with isFirst | isSecond
    · exact here r isFirst
    · exact (there r isSecond).trans first
  notes _ _ := .of_same rfl rfl
  generators _ _ := .of_same rfl rfl
  moves w id i := by
    unfold World.moveLoop
    split
    · exact .of_same rfl rfl
    · exact .of_same rfl rfl
  report w r placed := ⟨rfl, [r], rfl, by simpa using placed⟩
  loud := fun ⟨line, reports⟩ => ⟨line, reports⟩

theorem mem_reports (atLine : w.AtLine u) {before : List Reference} {r : Reference}
    (old : w.references <+: before) (new : before ++ [r] <+: u.references) :
    r.line = w.line := by
  obtain ⟨more, added, placed⟩ := atLine.reports
  obtain ⟨between, rfl⟩ := old
  obtain ⟨later, split⟩ := new
  rw [added, List.append_assoc, List.append_assoc, List.append_cancel_left_eq] at split
  exact placed r (by simp [← split])

end World.AtLine

theorem evaluate_atLine {e : Expr} {w u : World} {result : Except Fault Value}
    (run : (evaluate s e).run w = (result, u)) : w.AtLine u := by
  have follows := evaluate_follows (s := s) World.AtLine.walk e w
  rwa [run] at follows

theorem holds_atLine {e : Expr} {w u : World} {result : Except Fault Bool}
    (run : (holds s e).run w = (result, u)) : w.AtLine u := by
  have follows : Step.Follows World.AtLine (holds s e) := by
    unfold holds
    split
    · apply World.AtLine.walk.bind World.AtLine.walk.get
      intro w
      split
      · exact World.AtLine.walk.pure _
      · exact World.AtLine.walk.bind World.AtLine.walk.get fun _ => World.AtLine.walk.pure _
    · exact World.AtLine.walk.bind (evaluate_follows World.AtLine.walk e) fun _ =>
        World.AtLine.walk.pure _
  have here := follows w
  rwa [run] at here

end Stencil
