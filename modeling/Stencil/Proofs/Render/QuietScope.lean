import Stencil.Proofs.Render.Hushed
import Stencil.Proofs.Render.Kept

/-!
The scope of quiet evaluation. A quiet operand reports nothing and comes to the value that it has
when reports do no harm; its arguments, and all else, report as ever. So a render reports what is
missed outside of all quiet operands, each reference when it is missed, and nothing else.
-/

namespace Stencil

open Eval

/-- Whether code that begins in a world comes to miss something in another one, in an expression
that it evaluates and outside of the quiet operands of that. -/
def MissesAloud (s : Setting) (code : List Code) (w : World) (r : Reference) (there : World) :
    Prop :=
  ∃ c here e around path part v, Reaches s code w c here ∧ Evaluates s c here e around ∧
    c.onlyAsks e = false ∧ Arrives s e around path part v ∧ Misses s part v r there ∧
    e.hushes path = 0

section Quiet

variable {s : Setting} {name : String}

theorem evaluate_filter_of_quiet (quiet : quietFilters.contains name) (p : Pos) (e : Expr)
    (args : List Expr) (named : List (String × Expr)) :
    evaluate s (.filter p e name args named) = (do
      let v ← unreported (evaluate s.leniently e)
      let positional ← evaluateAll s args
      s.callFilter name v ⟨positional, ← evaluateNamed s named⟩) := by
  rw [evaluate, if_pos quiet, quietly_evaluate]

theorem evaluate_test_of_quiet (quiet : quietTests.contains name) (p : Pos) (e : Expr)
    (args : List Expr) (negated : Bool) :
    evaluate s (.test p e name args negated) = (do
      let v ← unreported (evaluate s.leniently e)
      let holds ← s.callTest name v (← evaluateAll s args)
      return .bool (holds != negated)) := by
  rw [evaluate, if_pos quiet, quietly_evaluate]

theorem holds_name_world (p : Pos) (n : String) (w : World) :
    ((holds s (.name p n)).run w).2 = w := by
  rw [holds, Step.run_bind, Step.run_get]
  dsimp only
  split <;> rfl

end Quiet

section Render

variable {s : Setting} {code : List Code} {w there : World} {r : Reference}

theorem quiet_of_evaluates {c : Code} {e : Expr} {here : World} (reaches : Reaches s code w c here)
    (evaluates : Evaluates s c here e there) : there.quiet = w.quiet := by
  obtain ⟨reached, among⟩ := reaches.follows (World.sameQuiet_journey _) (List.Subset.refl _)
  exact (evaluates.follows (World.sameQuiet_journey _) among).trans reached

theorem exists_missesAloud {before : List Reference}
    (old : w.references <+: before)
    (new : before ++ [r] <+: ((executeAll s code).run w).2.references) :
    ∃ there, MissesAloud s code w r there ∧ there.references = before := by
  have traced : Traced (fun there result after => ∃ c here, Reaches s code w c here ∧
      c.Performs s here there result after) w ((executeAll s code).run w) :=
    executeAll_traced code w fun c here _ _ _ reached performs => ⟨c, here, reached, performs⟩
  obtain ⟨around, _, after, ⟨c, here, reached, performs⟩, within, reported⟩ :=
    traced.reported before r old new
  cases performs with
  | @evaluates _ e _ _ _ _ evaluates weighed run =>
      have found : before ++ [r] <+: ((evaluate s e).run around).2.references := by rwa [run]
      obtain ⟨path, part, v, there, arrives, misses, aloud, same⟩ :=
        exists_misses_of_reported within found
      -- The report was not suppressed, so no quiet operand is on the path.
      refine ⟨there, ⟨c, here, e, around, path, part, v, reached, evaluates, weighed, arrives,
        misses, ?_⟩, same⟩
      rw [misses.quiet, arrives.quiet] at aloud
      omega
  | @takesItems target _ _ _ _ v _ _ _ _ evaluated run =>
      -- To take the items of a loop reports nothing.
      have unheard := v.loopItems_follows SameReferences.calls.toFrame target.isPair
        (fun id _ w => SameReferences.calls.moves w id) around
      rw [run] at unheard
      have same : after.references = around.references := unheard
      exact (not_prefix_concat r within (same ▸ reported)).elim

/-- What misses something aloud, the render has reported when it comes to an end. -/
theorem MissesAloud.reported (misses : MissesAloud s code w r there) (loud : w.quiet = 0)
    (ends : ((executeAll s code).run w).1 ≠ .error .endless) :
    there.references ++ [r] <+: ((executeAll s code).run w).2.references := by
  obtain ⟨c, here, e, around, path, part, v, reached, evaluates, weighed, arrives, misses,
    unhushed⟩ := misses
  have aloud : there.quiet = 0 := by
    rw [misses.quiet, arrives.quiet, quiet_of_evaluates reached evaluates, loud, unhushed]
  have told := misses.references
  rw [if_pos aloud] at told
  have inCode := ((evaluates.keeps weighed).kept.trans reached.keeps) ends
  rw [← told]
  exact arrives.kept.trans inCode.2

end Render

/-- Quiet evaluation is exactly scoped. A quiet operand comes to what it comes to leniently, with
its reports taken back, and only then are the arguments evaluated as ever; no evaluation changes how
many quiet operands are being evaluated, and none reports anything inside of one. What a part of an
expression misses is reported there and then, and stays reported, if no quiet operand is around it;
a bare name that is tested is not evaluated. So what a render has reported it missed aloud, and what
it missed aloud it has reported when it comes to an end, each reference behind those that had been
reported when it was missed. -/
theorem reported_iff_missesAloud (s : Setting) :
    (∀ p e name args named, quietFilters.contains name →
      evaluate s (.filter p e name args named) = (do
        let v ← unreported (evaluate s.leniently e)
        let positional ← evaluateAll s args
        s.callFilter name v ⟨positional, ← evaluateNamed s named⟩)) ∧
    (∀ p e name args negated, quietTests.contains name →
      evaluate s (.test p e name args negated) = (do
        let v ← unreported (evaluate s.leniently e)
        let holds ← s.callTest name v (← evaluateAll s args)
        return .bool (holds != negated))) ∧
    (∀ e w, ((evaluate s e).run w).2.quiet = w.quiet ∧
      (w.quiet ≠ 0 → ((evaluate s e).run w).2.references = w.references)) ∧
    (∀ e w path part v r there, Arrives s e w path part v → Misses s part v r there →
      there.quiet = w.quiet + e.hushes path ∧
      ((evaluate s part).run v).2.references =
        (if there.quiet = 0 then there.references ++ [r] else there.references) ∧
      ((evaluate s part).run v).2.references <+: ((evaluate s e).run w).2.references) ∧
    (∀ p n w, ((holds s (.name p n)).run w).2 = w) ∧
    ∀ code context generators r,
      (∀ before,
        before ++ [r] <+: ((executeAll s code).run (World.start context generators)).2.references →
          ∃ there, MissesAloud s code (World.start context generators) r there ∧
            there.references = before) ∧
      (((executeAll s code).run (World.start context generators)).1 ≠ .error .endless →
        ∀ there, MissesAloud s code (World.start context generators) r there →
          there.references ++ [r] <+:
            ((executeAll s code).run (World.start context generators)).2.references) := by
  refine ⟨fun p e name args named quiet => evaluate_filter_of_quiet quiet p e args named,
    fun p e name args negated quiet => evaluate_test_of_quiet quiet p e args negated,
    fun e w => ⟨evaluate_quiet s e w, evaluate_references_of_quiet⟩,
    fun e w path part v r there arrives misses => ?_, holds_name_world,
    fun code context generators r => ⟨fun before new => ?_, fun ends there misses => ?_⟩⟩
  · exact ⟨misses.quiet.trans arrives.quiet, misses.references, arrives.kept⟩
  · exact exists_missesAloud List.nil_prefix new
  · exact misses.reported rfl ends

/-! A page that asks for the name of a user with a title to fall back on, tests a bare name, and
asks whether there is a title. -/

def greetingCode : List Code :=
  [.output (.filter ⟨1, 4⟩ (.attr ⟨1, 4⟩ (.name ⟨1, 4⟩ "user") "name") "default"
      [.name ⟨1, 22⟩ "title"] []) true,
    .branch (.name ⟨2, 7⟩ "draft") [.text "draft"] [] [],
    .output (.test ⟨3, 4⟩ (.name ⟨3, 4⟩ "title") "none" [] false) true]

theorem reported_iff_missesAloud_greetingCode :
    ((executeAll plainSetting greetingCode).run (World.start ⟨[], []⟩ #[])).1 ≠ .error .endless ∧
      (∃ r there, r.name = "title" ∧
        MissesAloud plainSetting greetingCode (World.start ⟨[], []⟩ #[]) r there) ∧
      ∀ r there, MissesAloud plainSetting greetingCode (World.start ⟨[], []⟩ #[]) r there →
        r.name = "title" := by
  have fine : ((executeAll plainSetting greetingCode).run
      (World.start ⟨[], []⟩ #[])).1.toOption.isSome := by decide
  have ends : ((executeAll plainSetting greetingCode).run (World.start ⟨[], []⟩ #[])).1 ≠
      .error .endless := by
    intro endless
    rw [endless] at fine
    cases fine
  have all : ((executeAll plainSetting greetingCode).run (World.start ⟨[], []⟩ #[])).2.references =
      [⟨"title", "Undefined variable 'title'", 0, []⟩] := by decide
  obtain ⟨_, _, _, _, _, whole⟩ := reported_iff_missesAloud plainSetting
  refine ⟨ends, ?_, fun r there misses => ?_⟩
  · obtain ⟨onlyMissed, _⟩ :=
      whole greetingCode ⟨[], []⟩ #[] ⟨"title", "Undefined variable 'title'", 0, []⟩
    obtain ⟨there, misses, _⟩ := onlyMissed [] (all ▸ List.prefix_rfl)
    exact ⟨_, there, rfl, misses⟩
  · obtain ⟨_, allMissed⟩ := whole greetingCode ⟨[], []⟩ #[] r
    have new := allMissed ends there misses
    rw [all] at new
    have member : r ∈ [(⟨"title", "Undefined variable 'title'", 0, []⟩ : Reference)] :=
      new.subset (by simp)
    rw [List.mem_singleton] at member
    rw [member]

end Stencil
