import Mathlib.Data.List.Induction
import Stencil.Host.Kit
import Stencil.Proofs.Render.Misses
import Stencil.Proofs.Render.Parts

/-!
Chains of accesses. A chain that begins with a name reports the first step that misses something,
and it reports nothing else: the steps behind it only evaluate their keys and arguments.
-/

namespace Stencil

open Eval

inductive AccessStep
  | attr (p : Pos) (name : String)
  | item (p : Pos) (key : Expr)
  | call (p : Pos) (args : List Expr) (named : List (String × Expr))

namespace AccessStep

def isCall : AccessStep → Bool
  | call _ _ _ => true
  | _ => false

def on (object : Expr) : AccessStep → Expr
  | attr p name => .attr p object name
  | item p key => .item p object key
  | call p args named => .call p object args named

section Take

variable (s : Setting)

def take (v : Value) : AccessStep → Eval Value
  | attr _ name => s.access v (.str name)
  | item _ key => do s.access v (← evaluate s key)
  | call _ args named => do
      let positional ← evaluateAll s args
      s.callValue v ⟨positional, ← evaluateNamed s named⟩

def asides : AccessStep → Eval Unit
  | attr _ _ => return
  | item _ key => do
      let _ ← evaluate s key
  | call _ args named => do
      let _ ← evaluateAll s args
      let _ ← evaluateNamed s named

end Take

end AccessStep

def Expr.chain (first : Expr) (steps : List AccessStep) : Expr :=
  steps.foldl (fun object step => step.on object) first

/-- Whether the first step is no call: the call of a bare name is that of a function. -/
def ProperSteps (steps : List AccessStep) : Prop := ∀ step ∈ steps.head?, step.isCall = false

/-- Whether a step that is taken from a value in a world keeps to what is asked of chains: its key
or its arguments report nothing, and a method that it calls returns nothing that is missing. -/
structure AccessStep.Fair (s : Setting) (step : AccessStep) (v : Value) (w : World) : Prop where
  mute : ((step.asides s).run w).2.references = w.references
  returns : step.isCall → v ≠ .undefined → ∀ result u,
    (step.take s v).run w = (.ok result, u) → result.Whole

/-- Whether all steps of a chain that are taken when it is evaluated are fair. -/
def FairSteps (s : Setting) (first : Expr) (steps : List AccessStep) (w : World) : Prop :=
  ∀ before step after v m, steps = before ++ step :: after →
    (evaluate s (first.chain before)).run w = (.ok v, m) → step.Fair s v m

section Steps

variable {s : Setting}

theorem Expr.chain_append (first : Expr) (before after : List AccessStep) :
    first.chain (before ++ after) = (first.chain before).chain after :=
  List.foldl_append

/-- A step is taken from the value of what stands before it; only a call of a name is no step. -/
theorem evaluate_on {object : Expr} {step : AccessStep}
    (proper : step.isCall → ∀ p n, object ≠ .name p n) :
    evaluate s (step.on object) = evaluate s object >>= fun v => step.take s v := by
  cases step with
  | attr | item =>
      rw [AccessStep.on, evaluate]
      rfl
  | call p args named =>
      rw [AccessStep.on, evaluate]
      · rfl
      · exact fun pos n isName => proper rfl pos n isName

theorem ProperSteps.before {before after : List AccessStep}
    (proper : ProperSteps (before ++ after)) : ProperSteps before := by
  cases before with
  | nil => exact nofun
  | cons step rest => exact proper

theorem FairSteps.before {first : Expr} {before after : List AccessStep} {w : World}
    (fair : FairSteps s first (before ++ after) w) : FairSteps s first before w := by
  intro earlier step later v m split evaluated
  refine fair earlier step (later ++ after) v m ?_ evaluated
  rw [split, List.append_assoc, List.cons_append]

theorem evaluate_chain_concat {first : Expr} {steps : List AccessStep} {step : AccessStep}
    (proper : ProperSteps (steps ++ [step])) :
    evaluate s (first.chain (steps ++ [step])) =
      evaluate s (first.chain steps) >>= fun v => step.take s v := by
  rw [Expr.chain_append]
  refine evaluate_on fun isCall p n => ?_
  rcases steps.eq_nil_or_concat with rfl | ⟨earlier, last, rfl⟩
  · cases (proper step rfl).symm.trans isCall
  · rw [List.concat_eq_append, Expr.chain_append]
    cases last <;> exact nofun

theorem AccessStep.take_undefined (step : AccessStep) :
    step.take s .undefined = step.asides s >>= fun _ => pure .undefined := by
  cases step with
  | attr => rfl
  | item | call =>
      simp only [AccessStep.take, AccessStep.asides, bind_assoc, pure_bind]
      rfl

/-- Whether a step that is taken from a value finds nothing there. -/
inductive AccessStep.Lacks (s : Setting) : AccessStep → Value → World → Reference → World → Prop
  | attr {p : Pos} {n : String} {v : Value} {w : World} : v.part? s.host w.heap (.str n) = none →
      Lacks s (.attr p n) v w (w.lacking v (.str n)) w
  | item {p : Pos} {key : Expr} {v k : Value} {w u : World} :
      (evaluate s key).run w = (.ok k, u) → v.part? s.host u.heap k = none →
      Lacks s (.item p key) v w (u.lacking v k) u

theorem AccessStep.Lacks.misses {step : AccessStep} {object : Expr} {v : Value} {w m u : World}
    {r : Reference} (lacks : step.Lacks s v m r u)
    (evaluated : (evaluate s object).run w = (.ok v, m)) (defined : v ≠ .undefined) :
    Misses s (step.on object) w r u := by
  cases lacks with
  | attr lacks => exact .attr evaluated defined lacks
  | item keyed lacks => exact .item evaluated keyed defined lacks

/-- What the last step of a chain misses, it misses in a value that is not missing. -/
theorem Misses.evaluated {step : AccessStep} {object : Expr} {w u : World} {r : Reference}
    (misses : Misses s (step.on object) w r u) :
    ∃ v m, (evaluate s object).run w = (.ok v, m) ∧ v ≠ .undefined := by
  cases step with
  | attr =>
      cases misses with
      | attr evaluated defined _ => exact ⟨_, _, evaluated, defined⟩
  | item =>
      cases misses with
      | item evaluated _ defined _ => exact ⟨_, _, evaluated, defined⟩
  | call => cases misses

theorem Misses.unique {e : Expr} {w u u' : World} {r r' : Reference} (first : Misses s e w r u)
    (second : Misses s e w r' u') : r = r' := by
  cases first with
  | name =>
      cases second with
      | name => rfl
  | attr evaluated =>
      cases second with
      | attr evaluated' =>
          cases evaluated.symm.trans evaluated'
          rfl
  | item evaluated keyed =>
      cases second with
      | item evaluated' keyed' =>
          cases evaluated.symm.trans evaluated'
          cases keyed.symm.trans keyed'
          rfl

/-- An access to a whole value finds another one, or there is nothing and the result is missing. -/
theorem access_whole {v v' key : Value} {w u : World} (finds : s.host.Finds Value.Whole)
    (whole : v.Whole) (around : w.Whole) (loud : w.quiet = 0)
    (run : (s.access v key).run w = (.ok v', u)) :
    (v'.Whole ∧ u.references = w.references) ∨
      (v' = .undefined ∧ v.part? s.host w.heap key = none ∧
        u.references = w.references ++ [w.lacking v key]) := by
  rw [Setting.access_defined whole.ne_undefined] at run
  cases found : v.part? s.host w.heap key with
  | some part =>
      rw [found] at run
      cases run
      exact .inl ⟨Value.whole_deep.part? finds around.loops whole found, rfl⟩
  | none =>
      rw [found] at run
      have told := Setting.afterMiss_references (s := s) (w := w) (w.lacking v key)
      dsimp only at run
      rw [run, if_pos loud] at told
      exact .inr ⟨Setting.eq_undefined_of_afterMiss run, rfl, told⟩

/-- A fair step from a whole value comes to another one, or it lacks something and the result is
missing. -/
theorem AccessStep.take_whole {step : AccessStep} {v v' : Value} {w u : World}
    (finds : s.host.Finds Value.Whole) (whole : v.Whole) (around : w.Whole) (loud : w.quiet = 0)
    (fair : step.Fair s v w)
    (run : (step.take s v).run w = (.ok v', u)) :
    (v'.Whole ∧ u.references = w.references) ∨
      (v' = .undefined ∧ ∃ r m, step.Lacks s v w r m ∧ u.references = w.references ++ [r]) := by
  have mute := fair.mute
  cases step with
  | attr p n =>
      rcases access_whole finds whole around loud run with found | ⟨missing, lacks, told⟩
      · exact .inl found
      · exact .inr ⟨missing, _, _, .attr lacks, told⟩
  | item p key =>
      obtain ⟨k, m, keyed, run⟩ := Step.run_bind_ok run
      rw [AccessStep.asides, Step.run_bind, keyed] at mute
      have same : m.references = w.references := mute
      have aloud : m.quiet = 0 := ((evaluate_follows SameQuiet.walk key).after keyed).trans loud
      have inside := (evaluate_follows World.Whole.walk key).after keyed around
      rw [← same]
      rcases access_whole finds whole inside aloud run with found | ⟨missing, lacks, told⟩
      · exact .inl found
      · exact .inr ⟨missing, _, _, .item keyed lacks, told⟩
  | call p args named =>
      refine .inl ⟨fair.returns rfl whole.ne_undefined v' u run, ?_⟩
      obtain ⟨positional, m, first, run⟩ := Step.run_bind_ok run
      obtain ⟨keywords, m', second, run⟩ := Step.run_bind_ok run
      rw [AccessStep.asides, Step.run_bind, first] at mute
      dsimp only at mute
      rw [Step.run_bind, second] at mute
      have called : SameReferences m' u :=
        (s.callValue_follows SameReferences.calls v ⟨positional, keywords⟩).after run
      exact called.trans mute

end Steps

section Chain

variable {s : Setting} {p : Pos} {n : String} {w : World}

/-- What the evaluation of a chain comes to: a value, and nothing was missed; or one step of it
missed something, which was reported, and the value is missing. -/
inductive ChainOutcome (s : Setting) (first : Expr) (steps : List AccessStep) (w : World) :
    Value → World → Prop
  | found {v : Value} {u : World} : v.Whole → u.references = w.references →
      (∀ before r m, before <+: steps → ¬ Misses s (first.chain before) w r m) →
      ChainOutcome s first steps w v u
  | missed {before : List AccessStep} {r : Reference} {m u : World} : before <+: steps →
      Misses s (first.chain before) w r m → u.references = w.references ++ [r] →
      (∀ before' r' m', before' <+: steps → Misses s (first.chain before') w r' m' →
        before' = before ∧ r' = r) →
      ChainOutcome s first steps w .undefined u

theorem name_outcome (whole : w.Whole) (loud : w.quiet = 0) {v : Value} {u : World}
    (run : (evaluate s (.name p n)).run w = (.ok v, u)) :
    ChainOutcome s (.name p n) [] w v u := by
  rw [evaluate] at run
  have isEmpty : ∀ {before : List AccessStep}, before <+: [] → before = [] := List.prefix_nil.mp
  cases isLocal : w.locals.lookup n with
  | some bound =>
      rw [Setting.variableOf_local isLocal] at run
      cases run
      refine .found (Value.Deep.lookup whole.locals isLocal) rfl fun before r m prior misses => ?_
      cases isEmpty prior
      cases misses with
      | name noLocal _ => cases isLocal.symm.trans noLocal
  | none =>
      cases isSet : w.context.get? n with
      | some given =>
          rw [Setting.variableOf_set isLocal isSet] at run
          cases run
          have wholly := Value.Deep.lookup whole.context isSet
          refine .found wholly rfl fun before r m prior misses => ?_
          cases isEmpty prior
          cases misses with
          | name _ unset => cases isSet.symm.trans unset
      | none =>
          rw [Setting.variableOf_unset isLocal isSet] at run
          have told := Setting.afterMiss_references (s := s) (w := w) (w.unset n)
          rw [run, if_pos loud] at told
          have misses : Misses s (.name p n) w (w.unset n) w := .name isLocal isSet
          rw [Setting.eq_undefined_of_afterMiss run]
          refine .missed List.prefix_rfl misses told fun before r m prior further => ?_
          cases isEmpty prior
          exact ⟨rfl, further.unique misses⟩

theorem ChainOutcome.concat {first : Expr} {steps : List AccessStep} {step : AccessStep}
    {v v' : Value} {m u : World} (finds : s.host.Finds Value.Whole)
    (outcome : ChainOutcome s first steps w v m) (around : m.Whole)
    (loud : m.quiet = 0) (fair : step.Fair s v m)
    (evaluated : (evaluate s (first.chain steps)).run w = (.ok v, m))
    (taken : (step.take s v).run m = (.ok v', u))
    (all : (evaluate s (first.chain (steps ++ [step]))).run w = (.ok v', u)) :
    ChainOutcome s first (steps ++ [step]) w v' u := by
  have last : first.chain (steps ++ [step]) = step.on (first.chain steps) :=
    first.chain_append steps [step]
  cases outcome with
  | found whole same none =>
      rcases step.take_whole finds whole around loud fair taken with
        ⟨whole', same'⟩ | ⟨rfl, r, m', lacks, told⟩
      · refine .found whole' (same'.trans same) fun before r m' prior misses => ?_
        rcases List.prefix_concat_iff.mp prior with rfl | earlier
        · exact whole'.ne_undefined (Setting.eq_undefined_of_afterMiss (misses.run.symm.trans all))
        · exact none before r m' earlier misses
      · have misses : Misses s (first.chain (steps ++ [step])) w r m' :=
          last ▸ lacks.misses evaluated whole.ne_undefined
        refine .missed List.prefix_rfl misses (same ▸ told) fun before r' m'' prior further => ?_
        rcases List.prefix_concat_iff.mp prior with rfl | earlier
        · exact ⟨rfl, further.unique misses⟩
        · exact absurd further (none before r' m'' earlier)
  | missed prior misses told unique =>
      -- From here on nothing is missed: a step that misses something is taken from a value.
      rw [AccessStep.take_undefined] at taken
      obtain ⟨_, m', evaluatedAsides, ended⟩ := Step.run_bind_ok taken
      cases ended
      have mute := fair.mute
      rw [evaluatedAsides] at mute
      refine .missed (prior.trans (List.prefix_append _ _)) misses (mute.trans told) ?_
      intro before r' m'' prior' further
      rcases List.prefix_concat_iff.mp prior' with rfl | earlier
      · obtain ⟨v, _, before, defined⟩ := (last ▸ further : Misses s (step.on _) w r' m'').evaluated
        cases evaluated.symm.trans before
        exact absurd rfl defined
      · exact unique before r' m'' earlier further

theorem chain_outcome {steps : List AccessStep} (finds : s.host.Finds Value.Whole)
    (proper : ProperSteps steps) (whole : w.Whole) (loud : w.quiet = 0)
    (fair : FairSteps s (.name p n) steps w) {v : Value} {u : World}
    (run : (evaluate s ((Expr.name p n).chain steps)).run w = (.ok v, u)) :
    ChainOutcome s (.name p n) steps w v u := by
  induction steps using List.reverseRecOn generalizing v u with
  | nil => exact name_outcome whole loud run
  | append_singleton steps step ih =>
      have stepwise := run
      rw [evaluate_chain_concat proper] at stepwise
      obtain ⟨v', m, evaluated, taken⟩ := Step.run_bind_ok stepwise
      have around := (evaluate_follows World.Whole.walk _).after evaluated whole
      have aloud : m.quiet = 0 := ((evaluate_follows SameQuiet.walk _).after evaluated).trans loud
      exact (ih proper.before fair.before evaluated).concat finds around aloud
        (fair steps step [] v' m rfl evaluated) evaluated taken run

/-- Behind a prefix that is missing a chain only evaluates keys and arguments, which report
nothing. -/
theorem chain_of_missing {first : Expr} {before after : List AccessStep} {m : World}
    (proper : ProperSteps (before ++ after)) (fair : FairSteps s first (before ++ after) w)
    (missing : (evaluate s (first.chain before)).run w = (.ok .undefined, m)) :
    (evaluate s (first.chain (before ++ after))).run w =
        (forM after (AccessStep.asides s) >>= fun _ => pure .undefined).run m ∧
      ((evaluate s (first.chain (before ++ after))).run w).2.references = m.references := by
  induction after using List.reverseRecOn with
  | nil =>
      rw [List.append_nil, missing]
      exact ⟨rfl, rfl⟩
  | append_singleton after step ih =>
      rw [← List.append_assoc] at proper fair ⊢
      obtain ⟨goesOn, same⟩ := ih proper.before fair.before
      rw [evaluate_chain_concat proper]
      constructor
      · rw [Step.run_bind, goesOn, ← Step.run_bind, bind_assoc]
        simp only [pure_bind, AccessStep.take_undefined, List.forM_append, List.forM_cons,
          List.forM_nil, bind_assoc]
      · rw [Step.run_bind]
        cases run : (evaluate s (first.chain (before ++ after))).run w with
        | mk result u =>
            rw [run] at goesOn same
            cases result with
            | error fault => exact same
            | ok v =>
                obtain ⟨_, m', _, ended⟩ := Step.run_bind_ok goesOn.symm
                cases ended
                have mute := (fair (before ++ after) step [] _ u rfl run).mute
                dsimp only
                rw [AccessStep.take_undefined, Step.run_bind, ← same, ← mute]
                cases (step.asides s).run u with
                | mk result u' => cases result <;> rfl

end Chain

/-- A chain that begins with a name, with keys and arguments that report nothing and methods that
return nothing that is missing, is evaluated outside of quiet operands where nothing is missing that
has a name or that the host finds in values. If it comes to a value, it has reported nothing if the value is not missing, and then no
step has missed anything; if the value is missing, it has reported one reference, the one that the
first failing step misses, and no other step misses any. When reports do no harm, the steps behind
the failing one come down to the evaluation of their keys and arguments: they report nothing, and
no step itself fails. -/
theorem chain_reports_once (s : Setting) (p : Pos) (n : String) (steps : List AccessStep)
    (w : World) (finds : s.host.Finds Value.Whole) (proper : ProperSteps steps) (whole : w.Whole)
    (loud : w.quiet = 0) (fair : FairSteps s (.name p n) steps w) :
    (∀ v u, (evaluate s ((Expr.name p n).chain steps)).run w = (.ok v, u) →
      (v ≠ .undefined → u.references = w.references ∧
        ∀ before r m, before <+: steps → ¬ Misses s ((Expr.name p n).chain before) w r m) ∧
      (v = .undefined → ∃ before r m, before <+: steps ∧
        Misses s ((Expr.name p n).chain before) w r m ∧ u.references = w.references ++ [r] ∧
        ∀ before' r' m', before' <+: steps → Misses s ((Expr.name p n).chain before') w r' m' →
          before' = before ∧ r' = r)) ∧
    ∀ before after r m, steps = before ++ after → s.strict = false →
      Misses s ((Expr.name p n).chain before) w r m →
      (evaluate s ((Expr.name p n).chain steps)).run w =
          (forM after (AccessStep.asides s) >>= fun _ => pure .undefined).run
            { m with references := m.references ++ [r] } ∧
        ((evaluate s ((Expr.name p n).chain steps)).run w).2.references = m.references ++ [r] := by
  refine ⟨fun v u run => ?_, ?_⟩
  · cases chain_outcome finds proper whole loud fair run with
    | found found same none =>
        exact ⟨fun _ => ⟨same, none⟩, fun missing => absurd missing found.ne_undefined⟩
    | missed prior misses told unique =>
        exact ⟨fun defined => absurd rfl defined,
          fun _ => ⟨_, _, _, prior, misses, told, unique⟩⟩
  · rintro before after r m rfl lenient misses
    refine chain_of_missing proper fair (misses.run.trans ?_)
    rw [Setting.afterMiss, if_pos (misses.quiet.trans loud), lenient, if_neg Bool.false_ne_true]

/-! A user whose name is changed by a method of texts; no text has a card. -/

theorem Kit.finds_whole : host.Finds Value.Whole := by
  intro heap v name part _ _ found
  cases v with
  | str | markup =>
      obtain ⟨_, _, rfl⟩ := Option.map_eq_some_iff.mp found
      exact .simple rfl
  | generator id =>
      change (if name = "gi_frame" then
        some (if ((heap.generators[id]?).getD []).isEmpty then .null else frame id)
        else none) = some part at found
      obtain ⟨_, found⟩ := Option.ite_none_right_eq_some.mp found
      cases found
      split
      · exact .simple rfl
      · refine .object (fun e member => ?_) nofun
        cases List.mem_singleton.mp member
        refine .dict fun e member => ?_
        cases List.mem_singleton.mp member
        exact .simple rfl
  | _ => cases found

def kitSetting : Setting where
  host := Kit.host

def userWorld : World :=
  World.start ⟨[("user", .object 1 "User" [("name", .str "ada")] none)], []⟩ #[]

def cardSteps : List AccessStep :=
  [.attr ⟨1, 9⟩ "name", .attr ⟨1, 14⟩ "upper", .call ⟨1, 19⟩ [] [], .attr ⟨1, 22⟩ "card",
    .item ⟨1, 27⟩ (.const ⟨1, 28⟩ (.nat 0))]

theorem userWorld_whole : userWorld.Whole where
  context e member := by
    cases List.mem_singleton.mp member
    refine .object (fun e member => ?_) nofun
    cases List.mem_singleton.mp member
    exact .simple rfl
  locals _ member := nomatch member
  loops id l found := by simp [userWorld, World.start, World.heap] at found

theorem cardSteps_fair :
    FairSteps kitSetting (.name ⟨1, 4⟩ "user") cardSteps userWorld := by
  intro before step after v m split run
  unfold cardSteps at split
  match before with
  | [] | [_] | [_, _, _] | [_, _, _, _] =>
      cases split
      cases run
      exact ⟨rfl, nofun⟩
  | [_, _] =>
      cases split
      cases run
      refine ⟨rfl, fun _ _ result u returned => ?_⟩
      cases returned
      exact .simple rfl
  | _ :: _ :: _ :: _ :: _ :: _ => simp at split

theorem chain_reports_once_cardSteps :
    kitSetting.host.Finds Value.Whole ∧ ProperSteps cardSteps ∧ userWorld.Whole ∧
      userWorld.quiet = 0 ∧ FairSteps kitSetting (.name ⟨1, 4⟩ "user") cardSteps userWorld ∧
      ∃ u, (evaluate kitSetting ((Expr.name ⟨1, 4⟩ "user").chain cardSteps)).run userWorld =
          (.ok .undefined, u) ∧
        u.references.map (·.message) = ["Undefined attribute 'card' on str"] ∧
        ∃ before r m, before <+: cardSteps ∧
          Misses kitSetting ((Expr.name ⟨1, 4⟩ "user").chain before) userWorld r m ∧
          u.references = [r] := by
  have proper : ProperSteps cardSteps := by
    intro step isFirst
    cases isFirst
    rfl
  obtain ⟨once, _⟩ := chain_reports_once kitSetting ⟨1, 4⟩ "user" cardSteps userWorld
    Kit.finds_whole proper userWorld_whole rfl cardSteps_fair
  obtain ⟨before, r, m, prior, misses, told, _⟩ := (once _ _ rfl).2 rfl
  exact ⟨Kit.finds_whole, proper, userWorld_whole, rfl, cardSteps_fair, _, rfl, rfl, before, r, m,
    prior, misses, told⟩

end Stencil
