import Stencil.Proofs.Assembly.Assembled
import Stencil.Proofs.Cache.Memory
import Stencil.Proofs.Grammar.RoundTrip

/-!
Templates that pass all checks of what they write and of what they refer to. They are assembled
unless their code is refused in the end: for loops that are nested too deep in the template and its
includes together, or for an argument name that nothing may have.
-/

namespace Stencil

namespace Code

def Feasible (code : List Code) : Prop :=
  loopDepthAll code ≤ deepestLoops ∧ anyExprAll (Expr.namesArgument "__debug__") code = false

instance (code : List Code) : Decidable (Feasible code) := inferInstanceAs (Decidable (_ ∧ _))

end Code

theorem checkCode_ok_iff {filename : Option String} {code : List Code} :
    checkCode filename code = .ok () ↔ Code.Feasible code := by
  unfold checkCode Code.Feasible
  split
  · next deep => simp [deep]
  · next shallow =>
      split
      · next named => simp [named]
      · next unnamed => simp [Nat.le_of_not_lt shallow, unnamed]

/-- What holds of the template that characters write can be found out by reading them. -/
theorem Source.exists_template {cs : List Char} {limit : Int} {Q : Template → Prop}
    [DecidablePred Q]
    (passes : ((TokenStream.ofSource? cs).toOption.any fun stream =>
      (Grammar.template limit stream.tokens).toOption.any fun t => Q t) = true)
    (name filename : Option String) :
    ∃ t, Source.template ⟨String.ofList cs, name, filename⟩ limit = .ok t ∧ Q t := by
  cases tokens : TokenStream.ofSource? cs with
  | error fault =>
      rw [tokens] at passes
      cases passes
  | ok stream =>
      rw [tokens] at passes
      cases given : Grammar.template limit stream.tokens with
      | error fault => simp [Except.toOption, given] at passes
      | ok t =>
          refine ⟨t, template_of_tokens ?_ given, by simpa [Except.toOption, given] using passes⟩
          rw [Source.tokens, String.toList_ofList, tokens]

namespace Plan

def flat (p : Plan) (s : Source) : Except Fault Template := do
  let t ← p.parse s
  let (flat, _) ← p.flatten t (firstGiven [s.name] "<string>")
  return flat

/-- Whether a source is read, its parents are found, its includes open and all of its names are
registered. `flat` is the source with its parents and blocks expanded. -/
structure Accepts (p : Plan) (s : Source) (flat : Template) : Prop where
  flattened : p.flat s = .ok flat
  opens : p.OpensAll s.name flat.body
  registered : Code.EachAll (Expr.Registered p.registries) [] (p.outline flat.body)

variable {p : Plan} {s : Source} {flat : Template}

theorem accepts_of_last {t : Template} (parsed : p.parse s = .ok t) (last : t.parent = none)
    (opens : p.OpensAll s.name (Stmt.fillBlocks [] t.body))
    (registered : Code.EachAll (Expr.Registered p.registries) []
      (p.outline (Stmt.fillBlocks [] t.body))) :
    p.Accepts s ⟨Stmt.fillBlocks [] t.body, none⟩ := by
  refine ⟨?_, opens, registered⟩
  have flattened : p.flatten t (firstGiven [s.name] "<string>") =
      .ok (⟨Stmt.fillBlocks [] t.body, none⟩, []) := by
    rw [flatten, Chain.flatten, Chain.follow_last last]
  simp only [flat, parsed, flattened, bind, Except.bind]
  rfl

theorem Accepts.assemble_ok_iff (accepts : p.Accepts s flat) :
    (∃ a, ((p.assemble s).run {}).1 = .ok a) ↔ Code.Feasible (p.outline flat.body) := by
  obtain ⟨t, hparse, rest⟩ := Except.bind_ok accepts.flattened
  obtain ⟨⟨_, files⟩, hflatten, given⟩ := Except.bind_ok rest
  cases given
  have decides := @assembleTemplate_decides _ _ _ s.filename _ hflatten
  have run : (p.assemble s).run {} = (p.assembleTemplate t s.name s.filename).run {} := by
    rw [assemble_eq, Step.run_bind, Assembly.ofExcept, Step.run_mk_pure, hparse]
  rw [run, ← @checkCode_ok_iff s.filename]
  constructor
  · rintro ⟨a, given⟩
    exact (decides.only (Prod.ext given rfl)).1.2.2
  · intro accepted
    obtain ⟨a, u, whole⟩ := decides.succeeds ⟨accepts.opens, accepts.registered, accepted⟩ {}
    exact ⟨a, by rw [whole]⟩

theorem exists_accepts {Q : Template → Prop} [DecidablePred Q]
    (passes : ((p.flat s).toOption.any fun flat => p.OpensAll s.name flat.body ∧
      Code.EachAll (Expr.Registered p.registries) [] (p.outline flat.body) ∧ Q flat) = true) :
    ∃ flat, p.Accepts s flat ∧ Q flat := by
  cases flattened : p.flat s with
  | error fault =>
      rw [flattened] at passes
      cases passes
  | ok flat =>
      rw [flattened] at passes
      obtain ⟨opens, registered, satisfied⟩ := of_decide_eq_true passes
      exact ⟨flat, ⟨flattened, opens, registered⟩, satisfied⟩

end Plan

namespace Engine

variable {e : Engine}

theorem fromString_ok_iff {text : String} {name : Option String} :
    (∃ t, ((fromString text name).run e).1 = .ok t) ↔
      ∃ a, ((e.plan.assemble ⟨text, name, none⟩).run {}).1 = .ok a := by
  rw [fromString, Step.run_bind, assemble_run]
  cases ((e.plan.assemble ⟨text, name, none⟩).run {}).1 with
  | error fault => simp
  | ok a => simp

theorem fromScratch_ok_iff {name : String} {sheet : Sheet} (found : e.plan.sheet name = .ok sheet) :
    (∃ t, e.fromScratch name = .ok t) ↔
      ∃ a, ((e.plan.assemble ⟨sheet.text, some name, sheet.filename⟩).run {}).1 = .ok a := by
  simp only [fromScratch, found, bind, Except.bind]
  cases ((e.plan.assemble ⟨sheet.text, some name, sheet.filename⟩).run {}).1 with
  | error fault => simp
  | ok a => simp [pure, Except.pure]

theorem getTemplate_ok_of_fromScratch {name : String} {t : Loaded}
    (scratch : e.fromScratch name = .ok t) (useCache : Option Bool) :
    ∃ t, ((getTemplate name useCache).run e).1 = .ok t := by
  rcases getTemplate_result name useCache e with same | ⟨sheet, code, _, _, _, given⟩
  · exact ⟨t, same.trans scratch⟩
  · exact ⟨_, given⟩

/-- An accepted template is compiled just if its loops, those of its includes among them, are nested
at most as deep as code allows, and no argument has the name that nothing may have. This is meant of
statements and expressions that the stack of the compiler has room for: it goes down them by
recursion, a few calls for each level, and what it does when its stack is full is not told here. -/
theorem accepted_ok_iff_feasible (e : Engine) :
    (∀ text name flat, e.plan.Accepts ⟨text, name, none⟩ flat →
      ((∃ t, ((fromString text name).run e).1 = .ok t) ↔
        Code.Feasible (e.plan.outline flat.body))) ∧
    ∀ name sheet flat, e.plan.sheet name = .ok sheet →
      e.plan.Accepts ⟨sheet.text, some name, sheet.filename⟩ flat →
      ((∃ t, ((getTemplate name (some false)).run e).1 = .ok t) ↔
        Code.Feasible (e.plan.outline flat.body)) ∧
      (Code.Feasible (e.plan.outline flat.body) →
        ∀ useCache, ∃ t, ((getTemplate name useCache).run e).1 = .ok t) := by
  refine ⟨fun text name flat accepts => ?_, fun name sheet flat found accepts => ?_⟩
  · rw [fromString_ok_iff]
    exact accepts.assemble_ok_iff
  · have scratch := (fromScratch_ok_iff found).trans accepts.assemble_ok_iff
    rw [getTemplate_uncached]
    refine ⟨scratch, fun feasible useCache => ?_⟩
    obtain ⟨t, given⟩ := scratch.mpr feasible
    exact getTemplate_ok_of_fromScratch given useCache

theorem accepted_ok_iff_feasible_page : ∃ sheet flat,
    (overTexts "old").plan.sheet "page" = .ok sheet ∧
      (overTexts "old").plan.Accepts ⟨sheet.text, some "page", sheet.filename⟩ flat ∧
      Code.Feasible ((overTexts "old").plan.outline flat.body) ∧
      (∃ t, ((fromString "\x7b% include \"part\" %\x7d" none).run (overTexts "old")).1 = .ok t) ∧
      ∀ useCache, ∃ t, ((getTemplate "page" useCache).run (overTexts "old")).1 = .ok t := by
  have found : (overTexts "old").plan.sheet "page" =
      .ok ⟨"\x7b% include \"part\" %\x7d", none⟩ := by decide +kernel
  obtain ⟨flat, accepts, feasible⟩ : ∃ flat,
      (overTexts "old").plan.Accepts ⟨"\x7b% include \"part\" %\x7d", some "page", none⟩ flat ∧
        Code.Feasible ((overTexts "old").plan.outline flat.body) :=
    Plan.exists_accepts (by decide +kernel)
  obtain ⟨inText, accepts', feasible'⟩ : ∃ flat,
      (overTexts "old").plan.Accepts ⟨"\x7b% include \"part\" %\x7d", none, none⟩ flat ∧
        Code.Feasible ((overTexts "old").plan.outline flat.body) :=
    Plan.exists_accepts (by decide +kernel)
  obtain ⟨given, taken⟩ := accepted_ok_iff_feasible (overTexts "old")
  exact ⟨_, flat, found, accepts, feasible, (given _ none inText accepts').mpr feasible',
    (taken "page" _ flat found accepts).2 feasible⟩

def nestedLoops (depth : Nat) : List Char :=
  (List.replicate depth "\x7b% for i in 1..1 %\x7d".toList).flatten ++
    'x' :: (List.replicate depth "\x7b% end %\x7d".toList).flatten

/-- Readers allow for more open blocks than code has loops. -/
theorem nestedLoops_refused : ¬ ∀ (e : Engine) (text : String) (name : Option String)
    (flat : Template), e.plan.Accepts ⟨text, name, none⟩ flat →
      ∃ t, ((fromString text name).run e).1 = .ok t := by
  intro compiles
  obtain ⟨text, t, read, last, opens, registered, refused⟩ : ∃ text t,
      Source.template ⟨text, none, none⟩ 50 = .ok t ∧ t.parent = none ∧
        (overTexts "old").plan.OpensAll none (Stmt.fillBlocks [] t.body) ∧
        Code.EachAll (Expr.Registered (overTexts "old").plan.registries) []
          ((overTexts "old").plan.outline (Stmt.fillBlocks [] t.body)) ∧
        ¬ Code.Feasible ((overTexts "old").plan.outline (Stmt.fillBlocks [] t.body)) :=
    ⟨String.ofList (nestedLoops 21), Source.exists_template (by decide +kernel) none none⟩
  have parsed : (overTexts "old").plan.parse ⟨text, none, none⟩ = .ok t := by
    rw [Plan.parse, show (overTexts "old").plan.limits.nesting = 50 from rfl, read]
  have accepts := Plan.accepts_of_last parsed last opens registered
  have compiled := fromString_ok_iff.mp (compiles (overTexts "old") text none _ accepts)
  exact refused (accepts.assemble_ok_iff.mp compiled)

end Engine

end Stencil
