import Stencil.Proofs.Render.Strict

/-!
The policies for missing references. They decide where a missing reference is told, and whether it
ends the render, but nothing else.
-/

namespace Stencil

variable {s : Setting}

def Setting.count (s : Setting) (c : Counter) (r : Reference) : Counter :=
  c.add r.name r.message (s.placeOf r.line)

theorem renderCode_agrees (lenient : s.strict = false) (code : List Code) (context : Context)
    (generators : Array (List Value)) :
    match (renderCode s code context generators).world.references with
    | [] => renderCode s.strictly code context generators = renderCode s code context generators
    | r :: _ =>
        (renderCode s.strictly code context generators).outcome =
            .error (.undefinedReference (s.undefinedError r)) ∧
          (renderCode s.strictly code context generators).world.references = [r] := by
  have agreement := executeAll_agrees lenient code (World.start context generators)
  unfold renderCode
  generalize (executeAll s code).run (World.start context generators) = production at agreement ⊢
  generalize (executeAll s.strictly code).run (World.start context generators) = strict
    at agreement ⊢
  obtain ⟨result, w⟩ := production
  cases agreement with
  | same unchanged =>
      cases result with
      | ok written =>
          dsimp only at unchanged ⊢
          rw [unchanged]
          rfl
      | error fault =>
          dsimp only at unchanged ⊢
          rw [unchanged]
          cases fault <;> rfl
  | stopped found ends =>
      cases result with
      | ok written =>
          dsimp only at found ⊢
          rw [found]
          exact ⟨rfl, ends⟩
      | error fault =>
          dsimp only at found ⊢
          rw [found]
          exact ⟨rfl, ends⟩

namespace Engine

/-- The same engine with the policy of production, which only logs what is missing. -/
def inProduction (e : Engine) : Engine :=
  { e with env := { e.env with options := { e.env.options with
      strictVariables := false, logUndefined := true, development := false } } }

def rendering (e : Engine) (t : Loaded) (fill : Context → Context) : Rendering :=
  renderCode (e.settingOf t) t.code (fill ((⟨[], []⟩ : Context).setAll e.env.globals)) e.generators

/-- The references that are missing when a template is rendered, in order. -/
def missed (e : Engine) (t : Loaded) (fill : Context → Context) : List Reference :=
  (e.rendering t fill).world.references

/-- What an engine logs of references, and what it tells its reporter, when they do not end a
render. -/
def logged (e : Engine) (s : Setting) (refs : List Reference) : List String :=
  if e.env.options.development || !e.env.options.logUndefined then [] else refs.map (logText s)

def reported (e : Engine) (s : Setting) (refs : List Reference) : List Report :=
  if e.env.options.development then refs.map (reportOf s) else []

/-- The engine after it counted, logged and reported references. -/
def told (e : Engine) (s : Setting) (refs : List Reference) : Engine :=
  { e with
    env := { e.env with counter := refs.foldl s.count e.env.counter }
    log := e.log ++ e.logged s refs
    reports := e.reports ++ e.reported s refs }

theorem logged_append (e : Engine) (refs more : List Reference) :
    e.logged s (refs ++ more) = e.logged s refs ++ e.logged s more := by
  unfold logged
  split <;> simp

theorem reported_append (e : Engine) (refs more : List Reference) :
    e.reported s (refs ++ more) = e.reported s refs ++ e.reported s more := by
  unfold reported
  split <;> simp

theorem told_nil (e : Engine) : e.told s [] = e := by simp [told, logged, reported]

theorem told_cons (e : Engine) (r : Reference) (rest : List Reference) :
    (e.told s [r]).told s rest = e.told s (r :: rest) := by
  have log := e.logged_append (s := s) [r] rest
  have reports := e.reported_append (s := s) [r] rest
  rw [List.singleton_append] at log reports
  unfold told
  rw [log, reports, ← List.append_assoc, ← List.append_assoc]
  rfl

theorem observe_lenient {e : Engine} (lenient : e.env.isStrict = false) (hs : s.strict = false)
    (r : Reference) : observe s e r = e.told s [r] := by
  simp only [Environment.isStrict, Bool.or_eq_false_iff] at lenient
  unfold observe told logged reported
  simp only [lenient.1, hs]
  cases e.env.options.development <;> cases e.env.options.logUndefined <;>
    simp [Setting.count]

theorem observe_all_lenient {e : Engine} (lenient : e.env.isStrict = false)
    (hs : s.strict = false) (refs : List Reference) : refs.foldl (observe s) e = e.told s refs := by
  induction refs generalizing e with
  | nil => exact e.told_nil.symm
  | cons r rest ih =>
      rw [List.foldl_cons, observe_lenient lenient hs]
      exact (ih (e := e.told s [r]) lenient).trans (e.told_cons r rest)

theorem observe_strict {e : Engine} (strict : e.env.isStrict) (hs : s.strict) (r : Reference) :
    observe s e r = { e with env := { e.env with counter := s.count e.env.counter r } } := by
  have told : e.env.options.strictVariables || e.env.options.development := by
    simp only [Environment.isStrict, Bool.or_eq_true, Bool.and_eq_true] at strict ⊢
    rcases strict with own | ⟨development, _⟩
    · exact .inl own
    · exact .inr development
  unfold observe
  simp only [told, hs, ↓reduceIte, Setting.count]

def answer (r : Rendering) : Except Fault String :=
  match r.outcome with
  | .ok written => .ok (String.ofList (Fragment.charsOf written))
  | .error d => .error (.diagnostic d)

theorem renderLoaded_run (e : Engine) (t : Loaded) (fill : Context → Context) :
    (renderLoaded t fill).run e =
      (answer (e.rendering t fill), e.absorb (e.settingOf t) (e.rendering t fill).world) := by
  unfold renderLoaded
  rw [Step.run_bind, Step.run_get]
  dsimp only
  rw [Step.run_bind, Step.run_set]
  dsimp only
  unfold answer rendering
  cases (renderCode (e.settingOf t) t.code (fill ((⟨[], []⟩ : Context).setAll e.env.globals))
    e.generators).outcome <;> rfl

theorem inProduction_isStrict (e : Engine) : e.inProduction.env.isStrict = false := rfl

theorem settingOf_lenient {e : Engine} (lenient : e.env.isStrict = false) (t : Loaded) :
    e.settingOf t = e.inProduction.settingOf t := by
  simp only [settingOf, lenient, inProduction_isStrict]
  rfl

theorem settingOf_strict {e : Engine} (strict : e.env.isStrict) (t : Loaded) :
    e.settingOf t = (e.inProduction.settingOf t).strictly := by
  simp only [settingOf, strict, Setting.strictly]
  rfl

theorem absorb_lenient {e : Engine} (lenient : e.env.isStrict = false) (t : Loaded) (w : World) :
    e.absorb (e.settingOf t) w =
      { e.told (e.settingOf t) w.references with
        notes := e.notes ++ w.notes, generators := w.generators } := by
  have observed := observe_all_lenient (s := e.settingOf t) lenient lenient w.references
  unfold absorb
  rw [observed]
  rfl

theorem rendering_lenient {e : Engine} (lenient : e.env.isStrict = false) (t : Loaded)
    (fill : Context → Context) : e.rendering t fill = e.inProduction.rendering t fill := by
  unfold rendering
  rw [settingOf_lenient lenient]
  rfl

theorem rendering_strict {e : Engine} (strict : e.env.isStrict) (t : Loaded)
    (fill : Context → Context) :
    match e.inProduction.missed t fill with
    | [] => e.rendering t fill = e.inProduction.rendering t fill
    | r :: _ =>
        (e.rendering t fill).outcome =
            .error (.undefinedReference ((e.settingOf t).undefinedError r)) ∧
          (e.rendering t fill).world.references = [r] := by
  unfold missed rendering
  rw [settingOf_strict strict]
  exact renderCode_agrees (s := e.inProduction.settingOf t) rfl t.code _ e.generators

/-- The policies for missing references only observe. A render that may go on past them ends as in
production, misses the same and leaves the same behind, but for what it logs and reports; a strict
one ends as in production if nothing is missing there, and otherwise fails at the first missing
reference, which is all that it counts. -/
theorem renderLoaded_observes (e : Engine) (t : Loaded) (fill : Context → Context) :
    let s := e.settingOf t
    let (outcome, after) := (renderLoaded t fill).run e
    let (produced, production) := (renderLoaded t fill).run e.inProduction
    let missed := e.inProduction.missed t fill
    production.env.counter = missed.foldl s.count e.env.counter ∧
    production.log = e.log ++ missed.map (logText s) ∧
    if e.env.isStrict then
      after.log = e.log ∧ after.reports = e.reports ∧
      match missed with
      | [] => outcome = produced ∧ after.env.counter = e.env.counter
      | r :: _ =>
          outcome = .error (s.undefinedFault r) ∧ after.env.counter = s.count e.env.counter r
    else
      outcome = produced ∧ e.missed t fill = missed ∧
      after = { production with
        env := { production.env with options := e.env.options }
        log := e.log ++ e.logged s missed
        reports := e.reports ++ e.reported s missed } := by
  dsimp only
  rw [renderLoaded_run, renderLoaded_run]
  dsimp only
  refine ⟨?_, ?_, ?_⟩
  · rw [absorb_lenient e.inProduction_isStrict]
    rfl
  · rw [absorb_lenient e.inProduction_isStrict]
    rfl
  cases strict : e.env.isStrict with
  | false =>
      rw [absorb_lenient strict, absorb_lenient e.inProduction_isStrict,
        rendering_lenient strict]
      refine ⟨rfl, ?_, rfl⟩
      unfold missed
      rw [rendering_lenient strict]
  | true =>
      have agrees := rendering_strict strict t fill
      cases found : e.inProduction.missed t fill with
      | nil =>
          rw [found] at agrees
          have none : (e.rendering t fill).world.references = [] := by
            rw [agrees]
            exact found
          unfold absorb
          rw [none, agrees]
          exact ⟨rfl, rfl, rfl, rfl⟩
      | cons r more =>
          rw [found] at agrees
          obtain ⟨fails, only⟩ := agrees
          unfold absorb
          rw [only, List.foldl_cons, List.foldl_nil, observe_strict strict strict]
          refine ⟨rfl, rfl, ?_, rfl⟩
          rw [answer, fails]
          rfl

end Engine

end Stencil
