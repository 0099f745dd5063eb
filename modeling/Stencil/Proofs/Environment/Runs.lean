import Stencil.Environment.Render
import Stencil.Proofs.Environment.Templates

namespace Stencil

inductive Event
  | take (name : String) (useCache : Option Bool)
  | render (name : String) (vars : List (String × Value)) (useCache : Option Bool)
  | enable (enabled : Bool)
  | limit (lifetime : Value)
  | clear
  | change (c : FileChange)
  | load (loader : Option Loader)

/-- Whether two templates render alike: to the same text or fault, and with the same effects, for
every filling of the variables in every engine. -/
def Loaded.RendersLike (t u : Loaded) : Prop :=
  ∀ (fill : Context → Context) (e : Engine),
    (Engine.renderLoaded t fill).run e = (Engine.renderLoaded u fill).run e

theorem Loaded.rendersLike_of_same {t u : Loaded} (name : u.name = t.name)
    (filename : u.filename = t.filename) (source : u.source = t.source) (code : u.code = t.code) :
    t.RendersLike u := by
  intro fill e
  have setting : ∀ e : Engine, e.settingOf u = e.settingOf t := by
    intro e
    rw [Engine.settingOf, Engine.settingOf, name, filename, source]
  rw [Engine.renderLoaded, Engine.renderLoaded]
  simp only [setting, code]

/-- Whether two ways to take a template fail alike, or give templates that render alike. -/
def AnswersLike : Except Fault Loaded → Except Fault Loaded → Prop
  | .ok t, .ok u => t.RendersLike u
  | .error fault, .error fault' => fault = fault'
  | _, _ => False

theorem AnswersLike.refl (x : Except Fault Loaded) : AnswersLike x x := by
  cases x with
  | error fault => rfl
  | ok t => exact fun _ _ => rfl

theorem AnswersLike.text_eq {x y : Except Fault Loaded} (alike : AnswersLike x y)
    (fill : Context → Context) (e : Engine) :
    (x.toOption.bind fun t => ((Engine.renderLoaded t fill).run e).1.toOption) =
      y.toOption.bind fun t => ((Engine.renderLoaded t fill).run e).1.toOption := by
  cases x with
  | error fault =>
      cases y with
      | error fault' => rfl
      | ok u => cases alike
  | ok t =>
      cases y with
      | error fault' => cases alike
      | ok u =>
          have same : (Engine.renderLoaded t fill).run e = (Engine.renderLoaded u fill).run e :=
            alike fill e
          simp only [Except.toOption, Option.bind_some, same]

namespace Engine

def atTime (e : Engine) (time : Int) : Engine := { e with now := time }

def perform : Event → EngineM Unit
  | .take name useCache => do
      let _ ← getTemplate name useCache
  | .render name vars useCache => do
      let _ ← renderNamed name vars useCache
  | .enable enabled => changeOptions fun o => { o with cacheEnabled := enabled }
  | .limit lifetime => modify fun e => e.setLifetime lifetime
  | .clear => modify clearCache
  | .change c => changeFile c
  | .load loader => changeEnv fun e => { e with loader }

/-- The engine after an event at a point of time. An event that fails still happened. -/
def after (e : Engine) (time : Int) (event : Event) : Engine :=
  ((perform event).run (e.atTime time)).2

/-- The engines that a run leads to. `allows` says which event may come at which time, after what
was done until now. -/
inductive Runs (allows : (now time : Int) → Event → Prop) (start : Engine) : Engine → Prop
  | start : Runs allows start start
  | step {e : Engine} {time : Int} {event : Event} :
      Runs allows start e → allows e.now time event → Runs allows start (e.after time event)

theorem Runs.trans {allows : Int → Int → Event → Prop} {e e' e'' : Engine}
    (first : Runs allows e e') (second : Runs allows e' e'') : Runs allows e e'' := by
  induction second with
  | start => exact first
  | step _ allowed ih => exact .step ih allowed

/-- Where a template with cached code came from: an engine at an earlier point of the run that
assembled the same source to the same code. -/
structure Origin (allows : (now time : Int) → Event → Prop) (start e : Engine) (t : Loaded)
    (past : Engine) (prior : String) (template : Template) : Prop where
  before : Runs allows start past
  since : Runs allows past e
  assembled : ∃ u, past.fromScratch prior = .ok u ∧ u.source = t.source ∧ u.code = t.code
  parsed : ∃ filename, past.plan.parse ⟨t.source, some prior, filename⟩ = .ok template

/-! Renders leave the caches as they are. -/

theorem Becomes.of_same {e e' : Engine} (unmoved : Unmoved e e') (disk : e'.disk = e.disk)
    (memory : e'.env.memory = e.env.memory) : Becomes e e' :=
  ⟨unmoved, fun _ _ found => .inl (disk ▸ found), fun _ _ found => .inl (memory ▸ found)⟩

theorem observe_becomes (s : Setting) (e : Engine) (r : Reference) : Becomes e (observe s e r) := by
  rw [observe]
  simp only
  split
  · split
    · exact .of_same ⟨rfl, rfl, rfl, rfl, rfl, rfl⟩ rfl rfl
    · exact .of_same ⟨rfl, rfl, rfl, rfl, rfl, rfl⟩ rfl rfl
  · split
    · exact .of_same ⟨rfl, rfl, rfl, rfl, rfl, rfl⟩ rfl rfl
    · exact .of_same ⟨rfl, rfl, rfl, rfl, rfl, rfl⟩ rfl rfl

theorem absorb_becomes (e : Engine) (s : Setting) (w : World) : Becomes e (e.absorb s w) := by
  have observed : ∀ (references : List Reference) (m : Engine), Becomes e m →
      Becomes e (references.foldl (observe s) m) := by
    intro references
    induction references with
    | nil => exact fun _ becomes => becomes
    | cons r rest ih => exact fun m becomes => ih _ (becomes.trans (observe_becomes s m r))
  exact (observed w.references e (.refl e)).trans (.of_same ⟨rfl, rfl, rfl, rfl, rfl, rfl⟩ rfl rfl)

theorem renderLoaded_becomes (t : Loaded) (fill : Context → Context) :
    Step.Follows Becomes (renderLoaded t fill) := by
  intro e
  rw [renderLoaded, Step.run_bind, Step.run_get]
  simp only
  rw [Step.run_bind, Step.run_set]
  simp only
  split
  · exact absorb_becomes e _ _
  · exact absorb_becomes e _ _

theorem renderNamed_becomes (name : String) (vars : List (String × Value))
    (useCache : Option Bool) : Step.Follows Becomes (renderNamed name vars useCache) := by
  refine .bind (R := Becomes) Becomes.trans (getTemplate_becomes name useCache) fun t => ?_
  refine .bind (R := Becomes) Becomes.trans (renderLoaded_becomes t _) fun written => ?_
  refine .bind (R := Becomes) Becomes.trans (fun e => ?_) fun _ => .pure Becomes.refl _
  exact .of_same ⟨rfl, rfl, rfl, rfl, rfl, rfl⟩ rfl rfl

theorem take_becomes (e : Engine) (time : Int) (name : String) (useCache : Option Bool) :
    Becomes (e.atTime time) (e.after time (.take name useCache)) := by
  have done : Step.Follows Becomes (perform (.take name useCache)) :=
    .bind (R := Becomes) Becomes.trans (getTemplate_becomes name useCache)
      fun _ => .pure Becomes.refl _
  exact done (e.atTime time)

theorem render_becomes (e : Engine) (time : Int) (name : String) (vars : List (String × Value))
    (useCache : Option Bool) :
    Becomes (e.atTime time) (e.after time (.render name vars useCache)) := by
  have done : Step.Follows Becomes (perform (.render name vars useCache)) :=
    .bind (R := Becomes) Becomes.trans (renderNamed_becomes name vars useCache)
      fun _ => .pure Becomes.refl _
  exact done (e.atTime time)

/-! What one event does to the caches. -/

/-- What holds of an engine after an event at a point of time, as far as the caches matter. -/
structure Proceeds (e : Engine) (time : Int) (e' : Engine) : Prop where
  registries : e'.env.registries = e.env.registries
  limits : e'.env.limits = e.env.limits
  usesDisk : e'.env.options.usesDisk = e.env.options.usesDisk
  now : e'.now = time
  disk : ∀ key entry, e'.disk.entries.lookup key = some entry →
    e.disk.entries.lookup key = some entry ∨
      ((e.atTime time).MakesEntry key entry ∧ e'.files = e.files)
  memory : ∀ name entry, e'.env.memory.lookup name = some entry →
    e.env.memory.lookup name = some entry ∨ (e.atTime time).MakesMemory name entry

theorem Proceeds.of_becomes {e e' : Engine} {time : Int} (becomes : Becomes (e.atTime time) e') :
    Proceeds e time e' := by
  obtain ⟨unmoved, disk, memory⟩ := becomes
  refine ⟨unmoved.registries, unmoved.limits, unmoved.usesDisk, unmoved.now, ?_, memory⟩
  intro key entry found
  exact (disk key entry found).imp_right fun made => ⟨made, unmoved.files⟩

theorem changeFile_run (c : FileChange) (e : Engine) :
    ((changeFile c).run e).2 = e ∨
      ∃ files, c.apply e.files e.now = .ok files ∧ ((changeFile c).run e).2 = { e with files } := by
  rw [changeFile, Step.run_bind, Step.run_get]
  simp only
  cases applied : c.apply e.files e.now with
  | ok files => exact .inr ⟨files, rfl, rfl⟩
  | error fault => exact .inl rfl

theorem after_proceeds (e : Engine) (time : Int) (event : Event) :
    Proceeds e time (e.after time event) := by
  cases event with
  | take name useCache => exact .of_becomes (take_becomes e time name useCache)
  | render name vars useCache => exact .of_becomes (render_becomes e time name vars useCache)
  | enable enabled => exact ⟨rfl, rfl, rfl, rfl, fun _ _ => .inl, fun _ _ => .inl⟩
  | limit lifetime => exact ⟨rfl, rfl, rfl, rfl, fun _ _ => .inl, fun _ _ => .inl⟩
  | load loader => exact ⟨rfl, rfl, rfl, rfl, fun _ _ => .inl, fun _ _ => .inl⟩
  | clear =>
      refine ⟨rfl, rfl, rfl, rfl, fun key entry found => ?_, fun name entry found => ?_⟩
      · refine .inl ?_
        cases hdisk : e.env.options.usesDisk with
        | true => simp [after, perform, clearCache, atTime, hdisk, DiskCache.clear] at found
        | false => simpa [after, perform, clearCache, atTime, hdisk] using found
      · cases found
  | change c =>
      rcases changeFile_run c (e.atTime time) with same | ⟨files, _, changed⟩
      · exact .of_becomes (same ▸ .refl _)
      · rw [after, perform, changed]
        exact ⟨rfl, rfl, rfl, rfl, fun _ _ => .inl, fun _ _ => .inl⟩

end Engine

end Stencil
