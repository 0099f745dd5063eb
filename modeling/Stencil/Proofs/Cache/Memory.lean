import Stencil.Proofs.Assembly.Transfer
import Stencil.Proofs.Environment.Runs

/-!
The cache in memory. An entry is compared with the source of its template only, so a change of a
parent or an include goes unnoticed; as long as those have the same texts, the cache cannot be
seen.
-/

namespace Stencil.Engine

def Free (_ _ : Int) (_ : Event) : Prop := True

/-- What a run keeps: the rules that templates are assembled by, and that each entry was made by an
earlier step. -/
structure Remembers (start e : Engine) : Prop where
  shares : Plan.Shares start.plan e.plan
  usesDisk : e.env.options.usesDisk = start.env.options.usesDisk
  entries : ∀ name entry, e.env.memory.lookup name = some entry →
    ∃ past, Runs Free start past ∧ Runs Free past e ∧ past.MakesMemory name entry

theorem Runs.remembers {start e : Engine} (runs : Runs Free start e)
    (empty : start.env.memory = []) : Remembers start e := by
  induction runs with
  | start =>
      refine ⟨.refl _, rfl, fun name entry found => ?_⟩
      rw [empty] at found
      cases found
  | @step e time event runs allowed ih =>
      have proceeds := after_proceeds e time event
      refine ⟨⟨proceeds.registries.trans ih.shares.registries,
        proceeds.limits.trans ih.shares.limits⟩, proceeds.usesDisk.trans ih.usesDisk, ?_⟩
      intro name entry found
      rcases proceeds.memory name entry found with old | ⟨sheet, a, assembles, hentry⟩
      · obtain ⟨past, before, since, made⟩ := ih.entries name entry old
        exact ⟨past, before, .step since allowed, made⟩
      · refine ⟨e, runs, .step .start allowed, sheet, a, ?_, hentry⟩
        exact ⟨assembles.found, assembles.assembled, assembles.complete⟩

/-- A template that is served from memory was assembled from the same source at an earlier point
of the run. It renders like one that is assembled now if the templates that were read then have
the same texts still. -/
theorem served_rendersLike_of_sameText {start e : Engine}
    (usesDisk : start.env.options.usesDisk = false) (empty : start.env.memory = [])
    (runs : Runs Free start e) {name : String} {useCache : Option Bool} {t : Loaded}
    (taken : ((getTemplate name useCache).run e).1 = .ok t) (cached : t.fromCache) :
    ∃ past template, Origin Free start e t past name template ∧
      ((∀ read, past.plan.Reads (firstGiven [some name] "<string>") template read →
          past.plan.SameText e.plan read) →
        ∃ fresh, ((getTemplate name (some false)).run e).1 = .ok fresh ∧ t.RendersLike fresh) := by
  have remembers := runs.remembers empty
  rw [getTemplate_uncached]
  rcases getTemplate_result name useCache e with scratch | ⟨sheet, code, e', hsheet, asked, given⟩
  · rw [scratch] at taken
    obtain ⟨_, _, _, _, _, rfl⟩ := fromScratch_ok taken
    cases cached
  · rw [given] at taken
    cases taken
    rcases cached?_eq_some asked with ⟨p, hp, _⟩ | ⟨_, found⟩
    · have noDisk : e.env.options.usesDisk = false := remembers.usesDisk.trans usesDisk
      cases hfile : sheet.filename <;> simp [cacheKey?, hfile, noDisk] at hp
    · obtain ⟨past, before, since, old, a, assembles, hentry⟩ := remembers.entries _ _ found
      have shares : Plan.Shares past.plan e.plan := by
        have then_ := (before.remembers empty).shares
        exact ⟨remembers.shares.registries.trans then_.registries.symm,
          remembers.shares.limits.trans then_.limits.symm⟩
      obtain ⟨sameSource, rfl⟩ := MemoryEntry.mk.inj hentry
      obtain ⟨trail, assembled⟩ := assembles.assembled
      obtain ⟨template, _, hparse, _⟩ := Plan.assemble_ok assembled
      refine ⟨past, template, ⟨before, since, ⟨_, fromScratch_of_assemble assembles.found assembled,
        sameSource.symm, rfl⟩, ⟨old.filename, by rwa [← sameSource] at hparse⟩⟩, fun same => ?_⟩
      obtain ⟨flat, unfolded⟩ := Plan.Unfolded.of_assemble assembled assembles.complete hparse
      have unfoldedNow : e.plan.Unfolded ⟨sheet.text, some name, sheet.filename⟩ template flat :=
        unfolded.carries shares sameSource rfl same
      obtain ⟨a', trail', assembledNow, sameCode⟩ :=
        unfolded.assemble shares assembled unfoldedNow same
      exact ⟨_, fromScratch_of_assemble hsheet assembledNow,
        Loaded.rendersLike_of_same rfl rfl rfl sameCode⟩

def overTexts (part : String) : Engine where
  env := { loader := some (.entries false
    [("page", "\x7b% include \"part\" %\x7d"), ("part", part)]) }
  host := .bare
  files := ⟨"", []⟩

def afterFirst : Engine := (overTexts "old").after 0 (.take "page" none)

theorem afterFirst_runs : Runs Free (overTexts "old") afterFirst := .step .start trivial

theorem served_rendersLike_afterFirst : ∃ t,
    ((getTemplate "page" none).run afterFirst).1 = .ok t ∧ t.fromCache ∧
      ∃ past template, Origin Free (overTexts "old") afterFirst t past "page" template ∧
        ((∀ read, past.plan.Reads (firstGiven [some "page"] "<string>") template read →
            past.plan.SameText afterFirst.plan read) →
          ∃ fresh, ((getTemplate "page" (some false)).run afterFirst).1 = .ok fresh ∧
            t.RendersLike fresh) := by
  have fromCache : (((getTemplate "page" none).run afterFirst).1.toOption.map Loaded.fromCache) =
      some true := by decide +kernel
  cases taken : ((getTemplate "page" none).run afterFirst).1 with
  | error fault =>
      rw [taken] at fromCache
      cases fromCache
  | ok t =>
      rw [taken] at fromCache
      have cached : t.fromCache := Option.some.inj fromCache
      exact ⟨t, rfl, cached,
        served_rendersLike_of_sameText rfl rfl afterFirst_runs taken cached⟩

def afterChange : Engine := afterFirst.after 0 (.load (overTexts "new").env.loader)

/-- The change goes unnoticed: the page is served with the old part. -/
theorem changed_not_answersLike : ¬ ∀ (start e : Engine) (name : String) (t : Loaded),
    start.env.options.usesDisk = false → start.env.memory = [] → Runs Free start e →
      ((getTemplate name none).run e).1 = .ok t → t.fromCache →
      AnswersLike (.ok t) ((getTemplate name (some false)).run e).1 := by
  intro transparent
  have stale : (((getTemplate "page" none).run afterChange).1.toOption.map fun t =>
      (t.fromCache, ((renderLoaded t id).run afterChange).1.toOption)) =
    some (true, some "old") := by decide +kernel
  have fresh : (((getTemplate "page" (some false)).run afterChange).1.toOption.bind
      fun t => ((renderLoaded t id).run afterChange).1.toOption) = some "new" := by
    decide +kernel
  cases taken : ((getTemplate "page" none).run afterChange).1 with
  | error fault =>
      rw [taken] at stale
      cases stale
  | ok t =>
      rw [taken] at stale
      obtain ⟨cached, text⟩ := Prod.mk.inj (Option.some.inj stale)
      have alike := transparent _ afterChange "page" t rfl rfl (.step afterFirst_runs trivial)
        taken cached
      have texts := alike.text_eq id afterChange
      rw [fresh] at texts
      exact absurd (text.symm.trans texts) (by decide)

end Stencil.Engine
