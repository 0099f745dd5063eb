import Stencil.Proofs.Cache.Freshness

/-!
The cache on disk cannot be seen in one directory without links. With several directories, a new
file that stands before one that was read is not noticed; apart from that, it cannot be seen
either.
-/

namespace Stencil

namespace Engine

section OneDirectory

variable {start e : Engine} {directory : String}

theorem Served.leadsTo {name prior : String} {t : Loaded} {past : Engine} {template : Template}
    (served : Served start e name t past prior template)
    (loader : start.env.loader = some (.directories [Path.ofText directory]))
    (empty : start.disk.entries = []) (unlinked : start.files.Unlinked) {read file : String}
    (reads : past.plan.Reads prior template read) (leads : past.plan.LeadsTo read file) :
    e.plan.LeadsTo read file := by
  have tracedPast := served.before.traced empty
  have traced := (served.before.trans served.since).traced empty
  obtain ⟨sheet, given, filename⟩ := leads
  have root : e.files.root = past.files.root := traced.files.root.trans tracedPast.files.root.symm
  refine ⟨sheet, ?_, filename⟩
  have unchanged := fun p found => served.unchanged read sheet p reads given found
  rw [plan_read (tracedPast.loader.trans loader)] at given
  rw [plan_read (traced.loader.trans loader)]
  exact Loader.read_unlinked (tracedPast.files.unlinked unlinked)
    (traced.files.unlinked unlinked) root
    (Path.ofText_proper directory) given unchanged

/-- At each point of a run, a template is taken with the same answer as one that is assembled from
the files as they are, whatever the caches hold. -/
theorem getTemplate_answersLike_uncached
    (loader : start.env.loader = some (.directories [Path.ofText directory]))
    (usesDisk : start.env.options.usesDisk) (empty : start.disk.entries = [])
    (unlinked : start.files.Unlinked) (runs : Runs Stamped start e) (time : Int) (name : String)
    (useCache : Option Bool) :
    AnswersLike ((getTemplate name useCache).run (e.atTime time)).1
      ((getTemplate name (some false)).run (e.atTime time)).1 := by
  have caches : CachesFiles start := by
    refine ⟨⟨_, loader, .directories ?_⟩, unlinked.linksProper, usesDisk, empty⟩
    intro root member
    rw [List.mem_singleton.mp member]
    exact Path.ofText_proper directory
  rw [getTemplate_uncached]
  cases taken : ((getTemplate name useCache).run (e.atTime time)).1 with
  | error fault =>
      rcases getTemplate_result name useCache (e.atTime time) with scratch | ⟨_, _, _, _, _, given⟩
      · rw [← scratch, taken]
        exact .refl _
      · rw [given] at taken
        cases taken
  | ok t =>
      cases cached : t.fromCache with
      | false =>
          rcases getTemplate_result name useCache (e.atTime time) with
            scratch | ⟨_, _, _, _, _, given⟩
          · rw [← scratch, taken]
            exact .refl _
          · rw [given] at taken
            cases taken
            cases cached
      | true =>
          obtain ⟨past, prior, template, served⟩ := served_from_disk caches runs taken cached
          obtain ⟨fresh, scratch, alike⟩ := served.fresh fun read file reads leads =>
            served.leadsTo loader empty unlinked reads leads
          rw [show (e.atTime time).fromScratch name = .ok fresh from scratch]
          exact alike

end OneDirectory

def overFiles (directories : List String) : Engine where
  env := {
    options := { usesDisk := true }
    loader := some (.directories (directories.map Path.ofText)) }
  host := .bare
  files := ⟨"/srv", [(["base"], .directory 0),
    (["base", "page"], .file (.ofText "\x7b% include \"part\" %\x7d") 0),
    (["base", "part"], .file (.ofText "old") 0)]⟩

def afterOverwrite : Engine :=
  (((overFiles ["base"]).after 1 (.take "page" none)).after 2
    (.change (.write ["base", "part"] (.ofText "new") 0))).after 3 (.take "page" none)

theorem overFiles_unlinked (directories : List String) :
    (overFiles directories).files.Unlinked := by
  intro p target isLink
  cases p with
  | nil => cases isLink
  | cons part rest =>
      obtain ⟨before, after, split, _⟩ := List.lookup_eq_some_iff.mp isLink
      have member : (part :: rest, FileNode.link target) ∈ (overFiles directories).files.nodes := by
        rw [split]
        simp
      simp [overFiles] at member

theorem afterOverwrite_runs : Runs Stamped (overFiles ["base"]) afterOverwrite := by
  refine .step (.step (.step .start ⟨by decide, ?_, ?_⟩) ⟨by decide +kernel, ?_, ?_⟩)
    ⟨by decide +kernel, ?_, ?_⟩
  · exact fun _ impossible => nomatch impossible
  · exact fun _ impossible => nomatch impossible
  · exact fun _ impossible => nomatch impossible
  · rintro c same
    cases same
    exact .write _ _
  · exact fun _ impossible => nomatch impossible
  · exact fun _ impossible => nomatch impossible

theorem afterOverwrite_answersLike :
    (((getTemplate "page" none).run (afterOverwrite.atTime 4)).1.toOption.map Loaded.fromCache) =
        some true ∧
      AnswersLike ((getTemplate "page" none).run (afterOverwrite.atTime 4)).1
        ((getTemplate "page" (some false)).run (afterOverwrite.atTime 4)).1 :=
  have loader : (overFiles ["base"]).env.loader = some (.directories [Path.ofText "base"]) := rfl
  ⟨by decide +kernel, getTemplate_answersLike_uncached loader rfl rfl (overFiles_unlinked _)
    afterOverwrite_runs 4 "page" none⟩

/-! Several directories. -/

/-- Over any directories, a template that is served from the cache was assembled from its source
at an earlier point of the run. It renders like one that is assembled now if the names that were
read then lead to the same files still. -/
theorem served_rendersLike_of_leadsTo {start e : Engine} (caches : CachesFiles start)
    (runs : Runs Stamped start e) {time : Int} {name : String} {useCache : Option Bool} {t : Loaded}
    (taken : ((getTemplate name useCache).run (e.atTime time)).1 = .ok t) (cached : t.fromCache) :
    ∃ past prior template, Origin Stamped start e t past prior template ∧
      ((∀ read file, past.plan.Reads prior template read → past.plan.LeadsTo read file →
          e.plan.LeadsTo read file) →
        ∃ fresh, ((getTemplate name (some false)).run (e.atTime time)).1 = .ok fresh ∧
          t.RendersLike fresh) := by
  obtain ⟨past, prior, template, served⟩ := served_from_disk caches runs taken cached
  refine ⟨past, prior, template, served.toOrigin, fun leads => ?_⟩
  obtain ⟨fresh, scratch, alike⟩ := served.fresh leads
  refine ⟨fresh, ?_, alike⟩
  rw [getTemplate_uncached]
  exact scratch

theorem overFiles_cachesFiles (directories : List String) :
    CachesFiles (overFiles directories) := by
  refine ⟨⟨_, rfl, .directories ?_⟩, (overFiles_unlinked _).linksProper, rfl, rfl⟩
  intro root member
  obtain ⟨directory, _, rfl⟩ := List.mem_map.mp member
  exact Path.ofText_proper directory

def afterTake : Engine := (overFiles ["theme", "base"]).after 1 (.take "page" none)

theorem afterTake_runs : Runs Stamped (overFiles ["theme", "base"]) afterTake := by
  refine .step .start ⟨by decide, ?_, ?_⟩
  · exact fun _ impossible => nomatch impossible
  · exact fun _ impossible => nomatch impossible

theorem served_rendersLike_afterTake : ∃ t,
    ((getTemplate "page" none).run (afterTake.atTime 2)).1 = .ok t ∧ t.fromCache ∧
      ∃ past prior template,
        Origin Stamped (overFiles ["theme", "base"]) afterTake t past prior template ∧
        ((∀ read file, past.plan.Reads prior template read → past.plan.LeadsTo read file →
            afterTake.plan.LeadsTo read file) →
          ∃ fresh, ((getTemplate "page" (some false)).run (afterTake.atTime 2)).1 = .ok fresh ∧
            t.RendersLike fresh) := by
  have fromCache : (((getTemplate "page" none).run (afterTake.atTime 2)).1.toOption.map
      Loaded.fromCache) = some true := by decide +kernel
  cases taken : ((getTemplate "page" none).run (afterTake.atTime 2)).1 with
  | error fault =>
      rw [taken] at fromCache
      cases fromCache
  | ok t =>
      rw [taken] at fromCache
      have cached : t.fromCache := Option.some.inj fromCache
      exact ⟨t, rfl, cached, served_rendersLike_of_leadsTo (overFiles_cachesFiles _) afterTake_runs
        taken cached⟩

/-- The engine after a part was created in the first directory, which is searched before the one
that the page took its part from. -/
def afterShadowing : Engine :=
  afterTake.after 2 (.change (.write ["theme", "part"] (.ofText "new") 0))

theorem afterShadowing_runs : Runs Stamped (overFiles ["theme", "base"]) afterShadowing := by
  refine .step afterTake_runs ⟨by decide +kernel, ?_, ?_⟩
  · exact fun _ impossible => nomatch impossible
  · rintro c same
    cases same
    exact .write _ _

/-- The new part goes unnoticed: the page is served with the old one. -/
theorem shadowed_not_answersLike : ¬ ∀ (start e : Engine) (time : Int) (name : String) (t : Loaded),
    CachesFiles start → Runs Stamped start e →
      ((getTemplate name none).run (e.atTime time)).1 = .ok t → t.fromCache →
      AnswersLike (.ok t) ((getTemplate name (some false)).run (e.atTime time)).1 := by
  intro transparent
  have stale : (((getTemplate "page" none).run (afterShadowing.atTime 3)).1.toOption.map fun t =>
      (t.fromCache, ((renderLoaded t id).run afterShadowing).1.toOption)) =
    some (true, some "old") := by decide +kernel
  have fresh : (((getTemplate "page" (some false)).run (afterShadowing.atTime 3)).1.toOption.bind
      fun t => ((renderLoaded t id).run afterShadowing).1.toOption) = some "new" := by
    decide +kernel
  cases taken : ((getTemplate "page" none).run (afterShadowing.atTime 3)).1 with
  | error fault =>
      rw [taken] at stale
      cases stale
  | ok t =>
      rw [taken] at stale
      obtain ⟨cached, text⟩ := Prod.mk.inj (Option.some.inj stale)
      have alike := transparent _ afterShadowing 3 "page" t (overFiles_cachesFiles _)
        afterShadowing_runs taken cached
      have texts := alike.text_eq id afterShadowing
      rw [fresh] at texts
      exact absurd (text.symm.trans texts) (by decide)

end Engine

end Stencil
