import Stencil.Proofs.Assembly.Transfer
import Stencil.Proofs.Environment.Runs
import Stencil.Proofs.Library.Directories

namespace Stencil

def Plan.LeadsTo (p : Plan) (name file : String) : Prop :=
  ∃ sheet, p.library.read name = .ok sheet ∧ sheet.filename = some file

namespace Engine

/-- The rule of runs in which the loader stays, time goes on, and each change writes or deletes a
file and stamps its time. -/
structure Stamped (now time : Int) (event : Event) : Prop where
  later : now < time
  keeps : ∀ loader, event ≠ .load loader
  stamps : ∀ c, event = .change c → c.Stamps

/-- An engine with an empty cache on disk for templates that are all in directories. -/
structure CachesFiles (e : Engine) : Prop where
  loader : ∃ l, e.env.loader = some l ∧ l.SearchesFiles
  links : e.files.LinksProper
  usesDisk : e.env.options.usesDisk
  empty : e.disk.entries = []

/-- An engine that made an entry which is still there, and from whose files all that is old is. -/
structure Made (start past e : Engine) (key : Path) (entry : CacheEntry (CacheContents (List Code))) : Prop where
  before : Runs Stamped start past
  since : Runs Stamped past e
  made : (past.atTime entry.written).MakesEntry key entry
  kept : FileTree.Kept entry.written past.files e.files

/-- What a run keeps: what is assembled depends on the files only, and each entry was made by an
earlier step. -/
structure Traced (start e : Engine) : Prop where
  loader : e.env.loader = start.env.loader
  registries : e.env.registries = start.env.registries
  limits : e.env.limits = start.env.limits
  usesDisk : e.env.options.usesDisk = start.env.options.usesDisk
  files : FileTree.Kept start.now start.files e.files
  onward : start.now ≤ e.now
  entries : ∀ key entry, e.disk.entries.lookup key = some entry →
    entry.written ≤ e.now ∧ ∃ past, Made start past e key entry

theorem after_stamped {e : Engine} {time : Int} {event : Event}
    (allowed : Stamped e.now time event) :
    (e.after time event).env.loader = e.env.loader ∧
      ∀ written < time, FileTree.Kept written e.files (e.after time event).files := by
  obtain ⟨_, keeps, stamps⟩ := allowed
  cases event with
  | load loader => exact (keeps loader rfl).elim
  | change c =>
      rcases changeFile_run c (e.atTime time) with same | ⟨files, applied, changed⟩
      · rw [after, perform, same]
        exact ⟨rfl, fun written _ => .refl written e.files⟩
      · rw [after, perform, changed]
        exact ⟨rfl, fun written later => (stamps c rfl).kept later applied⟩
  | take name useCache =>
      have unmoved := (take_becomes e time name useCache).unmoved
      exact ⟨unmoved.loader, fun written _ => .of_same written unmoved.files⟩
  | render name vars useCache =>
      have unmoved := (render_becomes e time name vars useCache).unmoved
      exact ⟨unmoved.loader, fun written _ => .of_same written unmoved.files⟩
  | enable enabled => exact ⟨rfl, fun written _ => .refl written e.files⟩
  | limit lifetime => exact ⟨rfl, fun written _ => .refl written e.files⟩
  | clear => exact ⟨rfl, fun written _ => .refl written e.files⟩

theorem Runs.traced {start e : Engine} (runs : Runs Stamped start e)
    (empty : start.disk.entries = []) : Traced start e := by
  induction runs with
  | start =>
      refine ⟨rfl, rfl, rfl, rfl, .refl _ _, Int.le_refl _, fun key entry found => ?_⟩
      rw [empty] at found
      cases found
  | @step e time event runs allowed ih =>
      obtain ⟨loader, kept⟩ := after_stamped allowed
      have later := allowed.later
      have proceeds := after_proceeds e time event
      refine ⟨loader.trans ih.loader, proceeds.registries.trans ih.registries,
        proceeds.limits.trans ih.limits, proceeds.usesDisk.trans ih.usesDisk, ?_, ?_, ?_⟩
      · exact ih.files.trans (kept start.now (by have := ih.onward; omega))
      · have := ih.onward
        have := proceeds.now
        omega
      · intro key entry found
        rw [proceeds.now]
        rcases proceeds.disk key entry found with old | ⟨made, sameFiles⟩
        · obtain ⟨written, past, before, since, made, keptSince⟩ := ih.entries key entry old
          refine ⟨by omega, past, before, .step since allowed, made, ?_⟩
          exact keptSince.trans (kept entry.written (by omega))
        · -- The entry is made by this step, and bears its time.
          have written : entry.written = time := by
            obtain ⟨_, _, _, _, _, _, _, rfl⟩ := made
            rfl
          refine ⟨by omega, e, runs, .step .start allowed, written ▸ made, ?_⟩
          rw [sameFiles]
          exact .refl _ _

theorem plan_read {e : Engine} {l : Loader} (loader : e.env.loader = some l) (name : String) :
    e.plan.library.read name = l.read e.files name := by
  rw [plan, loader]
  rfl

theorem sheet_foundAt {e : Engine} {l : Loader} (loader : e.env.loader = some l)
    (searches : l.SearchesFiles) (links : e.files.LinksProper) {name : String} {sheet : Sheet}
    (given : e.plan.library.read name = .ok sheet) :
    name ≠ "" ∧ ∃ p, FoundAt e.files p sheet := by
  rw [plan_read loader] at given
  exact searches.read_ok links l given

theorem cacheKey?_foundAt {e : Engine} (usesDisk : e.env.options.usesDisk) {p : Path}
    {sheet : Sheet} (found : FoundAt e.files p sheet) : e.cacheKey? sheet.filename = some p := by
  rw [found.filename, cacheKey?]
  simp only [found.pathOf, usesDisk, found.isFile, Bool.and_self, if_true]

/-- A template that was served from the cache on disk, with where it came from: nothing that was
read there has changed. -/
structure Served (start e : Engine) (name : String) (t : Loaded) (past : Engine) (prior : String)
    (template : Template) : Prop extends Origin Stamped start e t past prior template where
  unchanged : ∀ read sheet p, past.plan.Reads prior template read →
    past.plan.library.read read = .ok sheet → FoundAt past.files p sheet →
      e.files.node? p = past.files.node? p
  fresh : (∀ read file, past.plan.Reads prior template read → past.plan.LeadsTo read file →
      e.plan.LeadsTo read file) →
    ∃ fresh, e.fromScratch name = .ok fresh ∧ t.RendersLike fresh

theorem Traced.shares {start past e : Engine} (then_ : Traced start past) (now : Traced start e) :
    Plan.Shares past.plan e.plan :=
  ⟨now.registries.trans then_.registries.symm, now.limits.trans then_.limits.symm⟩

theorem Traced.foundAt {start e : Engine} (traced : Traced start e) (caches : CachesFiles start)
    {name : String} {sheet : Sheet} (given : e.plan.library.read name = .ok sheet) :
    name ≠ "" ∧ ∃ p, FoundAt e.files p sheet := by
  obtain ⟨l, loader, searches⟩ := caches.loader
  exact sheet_foundAt (traced.loader.trans loader) searches (traced.files.linksProper caches.links)
    given

section Made

variable {start past e : Engine} {key : Path} {entry : CacheEntry (CacheContents (List Code))} {prior : String}
  {sheet : Sheet} {a : Assembled} {template : Template}

theorem Made.unchanged (made : Made start past e key entry)
    (assembles : past.Assembles prior sheet a)
    (hparse : past.plan.parse ⟨sheet.text, some prior, sheet.filename⟩ = .ok template)
    (named : prior ≠ "")
    (settled : ∀ q ∈ a.dependencies.map past.files.pathOf,
      (e.files.changed? q).any (· ≤ entry.written))
    {read : String} {other : Sheet} {p : Path} (reads : past.plan.Reads prior template read)
    (given : past.plan.library.read read = .ok other) (found : FoundAt past.files p other) :
    e.files.node? p = past.files.node? p := by
  obtain ⟨trail, assembled⟩ := assembles.assembled
  have reads : past.plan.Reads (firstGiven [some prior] "<string>") template read := by
    rwa [Plan.firstGiven_some named]
  obtain ⟨target, htarget, listed⟩ := reads.found_of_assemble assembled assembles.complete hparse
  obtain ⟨other', hother, _, filename⟩ := Plan.found_ok htarget
  rw [(Plan.sheet_ok.mp hother).1] at given
  cases given
  refine made.kept.node?_of_settled found.straight
    (settled p (List.mem_map.mpr ⟨_, listed ?_, found.pathOf⟩))
  simp [Chain.addedFiles, filename, found.filename, found.filename_ne_empty]

theorem sameText_of_unchanged (caches : CachesFiles start) (tracedPast : Traced start past)
    (traced : Traced start e) (root : e.files.root = past.files.root) {read : String}
    (unchanged : ∀ other p, past.plan.library.read read = .ok other → FoundAt past.files p other →
      e.files.node? p = past.files.node? p)
    (leads : ∀ file, past.plan.LeadsTo read file → e.plan.LeadsTo read file) :
    Plan.SameText past.plan e.plan read := by
  intro other hother
  obtain ⟨given, small⟩ := Plan.sheet_ok.mp hother
  obtain ⟨_, p, found⟩ := tracedPast.foundAt caches given
  obtain ⟨now, givenNow, filenameNow⟩ := leads _ ⟨other, given, found.filename⟩
  obtain ⟨_, p', foundNow⟩ := traced.foundAt caches givenNow
  have same : now = other :=
    found.unique foundNow root (filenameNow.trans found.filename.symm)
      (unchanged other p given found)
  subst same
  have limits := (tracedPast.shares traced).limits
  exact ⟨now, Plan.sheet_ok.mpr ⟨givenNow, by rwa [limits]⟩, rfl⟩

end Made

theorem Made.served {start past e : Engine} {here : Path} {entry : CacheEntry (CacheContents (List Code))}
    (caches : CachesFiles start) (made : Made start past e here entry) {name : String}
    {sheet : Sheet}
    {code : List Code} {others : List Path} (hsheet : e.plan.sheet name = .ok sheet)
    (found : FoundAt e.files here sheet) (named : name ≠ "")
    (contents : entry.contents = .result others code)
    (settled : ∀ q ∈ here :: others, (e.files.changed? q).any (· ≤ entry.written)) :
    ∃ prior template,
      Served start e name ⟨some name, sheet.filename, sheet.text, code, true, []⟩ past prior
        template := by
  have traced := (made.before.trans made.since).traced caches.empty
  have tracedPast := made.before.traced caches.empty
  have shares := tracedPast.shares traced
  obtain ⟨prior, old, a, p, assembles, hp, hkey, hentry⟩ := made.made
  have assembles : past.Assembles prior old a :=
    ⟨assembles.found, assembles.assembled, assembles.complete⟩
  obtain ⟨namedPrior, there, foundThere⟩ :=
    tracedPast.foundAt caches (Plan.sheet_ok.mp assembles.found).1
  have keyThere : past.cacheKey? old.filename = some there :=
    cacheKey?_foundAt (tracedPast.usesDisk.trans caches.usesDisk) foundThere
  have hp : past.cacheKey? old.filename = some p := hp
  rw [keyThere] at hp
  cases hp
  have hkey : here = past.files.resolve p := hkey
  rw [FileTree.resolve_of_straight foundThere.straight] at hkey
  subst hkey
  have ownUnchanged : e.files.node? here = past.files.node? here :=
    made.kept.node?_of_settled foundThere.straight (settled here List.mem_cons_self)
  have sameSheet : sheet = old := by
    refine foundThere.unique found made.kept.root ?_ ownUnchanged
    rw [found.filename, foundThere.filename, made.kept.root]
  subst sameSheet
  rw [hentry] at contents
  cases contents
  obtain ⟨trail, assembled⟩ := assembles.assembled
  obtain ⟨template, _, hparse, _⟩ := Plan.assemble_ok assembled
  have unchanged : ∀ read other p, past.plan.Reads prior template read →
      past.plan.library.read read = .ok other → FoundAt past.files p other →
        e.files.node? p = past.files.node? p := fun _ _ _ =>
    made.unchanged assembles hparse namedPrior fun q member =>
      settled q (List.mem_cons_of_mem _ member)
  refine ⟨prior, template, ⟨made.before, made.since,
    ⟨_, fromScratch_of_assemble assembles.found assembled, rfl, rfl⟩, ⟨_, hparse⟩⟩, unchanged, ?_⟩
  intro leads
  have same : ∀ read, past.plan.Reads (firstGiven [some prior] "<string>") template read →
      Plan.SameText past.plan e.plan read := by
    intro read reads
    rw [Plan.firstGiven_some namedPrior] at reads
    exact sameText_of_unchanged caches tracedPast traced made.kept.root
      (fun other p given found => unchanged read other p reads given found)
      fun file leadsThen => leads read file reads leadsThen
  obtain ⟨flat, unfolded⟩ := Plan.Unfolded.of_assemble assembled assembles.complete hparse
  have unfoldedNow : e.plan.Unfolded ⟨sheet.text, some prior, sheet.filename⟩ template flat :=
    unfolded.carries shares rfl rfl same
  have renamed : e.plan.Unfolded ⟨sheet.text, some name, sheet.filename⟩ template flat :=
    unfoldedNow.renamed rfl rfl namedPrior named rfl hsheet rfl
  obtain ⟨a', trail', assembledNow, sameCode⟩ := unfolded.assemble shares assembled renamed same
  exact ⟨_, fromScratch_of_assemble hsheet assembledNow,
    Loaded.rendersLike_of_same rfl rfl rfl sameCode⟩

/-- What is served from the cache on disk was assembled at an earlier point of the run. -/
theorem served_from_disk {start e : Engine} (caches : CachesFiles start)
    (runs : Runs Stamped start e) {time : Int} {name : String} {useCache : Option Bool} {t : Loaded}
    (taken : ((getTemplate name useCache).run (e.atTime time)).1 = .ok t)
    (cached : t.fromCache) : ∃ past prior template, Served start e name t past prior template := by
  have traced := runs.traced caches.empty
  rcases getTemplate_result name useCache (e.atTime time) with
    scratch | ⟨sheet, code, e', hsheet, asked, given⟩
  · rw [scratch] at taken
    obtain ⟨_, _, _, _, _, rfl⟩ := fromScratch_ok taken
    cases cached
  · rw [given] at taken
    cases taken
    have hsheet : e.plan.sheet name = .ok sheet := hsheet
    obtain ⟨named, here, found⟩ := traced.foundAt caches (Plan.sheet_ok.mp hsheet).1
    have key : (e.atTime time).cacheKey? sheet.filename = some here :=
      cacheKey?_foundAt (traced.usesDisk.trans caches.usesDisk) found
    rcases cached?_eq_some asked with ⟨p, hp, hit⟩ | ⟨none, _⟩
    · rw [key] at hp
      cases hp
      obtain ⟨entry, others, stored, contents, settled⟩ := CacheContents.get_eq_some hit
      have resolved : (e.atTime time).files.resolve here = here :=
        FileTree.resolve_of_straight found.straight
      rw [resolved] at stored
      obtain ⟨_, past, made⟩ := traced.entries here entry stored
      obtain ⟨prior, template, served⟩ :=
        made.served caches hsheet found named contents settled
      exact ⟨past, prior, template, served⟩
    · rw [key] at none
      cases none

end Engine

end Stencil
