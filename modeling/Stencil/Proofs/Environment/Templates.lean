import Stencil.Environment.Templates
import Stencil.Proofs.Cache.Entries
import Stencil.Proofs.Step

namespace Stencil.Engine

/-- Whether an engine still assembles the same from the same files, at the same time. -/
structure Unmoved (e e' : Engine) : Prop where
  loader : e'.env.loader = e.env.loader
  registries : e'.env.registries = e.env.registries
  limits : e'.env.limits = e.env.limits
  usesDisk : e'.env.options.usesDisk = e.env.options.usesDisk
  files : e'.files = e.files
  now : e'.now = e.now

namespace Unmoved

variable {e e' e'' : Engine}

theorem refl (e : Engine) : Unmoved e e := ⟨rfl, rfl, rfl, rfl, rfl, rfl⟩

theorem trans (first : Unmoved e e') (second : Unmoved e' e'') : Unmoved e e'' :=
  ⟨second.loader.trans first.loader, second.registries.trans first.registries,
    second.limits.trans first.limits, second.usesDisk.trans first.usesDisk,
    second.files.trans first.files, second.now.trans first.now⟩

theorem plan (unmoved : Unmoved e e') : e'.plan = e.plan := by
  rw [Engine.plan, Engine.plan, unmoved.loader, unmoved.registries, unmoved.limits, unmoved.files]

theorem cacheKey? (unmoved : Unmoved e e') (filename : Option String) :
    e'.cacheKey? filename = e.cacheKey? filename := by
  cases filename with
  | none => rfl
  | some file => simp only [Engine.cacheKey?, unmoved.files, unmoved.usesDisk]

end Unmoved

structure Assembles (e : Engine) (name : String) (sheet : Sheet) (a : Assembled) : Prop where
  found : e.plan.sheet name = .ok sheet
  assembled : ∃ trail,
    (e.plan.assemble ⟨sheet.text, some name, sheet.filename⟩).run {} = (.ok a, trail)
  complete : a.complete

theorem Assembles.of_unmoved {e e' : Engine} {name : String} {sheet : Sheet} {a : Assembled}
    (unmoved : Unmoved e e') (assembles : e'.Assembles name sheet a) :
    e.Assembles name sheet a := by
  obtain ⟨found, assembled, complete⟩ := assembles
  rw [unmoved.plan] at found assembled
  exact ⟨found, assembled, complete⟩

def MakesEntry (e : Engine) (key : Path) (entry : CacheEntry (CacheContents (List Code))) : Prop :=
  ∃ name sheet a p, e.Assembles name sheet a ∧ e.cacheKey? sheet.filename = some p ∧
    key = e.files.resolve p ∧
    entry = ⟨e.now, .result (a.dependencies.map e.files.pathOf) a.code⟩

def MakesMemory (e : Engine) (name : String) (entry : MemoryEntry) : Prop :=
  ∃ sheet a, e.Assembles name sheet a ∧ entry = ⟨sheet.text, a.code⟩

/-- Whether an engine became another one at one time: only the caches and what was observed are
different, and what is new in the caches was made now. -/
structure Becomes (e e' : Engine) : Prop where
  unmoved : Unmoved e e'
  disk : ∀ key entry, e'.disk.entries.lookup key = some entry →
    e.disk.entries.lookup key = some entry ∨ e.MakesEntry key entry
  memory : ∀ name entry, e'.env.memory.lookup name = some entry →
    e.env.memory.lookup name = some entry ∨ e.MakesMemory name entry

namespace Becomes

variable {e e' e'' : Engine}

theorem refl (e : Engine) : Becomes e e := ⟨.refl e, fun _ _ => .inl, fun _ _ => .inl⟩

theorem trans (first : Becomes e e') (second : Becomes e' e'') : Becomes e e'' := by
  refine ⟨first.unmoved.trans second.unmoved, fun key entry found => ?_, fun name entry found => ?_⟩
  · rcases second.disk key entry found with old | ⟨name, sheet, a, p, assembles, hp, hkey, hentry⟩
    · exact first.disk key entry old
    · rw [first.unmoved.cacheKey?] at hp
      rw [first.unmoved.files] at hkey hentry
      rw [first.unmoved.now] at hentry
      exact .inr ⟨name, sheet, a, p, assembles.of_unmoved first.unmoved, hp, hkey, hentry⟩
  · rcases second.memory name entry found with old | ⟨sheet, a, assembles, hentry⟩
    · exact first.memory name entry old
    · exact .inr ⟨sheet, a, assembles.of_unmoved first.unmoved, hentry⟩

theorem of_log (e : Engine) (log : List String) : Becomes e { e with log } :=
  ⟨⟨rfl, rfl, rfl, rfl, rfl, rfl⟩, fun _ _ => .inl, fun _ _ => .inl⟩

end Becomes

def fromScratch (e : Engine) (name : String) : Except Fault Loaded := do
  let sheet ← e.plan.sheet name
  let a ← ((e.plan.assemble ⟨sheet.text, some name, sheet.filename⟩).run {}).1
  return ⟨some name, sheet.filename, sheet.text, a.code, false, a.dependencies⟩

theorem cached?_run (name : String) (sheet : Sheet) (e : Engine) :
    ∃ found e', (cached? name sheet).run e = (.ok found, e') ∧ Becomes e e' := by
  rw [cached?, Step.run_bind]
  simp only [Step.run_get]
  cases e.cacheKey? sheet.filename with
  | none => exact ⟨_, _, rfl, .refl e⟩
  | some p =>
      obtain ⟨found, given⟩ := CacheContents.get_ok e.disk e.files e.now p
      refine ⟨found, { e with disk := (e.disk.get (.plain _) e.files e.now p).2 }, ?_,
        ⟨rfl, rfl, rfl, rfl, rfl, rfl⟩, fun _ _ found => ?_, fun _ _ => .inl⟩
      · rw [← given]
        rfl
      · exact .inl (DiskCache.lookup_get found)

theorem cached?_eq_some {name : String} {sheet : Sheet} {e e' : Engine} {code : List Code}
    (given : (cached? name sheet).run e = (.ok (some code), e')) :
    (∃ p, e.cacheKey? sheet.filename = some p ∧ (e.disk.get (.plain _) e.files e.now p).1 = .ok (some code)) ∨
      (e.cacheKey? sheet.filename = none ∧
        e.env.memory.lookup name = some ⟨sheet.text, code⟩) := by
  rw [cached?, Step.run_bind] at given
  simp only [Step.run_get] at given
  cases hkey : e.cacheKey? sheet.filename with
  | some p =>
      rw [hkey] at given
      refine .inl ⟨p, rfl, ?_⟩
      exact congrArg Prod.fst given
  | none =>
      rw [hkey] at given
      refine .inr ⟨rfl, ?_⟩
      have answer := Except.ok.inj (congrArg Prod.fst given)
      obtain ⟨entry, found, same⟩ := Option.bind_eq_some_iff.mp answer
      split at same
      · next text =>
          cases same
          rw [found, ← text]
      · cases same

theorem remember_becomes {e : Engine} {name : String} {sheet : Sheet} {a : Assembled}
    (assembles : e.Assembles name sheet a) : Becomes e ((remember name sheet a).run e).2 := by
  rw [remember, Step.run_modify]
  cases hkey : e.cacheKey? sheet.filename with
  | some p =>
      refine ⟨⟨rfl, rfl, rfl, rfl, rfl, rfl⟩, fun key entry found => ?_, fun _ _ => .inl⟩
      rcases DiskCache.lookup_put found with old | ⟨rfl, rfl⟩
      · exact .inl old
      · exact .inr ⟨name, sheet, a, p, assembles, hkey, rfl, rfl⟩
  | none =>
      refine ⟨⟨rfl, rfl, rfl, rfl, rfl, rfl⟩, fun _ _ => .inl, fun other entry found => ?_⟩
      simp only at found
      rw [lookup_setNamed] at found
      split at found
      · next same =>
          cases found
          subst same
          exact .inr ⟨sheet, a, assembles, rfl⟩
      · exact .inl found

theorem assemble_run (s : Source) (e : Engine) :
    (assemble s).run e = (((e.plan.assemble s).run {}).1,
      { e with
        log := e.log ++ ((e.plan.assemble s).run {}).2.missing.map missingIncludeText }) := by
  rw [assemble, Step.run_bind]
  rfl

def afterLookup (name : String) (sheet : Sheet) (caching : Bool) :
    Option (List Code) → EngineM Loaded
  | some code => return ⟨some name, sheet.filename, sheet.text, code, true, []⟩
  | none => do
      let a ← assemble ⟨sheet.text, some name, sheet.filename⟩
      if caching && a.complete then remember name sheet a
      return ⟨some name, sheet.filename, sheet.text, a.code, false, a.dependencies⟩

theorem getTemplate_run (name : String) (useCache : Option Bool) (e : Engine) :
    (∃ fault, e.plan.sheet name = .error fault ∧
        (getTemplate name useCache).run e = (.error fault, e)) ∨
      ∃ sheet caching found m, e.plan.sheet name = .ok sheet ∧
        (useCache = some false → found = none) ∧
        (found = none ∨ (cached? name sheet).run e = (.ok found, m)) ∧ Becomes e m ∧
        (getTemplate name useCache).run e = (afterLookup name sheet caching found).run m := by
  cases hsheet : e.plan.sheet name with
  | error fault =>
      refine .inl ⟨fault, rfl, ?_⟩
      rw [getTemplate, Step.run_bind, Step.run_get]
      simp only [Step.run_bind, hsheet, Step.run_mk_pure]
  | ok sheet =>
      obtain ⟨found, m, asked, becomes⟩ := cached?_run name sheet e
      have start : (getTemplate name useCache).run e =
          (if useCache.getD e.env.options.cacheEnabled then
            cached? name sheet >>= afterLookup name sheet true
          else afterLookup name sheet false none).run e := by
        rw [getTemplate, Step.run_bind, Step.run_get]
        simp only
        rw [Step.run_bind, Step.run_mk_pure, hsheet]
        cases useCache.getD e.env.options.cacheEnabled <;> rfl
      cases hcaching : useCache.getD e.env.options.cacheEnabled with
      | false =>
          rw [hcaching] at start
          exact .inr ⟨sheet, false, none, e, rfl, fun _ => rfl, .inl rfl, .refl e, start⟩
      | true =>
          rw [hcaching, if_pos rfl, Step.run_bind, asked] at start
          refine .inr ⟨sheet, true, found, m, rfl, ?_, .inr asked, becomes, start⟩
          rintro rfl
          cases hcaching

theorem afterLookup_becomes {e m : Engine} {name : String} {sheet : Sheet} {caching : Bool}
    {found : Option (List Code)} (hsheet : e.plan.sheet name = .ok sheet) (becomes : Becomes e m) :
    Becomes e ((afterLookup name sheet caching found).run m).2 := by
  cases found with
  | some code => exact becomes
  | none =>
      rw [afterLookup, Step.run_bind, assemble_run, becomes.unmoved.plan]
      cases hrun : (e.plan.assemble ⟨sheet.text, some name, sheet.filename⟩).run {} with
      | mk r trail =>
          have logged := becomes.trans (.of_log m (m.log ++ trail.missing.map missingIncludeText))
          cases r with
          | error fault => exact logged
          | ok a =>
              simp only
              split
              · next cacheable =>
                  rw [Bool.and_eq_true] at cacheable
                  rw [Step.run_bind]
                  refine logged.trans (remember_becomes ⟨?_, ⟨trail, ?_⟩, cacheable.2⟩)
                  · rw [logged.unmoved.plan, hsheet]
                  · rw [logged.unmoved.plan, hrun]
              · exact logged

theorem getTemplate_becomes (name : String) (useCache : Option Bool) :
    Step.Follows Becomes (getTemplate name useCache) := by
  intro e
  rcases getTemplate_run name useCache e with ⟨_, _, run⟩ | ⟨_, _, _, _, hsheet, _, _, becomes, run⟩
  · rw [run]
    exact .refl e
  · rw [run]
    exact afterLookup_becomes hsheet becomes

theorem afterLookup_none {e m : Engine} {name : String} {sheet : Sheet} {caching : Bool}
    (hsheet : e.plan.sheet name = .ok sheet) (becomes : Becomes e m) :
    ((afterLookup name sheet caching none).run m).1 = e.fromScratch name := by
  rw [afterLookup, Step.run_bind, assemble_run, becomes.unmoved.plan]
  simp only [fromScratch, hsheet, bind, Except.bind]
  cases (e.plan.assemble ⟨sheet.text, some name, sheet.filename⟩).run {} with
  | mk r trail =>
      cases r with
      | error fault => rfl
      | ok a =>
          simp only
          split <;> rfl

theorem getTemplate_result (name : String) (useCache : Option Bool) (e : Engine) :
    ((getTemplate name useCache).run e).1 = e.fromScratch name ∨
      ∃ sheet code e', e.plan.sheet name = .ok sheet ∧
        (cached? name sheet).run e = (.ok (some code), e') ∧
        ((getTemplate name useCache).run e).1 =
          .ok ⟨some name, sheet.filename, sheet.text, code, true, []⟩ := by
  rcases getTemplate_run name useCache e with
    ⟨fault, hsheet, run⟩ | ⟨sheet, _, found, m, hsheet, _, asked, becomes, run⟩
  · refine .inl ?_
    rw [run, fromScratch, hsheet]
    rfl
  · rw [run]
    cases found with
    | none => exact .inl (afterLookup_none hsheet becomes)
    | some code =>
        rcases asked with impossible | asked
        · cases impossible
        · exact .inr ⟨sheet, code, m, hsheet, asked, rfl⟩

theorem getTemplate_uncached (name : String) (e : Engine) :
    ((getTemplate name (some false)).run e).1 = e.fromScratch name := by
  rcases getTemplate_run name (some false) e with
    ⟨fault, hsheet, run⟩ | ⟨sheet, _, found, m, hsheet, uncached, _, becomes, run⟩
  · rw [run, fromScratch, hsheet]
    rfl
  · rw [run, uncached rfl]
    exact afterLookup_none hsheet becomes

theorem fromScratch_ok {e : Engine} {name : String} {t : Loaded}
    (given : e.fromScratch name = .ok t) :
    ∃ sheet a trail, e.plan.sheet name = .ok sheet ∧
      (e.plan.assemble ⟨sheet.text, some name, sheet.filename⟩).run {} = (.ok a, trail) ∧
      t = ⟨some name, sheet.filename, sheet.text, a.code, false, a.dependencies⟩ := by
  obtain ⟨sheet, hsheet, rest⟩ := Except.bind_ok given
  obtain ⟨a, assembled, same⟩ := Except.bind_ok rest
  cases same
  exact ⟨sheet, a, _, hsheet, Prod.ext assembled rfl, rfl⟩

theorem fromScratch_of_assemble {e : Engine} {name : String} {sheet : Sheet} {a : Assembled}
    {trail : Trail} (hsheet : e.plan.sheet name = .ok sheet)
    (assembled : (e.plan.assemble ⟨sheet.text, some name, sheet.filename⟩).run {} =
      (.ok a, trail)) :
    e.fromScratch name =
      .ok ⟨some name, sheet.filename, sheet.text, a.code, false, a.dependencies⟩ := by
  simp only [fromScratch, hsheet, bind, Except.bind, assembled]
  rfl

end Stencil.Engine
