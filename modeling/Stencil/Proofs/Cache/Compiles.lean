import Stencil.Proofs.Cache.Memory
import Stencil.Proofs.Environment.Policies

/-!
What the cache in memory holds at each point of a run, told by the calls before it: for each name
the result of the last call that compiled it for the cache, unless the cache was cleared since.
Calls that fail, that go past the cache, or that miss an include leave nothing behind.
-/

namespace Stencil

/-- The template that an event takes, and whether it asks for the cache by itself. -/
def Event.takes? : Event → Option (String × Option Bool)
  | .take name useCache | .render name _ useCache => some (name, useCache)
  | _ => none

def Event.clears : Event → Bool
  | .clear => true
  | _ => false

theorem Event.clears_of_takes {event : Event} {call : String × Option Bool}
    (takes : event.takes? = some call) : event.clears = false := by
  cases event with
  | clear => cases takes
  | _ => rfl

/-- Whether an include of a source is not found, so that the source is assembled without it. -/
def Plan.PassesOver (p : Plan) (s : Source) : Prop := ((p.assemble s).run {}).2.missing ≠ []

theorem Plan.complete_iff {p : Plan} {s : Source} {a : Assembled}
    (assembled : ((p.assemble s).run {}).1 = .ok a) : a.complete ↔ ¬ p.PassesOver s := by
  have run : (p.assemble s).run {} = (.ok a, ((p.assemble s).run {}).2) := Prod.ext assembled rfl
  obtain ⟨_, _, _, _, _, _, _, complete⟩ := assemble_ok run
  rw [complete, List.isEmpty_iff, PassesOver, ne_eq, Decidable.not_not]

def Loaded.entry (t : Loaded) : MemoryEntry := ⟨t.source, t.code⟩

namespace Engine

variable {e : Engine} {name : String} {useCache : Option Bool} {time : Int} {event : Event}

/-- Whether caching is in force for a call: by its own wish, or else by the option. -/
def caches (e : Engine) (useCache : Option Bool) : Bool :=
  useCache.getD e.env.options.cacheEnabled

/-- Whether no template of an engine belongs to the cache on disk. -/
def Unbacked (e : Engine) : Prop :=
  ∀ name sheet, e.plan.sheet name = .ok sheet → e.cacheKey? sheet.filename = none

def Holds (e : Engine) (name : String) (sheet : Sheet) (code : List Code) : Prop :=
  e.env.memory.lookup name = some ⟨sheet.text, code⟩

/-- What taking a template by name comes to, and what becomes of the engine, as long as no template
belongs to the cache on disk. -/
inductive Takes (e : Engine) (name : String) (useCache : Option Bool) :
    Except Fault Loaded → Engine → Prop
  | refused {fault : Fault} : e.plan.sheet name = .error fault →
      Takes e name useCache (.error fault) e
  | hit {sheet : Sheet} {code : List Code} :
      e.plan.sheet name = .ok sheet → e.caches useCache → e.Holds name sheet code →
      Takes e name useCache (.ok ⟨some name, sheet.filename, sheet.text, code, true, []⟩) e
  | fails {sheet : Sheet} {fault : Fault} {log : List String} :
      e.plan.sheet name = .ok sheet → (e.caches useCache → ∀ code, ¬ e.Holds name sheet code) →
      ((e.plan.assemble ⟨sheet.text, some name, sheet.filename⟩).run {}).1 = .error fault →
      Takes e name useCache (.error fault) { e with log }
  | bypasses {sheet : Sheet} {a : Assembled} {log : List String} :
      e.plan.sheet name = .ok sheet → (e.caches useCache → ∀ code, ¬ e.Holds name sheet code) →
      ((e.plan.assemble ⟨sheet.text, some name, sheet.filename⟩).run {}).1 = .ok a →
      (e.caches useCache && a.complete) = false →
      Takes e name useCache
        (.ok ⟨some name, sheet.filename, sheet.text, a.code, false, a.dependencies⟩) { e with log }
  | stores {sheet : Sheet} {a : Assembled} {log : List String} :
      e.plan.sheet name = .ok sheet → (e.caches useCache → ∀ code, ¬ e.Holds name sheet code) →
      ((e.plan.assemble ⟨sheet.text, some name, sheet.filename⟩).run {}).1 = .ok a →
      (e.caches useCache && a.complete) = true →
      Takes e name useCache
        (.ok ⟨some name, sheet.filename, sheet.text, a.code, false, a.dependencies⟩)
        { e with
          log
          env := { e.env with memory := setNamed name ⟨sheet.text, a.code⟩ e.env.memory } }

theorem cached?_unbacked {sheet : Sheet} (none : e.cacheKey? sheet.filename = none) :
    (cached? name sheet).run e = (.ok ((e.env.memory.lookup name).bind fun m =>
      if m.source = sheet.text then some m.code else .none), e) := by
  rw [cached?, Step.run_bind, Step.run_get]
  simp only [none]
  rfl

theorem lookup_bind_eq_some {sheet : Sheet} {code : List Code} :
    ((e.env.memory.lookup name).bind fun m =>
      if m.source = sheet.text then some m.code else none) = some code ↔
      e.Holds name sheet code := by
  rw [Holds, Option.bind_eq_some_iff]
  constructor
  · rintro ⟨⟨source, code'⟩, found, same⟩
    split at same
    · next text =>
        cases same
        rw [found, ← text]
    · cases same
  · intro found
    exact ⟨_, found, if_pos rfl⟩

theorem afterLookup_takes {sheet : Sheet} (useCache : Option Bool)
    (found : e.plan.sheet name = .ok sheet)
    (none : e.cacheKey? sheet.filename = none)
    (absent : e.caches useCache → ∀ code, ¬ e.Holds name sheet code) :
    Takes e name useCache
      ((afterLookup name sheet (e.caches useCache) .none).run e).1
      ((afterLookup name sheet (e.caches useCache) .none).run e).2 := by
  rw [afterLookup, Step.run_bind, assemble_run]
  cases assembled : ((e.plan.assemble ⟨sheet.text, some name, sheet.filename⟩).run {}).1 with
  | error fault => exact .fails found absent assembled
  | ok a =>
      dsimp only
      cases storing : e.caches useCache && a.complete with
      | false => exact .bypasses found absent assembled storing
      | true =>
          generalize e.log ++ _ = log
          have still : cacheKey? { e with log } sheet.filename = .none := none
          rw [if_pos rfl, remember, Step.run_bind, Step.run_modify]
          dsimp only
          rw [still]
          exact .stores found absent assembled storing

theorem getTemplate_takes (unbacked : e.Unbacked) (name : String) (useCache : Option Bool) :
    Takes e name useCache ((getTemplate name useCache).run e).1
      ((getTemplate name useCache).run e).2 := by
  cases found : e.plan.sheet name with
  | error fault =>
      have run : (getTemplate name useCache).run e = (.error fault, e) := by
        rw [getTemplate, Step.run_bind, Step.run_get]
        simp only [Step.run_bind, found, Step.run_mk_pure]
      rw [run]
      exact .refused found
  | ok sheet =>
      have none := unbacked name sheet found
      have start : (getTemplate name useCache).run e =
          (if e.caches useCache then cached? name sheet >>= afterLookup name sheet true
          else afterLookup name sheet false .none).run e := by
        rw [getTemplate, Step.run_bind, Step.run_get]
        simp only
        rw [Step.run_bind, Step.run_mk_pure, found]
        unfold caches
        cases useCache.getD e.env.options.cacheEnabled <;> rfl
      cases caching : e.caches useCache with
      | false =>
          have taken := afterLookup_takes useCache found none (by simp [caching])
          rw [caching] at taken start
          rwa [start, if_neg (by simp)]
      | true =>
          rw [start, caching, if_pos rfl, Step.run_bind, cached?_unbacked none]
          cases held : (e.env.memory.lookup name).bind fun m =>
            if m.source = sheet.text then some m.code else .none with
          | some code => exact .hit found caching (lookup_bind_eq_some.mp held)
          | none =>
              have taken := afterLookup_takes useCache found none fun _ code holds => by
                rw [lookup_bind_eq_some.mpr holds] at held
                cases held
              rwa [caching] at taken

theorem Takes.of_cached {taken : Except Fault Loaded} {after : Engine} {t : Loaded}
    (takes : Takes e name useCache taken after) (given : taken = .ok t) (cached : t.fromCache) :
    ∃ sheet, e.plan.sheet name = .ok sheet ∧ e.caches useCache ∧ e.Holds name sheet t.code ∧
      after = e := by
  cases takes with
  | hit found caching holds =>
      cases given
      exact ⟨_, found, caching, holds, rfl⟩
  | bypasses | stores =>
      cases given
      cases cached
  | refused | fails => cases given

theorem Takes.cached_of_holds {taken : Except Fault Loaded} {after : Engine} {sheet : Sheet}
    {code : List Code} (takes : Takes e name useCache taken after)
    (found : e.plan.sheet name = .ok sheet) (caching : e.caches useCache)
    (holds : e.Holds name sheet code) : ∃ t, taken = .ok t ∧ t.fromCache := by
  cases takes with
  | refused refused =>
      rw [found] at refused
      cases refused
  | hit => exact ⟨_, rfl, rfl⟩
  | fails found' absent | bypasses found' absent | stores found' absent =>
      rw [found] at found'
      cases found'
      exact (absent caching _ holds).elim

theorem Takes.source_of_fresh {taken : Except Fault Loaded} {after : Engine} {t : Loaded}
    {sheet : Sheet} (takes : Takes e name useCache taken after) (given : taken = .ok t)
    (fresh : t.fromCache = false) (found : e.plan.sheet name = .ok sheet) :
    (⟨t.source, t.name, t.filename⟩ : Source) = ⟨sheet.text, some name, sheet.filename⟩ := by
  cases takes with
  | hit =>
      cases given
      cases fresh
  | bypasses found' | stores found' =>
      rw [found] at found'
      cases found'
      cases given
      rfl
  | refused | fails => cases given

/-! Renders leave the memory alone once they have their templates. -/

def SameMemory (e e' : Engine) : Prop := e'.env.memory = e.env.memory

theorem SameMemory.trans {e e' e'' : Engine} (first : SameMemory e e')
    (second : SameMemory e' e'') : SameMemory e e'' :=
  Eq.trans second first

theorem observe_sameMemory (s : Setting) (e : Engine) (r : Reference) :
    SameMemory e (observe s e r) := by
  rw [observe]
  dsimp only
  split
  · split <;> rfl
  · split <;> rfl

theorem absorb_sameMemory (e : Engine) (s : Setting) (w : World) : SameMemory e (e.absorb s w) := by
  have observed : ∀ (references : List Reference) (m : Engine), SameMemory e m →
      SameMemory e (references.foldl (observe s) m) := by
    intro references
    induction references with
    | nil => exact fun _ same => same
    | cons r rest ih => exact fun m same => ih _ (same.trans (observe_sameMemory s m r))
  exact observed w.references e rfl

theorem renderLoaded_sameMemory (t : Loaded) (fill : Context → Context) :
    Step.Follows SameMemory (renderLoaded t fill) := by
  intro e
  rw [renderLoaded_run]
  exact absorb_sameMemory e _ _

theorem renderNamed_memory (name : String) (vars : List (String × Value)) (useCache : Option Bool)
    (e : Engine) : ((renderNamed name vars useCache).run e).2.env.memory =
      ((getTemplate name useCache).run e).2.env.memory := by
  rw [renderNamed, Step.run_bind]
  generalize (getTemplate name useCache).run e = taken
  obtain ⟨fault | t, m⟩ := taken
  · rfl
  · refine (Step.Follows.bind (R := SameMemory) SameMemory.trans (renderLoaded_sameMemory t _)
      fun written => ?_) m
    exact .bind (R := SameMemory) SameMemory.trans (fun _ => rfl) fun _ =>
      .pure (R := SameMemory) (fun _ => rfl) _

theorem changeFile_memory (c : FileChange) (e : Engine) :
    ((changeFile c).run e).2.env.memory = e.env.memory := by
  rcases changeFile_run c e with same | ⟨files, _, changed⟩
  · rw [same]
  · rw [changed]

/-! Calls that compile for the cache. -/

/-- Whether an event compiles a template under a name for the cache: caching is in force, the
template is made anew, and none of its includes is missing. -/
structure Compiles (e : Engine) (event : Event) (name : String) (t : Loaded) : Prop where
  taken : ∃ useCache, event.takes? = some (name, useCache) ∧ e.caches useCache ∧
    ((getTemplate name useCache).run e).1 = .ok t
  fresh : t.fromCache = false
  complete : ¬ e.plan.PassesOver ⟨t.source, t.name, t.filename⟩

inductive Updates (e : Engine) (event : Event) : List (String × MemoryEntry) → Prop
  | keeps : event.clears = false → (∀ name t, ¬ e.Compiles event name t) →
      Updates e event e.env.memory
  | stores {name : String} {t : Loaded} : e.Compiles event name t →
      Updates e event (setNamed name (t.entry) e.env.memory)
  | clears : event.clears = true → Updates e event []

theorem Compiles.unique {t u : Loaded} {other : String} (compiles : e.Compiles event name t)
    (also : e.Compiles event other u) : other = name ∧ u = t := by
  obtain ⟨⟨useCache, takes, _, taken⟩, _, _⟩ := compiles
  obtain ⟨⟨_, takes', _, taken'⟩, _, _⟩ := also
  rw [takes] at takes'
  cases takes'
  rw [taken] at taken'
  cases taken'
  exact ⟨rfl, rfl⟩

theorem updates_of_takes {taken : Except Fault Loaded} {after : Engine}
    (takes : event.takes? = some (name, useCache))
    (run : ((getTemplate name useCache).run e).1 = taken) (is : Takes e name useCache taken after) :
    Updates e event after.env.memory := by
  have stays := Event.clears_of_takes takes
  have only : ∀ other u, e.Compiles event other u → e.caches useCache ∧ taken = .ok u ∧
      u.fromCache = false ∧ ¬ e.plan.PassesOver ⟨u.source, u.name, u.filename⟩ := by
    rintro other u ⟨⟨_, takes', caching, given⟩, fresh, complete⟩
    rw [takes] at takes'
    cases takes'
    exact ⟨caching, run.symm.trans given, fresh, complete⟩
  cases is with
  | refused _ =>
      refine .keeps stays fun other u compiles => ?_
      cases (only other u compiles).2.1
  | hit _ _ _ =>
      refine .keeps stays fun other u compiles => ?_
      obtain ⟨_, same, fresh, _⟩ := only other u compiles
      cases same
      cases fresh
  | fails _ _ _ =>
      refine .keeps stays fun other u compiles => ?_
      cases (only other u compiles).2.1
  | bypasses _ _ assembled storing =>
      refine .keeps stays fun other u compiles => ?_
      obtain ⟨caching, same, _, complete⟩ := only other u compiles
      cases same
      rw [caching, Bool.true_and] at storing
      rw [(Plan.complete_iff assembled).mpr complete] at storing
      cases storing
  | stores _ _ assembled storing =>
      rw [Bool.and_eq_true] at storing
      exact .stores ⟨⟨useCache, takes, storing.1, run⟩, rfl,
        (Plan.complete_iff assembled).mp storing.2⟩

theorem after_take_memory (e : Engine) (time : Int) (name : String) (useCache : Option Bool) :
    (e.after time (.take name useCache)).env.memory =
      ((getTemplate name useCache).run (e.atTime time)).2.env.memory := by
  rw [after, perform, Step.run_bind]
  generalize (getTemplate name useCache).run (e.atTime time) = taken
  obtain ⟨fault | t, m⟩ := taken <;> rfl

theorem after_render_memory (e : Engine) (time : Int) (name : String)
    (vars : List (String × Value)) (useCache : Option Bool) :
    (e.after time (.render name vars useCache)).env.memory =
      ((getTemplate name useCache).run (e.atTime time)).2.env.memory := by
  rw [← renderNamed_memory name vars, after, perform, Step.run_bind]
  generalize (renderNamed name vars useCache).run (e.atTime time) = rendered
  obtain ⟨fault | t, m⟩ := rendered <;> rfl

theorem after_updates (unbacked : (e.atTime time).Unbacked) (event : Event) :
    Updates (e.atTime time) event (e.after time event).env.memory := by
  have other : event.takes? = none → ∀ name t, ¬ (e.atTime time).Compiles event name t := by
    rintro none name t ⟨⟨_, takes, _⟩, _, _⟩
    rw [none] at takes
    cases takes
  cases event with
  | take name useCache =>
      rw [after_take_memory]
      exact updates_of_takes rfl rfl (getTemplate_takes unbacked name useCache)
  | render name vars useCache =>
      rw [after_render_memory]
      exact updates_of_takes rfl rfl (getTemplate_takes unbacked name useCache)
  | clear => exact .clears rfl
  | change c =>
      rw [after, perform, changeFile_memory]
      exact .keeps rfl (other rfl)
  | enable | limit | load => exact .keeps rfl (other rfl)

/-! Runs with the calls that they consist of. -/

/-- Runs of an engine, with the events on the way and the engines at which they came, the newest
first. -/
inductive Recounts (start : Engine) : List (Engine × Event) → Engine → Prop
  | start : Recounts start [] start
  | step {past : List (Engine × Event)} {e : Engine} (time : Int) (event : Event) :
      Recounts start past e → Recounts start ((e.atTime time, event) :: past) (e.after time event)

/-- Whether a template is the result of the last call that compiled a name for the cache, and the
cache was not cleared since. -/
def LastCompiled (name : String) (past : List (Engine × Event)) (t : Loaded) : Prop :=
  ∃ later e event before, past = later ++ (e, event) :: before ∧ Compiles e event name t ∧
    ∀ step ∈ later, step.2.clears = false ∧ ∀ u, ¬ Compiles step.1 step.2 name u

theorem lastCompiled_cons {past : List (Engine × Event)} {t : Loaded} :
    LastCompiled name ((e, event) :: past) t ↔ Compiles e event name t ∨
      event.clears = false ∧ (∀ u, ¬ Compiles e event name u) ∧ LastCompiled name past t := by
  constructor
  · rintro ⟨later, e', event', before, split, compiles, since⟩
    cases later with
    | nil =>
        cases split
        exact .inl compiles
    | cons step rest =>
        cases split
        rw [List.forall_mem_cons] at since
        exact .inr ⟨since.1.1, since.1.2, rest, e', event', before, rfl, compiles, since.2⟩
  · rintro (compiles | ⟨kept, other, later, e', event', before, rfl, compiles, since⟩)
    · exact ⟨[], e, event, past, rfl, compiles, List.forall_mem_nil _⟩
    · exact ⟨(e, event) :: later, e', event', before, rfl, compiles,
        List.forall_mem_cons.mpr ⟨⟨kept, other⟩, since⟩⟩

theorem Updates.lastCompiled {memory : List (String × MemoryEntry)} {past : List (Engine × Event)}
    (updates : Updates e event memory)
    (told : ∀ name entry, e.env.memory.lookup name = some entry ↔
      ∃ t, LastCompiled name past t ∧ entry = t.entry) (name : String)
    (entry : MemoryEntry) :
    memory.lookup name = some entry ↔
      ∃ t, LastCompiled name ((e, event) :: past) t ∧ entry = t.entry := by
  simp only [lastCompiled_cons]
  cases updates with
  | keeps stays none =>
      rw [told]
      simp only [none name, stays, not_false_eq_true, implies_true, true_and, false_or]
  | clears clearing =>
      simp only [List.lookup_nil, reduceCtorEq, false_iff, not_exists, not_and]
      rintro t (⟨⟨_, takes, _⟩, _, _⟩ | ⟨stays, _⟩)
      · rw [Event.clears_of_takes takes] at clearing
        cases clearing
      · rw [clearing] at stays
        cases stays
  | @stores stored t compiles =>
      rw [lookup_setNamed]
      split
      · next same =>
          subst same
          constructor
          · rintro ⟨rfl⟩
            exact ⟨t, .inl compiles, rfl⟩
          · rintro ⟨u, compiled | ⟨_, none, _⟩, rfl⟩
            · rw [(compiles.unique compiled).2]
            · exact (none t compiles).elim
      · next other =>
          have none : ∀ u, ¬ Compiles e event name u :=
            fun u compiled => other (compiles.unique compiled).1
          have stays := Event.clears_of_takes compiles.taken.choose_spec.1
          rw [told]
          simp only [none, stays, not_false_eq_true, implies_true, true_and, false_or]

theorem Recounts.lastCompiled {start : Engine} {past : List (Engine × Event)}
    (recounts : Recounts start past e) (empty : start.env.memory = [])
    (unbacked : ∀ step ∈ past, step.1.Unbacked) (name : String) (entry : MemoryEntry) :
    e.env.memory.lookup name = some entry ↔
      ∃ t, LastCompiled name past t ∧ entry = t.entry := by
  induction recounts generalizing name entry with
  | start =>
      rw [empty]
      constructor
      · rintro ⟨⟩
      · rintro ⟨_, ⟨later, _, _, _, split, _⟩, _⟩
        simp at split
  | @step past e time event _ ih =>
      rw [List.forall_mem_cons] at unbacked
      exact (after_updates unbacked.1 event).lastCompiled (ih unbacked.2) name entry

/-- A template comes from the cache in memory if caching is in force, and the last call that
compiled its name for the cache, since the cache was cleared, saw the text that the template has
now; the code is the one of that call. A call leaves the memory as it is if it does not come to a
template, goes past the cache, or passes over an include that is missing. A render does to the
memory what taking its template does, however the rendering ends. -/
theorem served_iff_lastCompiled {start : Engine} {past : List (Engine × Event)}
    (recounts : Recounts start past e) (empty : start.env.memory = [])
    (before : ∀ step ∈ past, step.1.Unbacked) (now : e.Unbacked) (name : String)
    (useCache : Option Bool) :
    ((∃ t, ((getTemplate name useCache).run e).1 = .ok t ∧ t.fromCache) ↔
      e.caches useCache ∧ ∃ u sheet, LastCompiled name past u ∧ e.plan.sheet name = .ok sheet ∧
        u.source = sheet.text) ∧
    (∀ t u, ((getTemplate name useCache).run e).1 = .ok t → t.fromCache →
      LastCompiled name past u → t.code = u.code) ∧
    (∀ time event, event.takes? = some (name, useCache) →
      ((∃ fault, ((getTemplate name useCache).run (e.atTime time)).1 = .error fault) ∨
        e.caches useCache = false ∨
        ∃ sheet, e.plan.sheet name = .ok sheet ∧
          e.plan.PassesOver ⟨sheet.text, some name, sheet.filename⟩) →
      (e.after time event).env.memory = e.env.memory) ∧
    ∀ time vars, (e.after time (.render name vars useCache)).env.memory =
      (e.after time (.take name useCache)).env.memory := by
  have told := recounts.lastCompiled empty before name
  have takes := getTemplate_takes now name useCache
  refine ⟨⟨?_, ?_⟩, ?_, ?_, fun time vars => ?_⟩
  · rintro ⟨t, taken, cached⟩
    obtain ⟨sheet, found, caching, holds, _⟩ := takes.of_cached taken cached
    obtain ⟨u, last, same⟩ := (told _).mp holds
    exact ⟨caching, u, sheet, last, found, (congrArg MemoryEntry.source same).symm⟩
  · rintro ⟨caching, u, sheet, last, found, text⟩
    exact takes.cached_of_holds found caching ((told _).mpr ⟨u, last, by rw [Loaded.entry, text]⟩)
  · intro t u taken cached last
    obtain ⟨sheet, _, _, holds, _⟩ := takes.of_cached taken cached
    have entry := (told _).mpr ⟨u, last, rfl⟩
    rw [Holds, entry] at holds
    exact (congrArg MemoryEntry.code (Option.some.inj holds)).symm
  · intro time event asks reason
    have unbacked : (e.atTime time).Unbacked := now
    have updates := after_updates unbacked event
    generalize (e.after time event).env.memory = memory at updates
    cases updates with
    | keeps => rfl
    | clears clearing =>
        rw [Event.clears_of_takes asks] at clearing
        cases clearing
    | @stores stored t compiles =>
        obtain ⟨⟨_, asks', caching, taken⟩, fresh, complete⟩ := compiles
        rw [asks] at asks'
        cases asks'
        rcases reason with ⟨fault, failed⟩ | bypassed | ⟨sheet, found, passesOver⟩
        · rw [taken] at failed
          cases failed
        · exact absurd (bypassed.symm.trans caching) Bool.false_ne_true
        · have is := (getTemplate_takes unbacked name useCache).source_of_fresh taken fresh found
          rw [is] at complete
          exact (complete passesOver).elim
  · rw [after_render_memory, after_take_memory]

theorem unbacked_of_usesDisk (usesDisk : e.env.options.usesDisk = false) : e.Unbacked := by
  intro name sheet _
  cases sheet.filename with
  | none => rfl
  | some file => rw [cacheKey?, usesDisk, Bool.false_and, if_neg Bool.false_ne_true]

theorem compiles_page : ∃ t, Compiles ((overTexts "old").atTime 0) (.take "page" none) "page" t ∧
    t.source = "\x7b% include \"part\" %\x7d" := by
  obtain ⟨t, taken, fresh, complete, text⟩ := Except.exists_of_any
    (x := ((getTemplate "page" none).run ((overTexts "old").atTime 0)).1)
    (P := fun t => t.fromCache = false ∧
      (((overTexts "old").plan.assemble ⟨t.source, t.name, t.filename⟩).run {}).2.missing = [] ∧
      t.source = "\x7b% include \"part\" %\x7d")
    (by decide +kernel)
  exact ⟨t, ⟨⟨none, rfl, rfl, taken⟩, fresh, fun passesOver => passesOver complete⟩, text⟩

/-- The page is served from the cache, though its part has been changed since. -/
theorem served_afterChange :
    (∃ t, ((getTemplate "page" none).run afterChange).1 = .ok t ∧ t.fromCache) ∧
      ∀ vars, (afterChange.after 0 (.render "page" vars none)).env.memory =
        (afterChange.after 0 (.take "page" none)).env.memory := by
  obtain ⟨u, compiles, text⟩ := compiles_page
  let past : List (Engine × Event) :=
    [(afterFirst.atTime 0, .load (overTexts "new").env.loader),
      ((overTexts "old").atTime 0, .take "page" none)]
  have recounts : Recounts (overTexts "old") past afterChange := .step _ _ (.step _ _ .start)
  have usesDisk : afterFirst.env.options.usesDisk = false := (after_proceeds _ _ _).usesDisk
  have before : ∀ step ∈ past, step.1.Unbacked := by
    simp only [past, List.forall_mem_cons, List.not_mem_nil, false_implies, implies_true, and_true]
    exact ⟨unbacked_of_usesDisk usesDisk, unbacked_of_usesDisk rfl⟩
  obtain ⟨served, _, _, renders⟩ := served_iff_lastCompiled recounts rfl before
    (unbacked_of_usesDisk usesDisk) "page" none
  obtain ⟨sheet, found, same⟩ := Except.exists_of_any (x := afterChange.plan.sheet "page")
    (P := fun sheet => sheet.text = "\x7b% include \"part\" %\x7d") (by decide +kernel)
  refine ⟨served.mpr ⟨by decide +kernel, u, sheet, ?_, found, text.trans same.symm⟩, renders 0⟩
  refine ⟨[_], _, _, [], rfl, compiles, ?_⟩
  rintro _ (_ | ⟨_, ⟨⟩⟩)
  refine ⟨rfl, ?_⟩
  rintro t ⟨⟨_, takes, _⟩, _, _⟩
  cases takes

end Engine

end Stencil
