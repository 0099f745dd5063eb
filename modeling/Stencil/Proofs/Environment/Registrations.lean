import Stencil.Host.Kit
import Stencil.Proofs.Environment.Accepted
import Stencil.Proofs.Environment.Policies
import Stencil.Proofs.Render.Resolved

/-!
The names in templates. A template is only compiled if everything that it names is registered, and a
registered name stays registered whatever an engine does, so no render refuses a name.
-/

namespace Stencil

namespace Registries

variable {r r' r'' : Registries}

/-- Whether all names that are registered in one place are registered in another one. -/
def Within (r r' : Registries) : Prop := ∀ t name, r.Knows t name → r'.Knows t name

theorem Within.refl (r : Registries) : r.Within r := fun _ _ known => known

theorem Within.trans (first : r.Within r') (second : r'.Within r'') : r.Within r'' :=
  fun t name known => second t name (first t name known)

theorem table_withTable (r : Registries) (t other : Table) (entries : Registry) :
    (r.withTable t entries).table other = if other = t then entries else r.table other := by
  cases t <;> cases other <;> rfl

theorem isSome_lookup_setNamed {α : Type} {name other : String} {a : α}
    {entries : List (String × α)} (known : (entries.lookup other).isSome = true) :
    ((setNamed name a entries).lookup other).isSome = true := by
  rw [lookup_setNamed]
  split
  · rfl
  · exact known

theorem within_withTable {t : Table} {entries : Registry}
    (more : ∀ name, ((r.table t).lookup name).isSome = true → (entries.lookup name).isSome = true) :
    r.Within (r.withTable t entries) := by
  intro other name known
  unfold Knows
  rw [table_withTable]
  split
  · next same => exact more name (same ▸ known)
  · exact known

theorem register_within {t : Table} {name : String} {v : Value}
    (given : r.register t name v = .ok r') : r.Within r' := by
  unfold register at given
  split at given
  · cases given
    exact within_withTable fun _ known => isSome_lookup_setNamed known
  · cases given

theorem registerAll_within {t : Table} {entries : List (String × Value)}
    (given : r.registerAll t entries = .ok r') : r.Within r' := by
  have added : ∀ (entries : List (String × Value)) (table : Registry) (name : String),
      (table.lookup name).isSome = true →
      ((entries.foldl (fun acc e => setNamed e.1 (.value e.2) acc) table).lookup name).isSome =
        true := by
    intro entries
    induction entries with
    | nil => exact fun _ _ known => known
    | cons e rest ih => exact fun table name known => ih _ name (isSome_lookup_setNamed known)
  unfold registerAll at given
  split at given
  · cases given
  · cases given
    exact within_withTable (added entries _)

theorem Within.registered (within : r.Within r') {locals : List String} {e : Expr}
    (known : e.Registered r locals) : e.Registered r' locals :=
  fun t name looked => within t name (known t name looked)

theorem Within.registeredAll (within : r.Within r') {locals : List String} {code : List Code}
    (known : Code.RegisteredAll r locals code) : Code.RegisteredAll r' locals code :=
  Code.eachAll_imp (fun _ _ known => within.registered known) code known

end Registries

namespace Engine

/-- The engines that a run leads to in which values are registered, too. -/
inductive Leads (start : Engine) : Engine → Prop
  | start : Leads start start
  | event {e : Engine} (time : Int) (event : Event) :
      Leads start e → Leads start (e.after time event)
  | compile {e : Engine} (text : String) (name : Option String) :
      Leads start e → Leads start ((fromString text name).run e).2
  | render {e : Engine} (t : Loaded) (fill : Context → Context) :
      Leads start e → Leads start ((renderLoaded t fill).run e).2
  | assign {e : Engine} (entries : List (String × Value)) :
      Leads start e → Leads start ((assign entries).run e).2
  | register {e : Engine} (t : Table) (name : String) (v : Value) :
      Leads start e → Leads start ((register t name v).run e).2
  | registerAll {e : Engine} (t : Table) (entries : List (String × Value)) :
      Leads start e → Leads start ((registerAll t entries).run e).2

theorem changeRegistries_within {f : Registries → Except Fault Registries}
    (grows : ∀ r r', f r = .ok r' → r.Within r') (e : Engine) :
    e.env.registries.Within ((changeRegistries f).run e).2.env.registries := by
  rw [changeRegistries, Step.run_bind, Step.run_get]
  dsimp only
  cases given : f e.env.registries with
  | error fault => exact .refl _
  | ok registries => exact grows _ _ given

theorem fromString_registries (text : String) (name : Option String) (e : Engine) :
    ((fromString text name).run e).2.env.registries = e.env.registries := by
  rw [fromString, Step.run_bind, assemble_run]
  cases ((e.plan.assemble ⟨text, name, none⟩).run {}).1 <;> rfl

theorem Leads.within {start e : Engine} (leads : Leads start e) :
    start.env.registries.Within e.env.registries := by
  induction leads with
  | start => exact .refl _
  | @event e time event _ ih => exact (after_proceeds e time event).registries ▸ ih
  | @compile e text name _ ih => exact fromString_registries text name e ▸ ih
  | @render e t fill _ ih => exact (renderLoaded_becomes t fill e).unmoved.registries ▸ ih
  | assign entries _ ih => exact ih
  | @register e t name v _ ih =>
      exact ih.trans (changeRegistries_within (fun _ _ => Registries.register_within) e)
  | @registerAll e t entries _ ih =>
      exact ih.trans (changeRegistries_within (fun _ _ => Registries.registerAll_within) e)

theorem rendering_resolves {e : Engine} {t : Loaded}
    (known : Code.RegisteredAll e.env.registries [] t.code) {fill : Context → Context}
    {n : UnknownName}
    (fails : ((renderLoaded t fill).run e).1 = .error (.diagnostic (.unknownName n))) :
    e.host.Answers (.diagnostic (.unknownName n)) := by
  rw [renderLoaded_run] at fails
  unfold answer at fails
  cases outcome : (e.rendering t fill).outcome with
  | ok written =>
      rw [outcome] at fails
      cases fails
  | error d =>
      rw [outcome] at fails
      cases fails
      exact renderCode_resolves (s := e.settingOf t) known _ _ outcome

end Engine

namespace Plan

variable {p : Plan}

/-- Whether all names in a source are registered, in its parents and includes, too. -/
def Names (p : Plan) (s : Source) : Prop :=
  ∃ flat, p.flat s = .ok flat ∧ Code.RegisteredAll p.registries [] (p.outline flat.body)

theorem assemble_names {s : Source} {a : Assembled} {trail : Trail}
    (run : (p.assemble s).run {} = (.ok a, trail)) :
    p.Names s ∧ Code.RegisteredAll p.registries [] a.code := by
  rw [assemble_eq] at run
  obtain ⟨t, _, parsed, rest⟩ := Step.run_bind_ok run
  obtain ⟨hparse, rfl⟩ := Assembly.ofExcept_run_ok parsed
  obtain ⟨flat, _, flattened, _⟩ := Step.run_bind_ok rest
  obtain ⟨hflatten, rfl⟩ := Assembly.ofExcept_run_ok flattened
  obtain ⟨⟨_, registered, _⟩, outlined⟩ := (assembleTemplate_decides hflatten).only rest
  refine ⟨⟨flat.1, ?_, registered⟩, ?_⟩
  · simp only [Plan.flat, hparse, bind, Except.bind, hflatten]
    rfl
  · rw [← outlined, Code.each_bareAll fun _ _ => Expr.registered_erase] at registered
    exact registered

end Plan

namespace Engine

/-- No unknown name comes up in a render. A template is only compiled if all filters, tests and
functions that it names are registered, wherever they stand in it, in its parents and in its
includes; and whatever is done after that, no render of it refuses a name, unless a function of the
host itself answers with that error. -/
theorem compiled_names (e : Engine) :
    (∀ text name t, ((fromString text name).run e).1 = .ok t →
      e.plan.Names ⟨text, name, none⟩ ∧
      ∀ e', Leads ((fromString text name).run e).2 e' → ∀ fill n,
        ((renderLoaded t fill).run e').1 = .error (.diagnostic (.unknownName n)) →
        e'.host.Answers (.diagnostic (.unknownName n))) ∧
    ∀ name useCache t, ((getTemplate name useCache).run e).1 = .ok t → t.fromCache = false →
      (∃ sheet, e.plan.sheet name = .ok sheet ∧
        e.plan.Names ⟨sheet.text, some name, sheet.filename⟩) ∧
      ∀ e', Leads ((getTemplate name useCache).run e).2 e' → ∀ fill n,
        ((renderLoaded t fill).run e').1 = .error (.diagnostic (.unknownName n)) →
        e'.host.Answers (.diagnostic (.unknownName n)) := by
  refine ⟨fun text name t given => ?_, fun name useCache t given fresh => ?_⟩
  · have assembled := given
    rw [fromString, Step.run_bind, assemble_run] at assembled
    cases run : (e.plan.assemble ⟨text, name, none⟩).run {} with
    | mk result trail =>
        rw [run] at assembled
        cases result with
        | error fault => cases assembled
        | ok a =>
            cases assembled
            obtain ⟨names, known⟩ := Plan.assemble_names run
            refine ⟨names, fun e' leads fill n fails => rendering_resolves ?_ fails⟩
            have within := leads.within
            rw [fromString_registries] at within
            exact within.registeredAll known
  · have scratch : e.fromScratch name = .ok t := by
      rcases getTemplate_result name useCache e with same | ⟨_, _, _, _, _, cached⟩
      · exact same.symm.trans given
      · rw [given] at cached
        cases cached
        cases fresh
    obtain ⟨sheet, a, trail, found, run, rfl⟩ := fromScratch_ok scratch
    obtain ⟨names, known⟩ := Plan.assemble_names run
    refine ⟨⟨sheet, found, names⟩, fun e' leads fill n fails => rendering_resolves ?_ fails⟩
    have within := leads.within
    rw [(getTemplate_becomes name useCache e).unmoved.registries] at within
    exact within.registeredAll known

end Engine

namespace Kit

theorem longerThan_plain (v size : Value) : Except.Plain (longerThan v size) := by
  unfold longerThan Value.length
  cases v.size? with
  | some n => exact (Value.order_plain _ _ _).map _
  | none => exact Except.plain_error.mpr rfl

theorem run_plain (loopText : Nat → List Char) (name : String) (args : List Value) :
    Except.Plain (run loopText name args) := by
  fun_cases run loopText name args <;>
    simp_all [Value.multiply_plain, Value.add_plain, longerThan_plain, Fault.isPlain]

theorem callMethod_plain (self : Value) (name : String) (a : Arguments) :
    Except.Plain (callMethod self name a) := by
  unfold callMethod
  split
  · split
    · exact Except.plain_error.mpr rfl
    · split
      · exact Except.plain_error.mpr rfl
      · exact Except.plain_ok
  · exact Except.plain_error.mpr rfl

theorem callFunction_plain (loopText : Nat → List Char) (name : String) (a : Arguments) :
    Except.Plain (callFunction loopText name a).result := by
  unfold callFunction
  split
  · exact Except.plain_ok
  · split
    · exact Except.plain_error.mpr rfl
    · split
      · next refused => exact Except.plain_error.mpr (Signature.bind_plain _ _ _ refused)
      · exact run_plain _ _ _

theorem answers_plain {fault : Fault} (answers : host.Answers fault) : fault.isPlain = true := by
  obtain ⟨heap, f, a, answered⟩ := answers
  simp only [host, call] at answered
  split at answered
  · exact callFunction_plain _ _ _ _ answered
  · exact callMethod_plain _ _ _ _ answered
  · cases answered
    rfl

end Kit

namespace Engine

/-- An engine with the kit, and with a template that names a filter. -/
def withKit : Engine := { overTexts "\x7b\x7b n|upper \x7d\x7d" with host := Kit.host }

/-- The filter may even be replaced after the template was compiled. -/
def withKitLater (text : String) : Engine :=
  ((register .filters "upper" (.function "none")).run ((fromString text none).run withKit).2).2

theorem compiled_names_withKit : ∃ text t, ((fromString text none).run withKit).1 = .ok t ∧
    withKit.plan.Names ⟨text, none, none⟩ ∧
    ∀ fill n, ((renderLoaded t fill).run (withKitLater text)).1 ≠
      .error (.diagnostic (.unknownName n)) := by
  obtain ⟨text, flat, accepts, feasible⟩ : ∃ text flat,
      withKit.plan.Accepts ⟨text, none, none⟩ flat ∧
        Code.Feasible (withKit.plan.outline flat.body) :=
    ⟨"\x7b% for i in 1..2 %\x7d\x7b\x7b i is odd \x7d\x7d" ++
        "\x7b% include \"part\" %\x7d\x7b% end %\x7d",
      Plan.exists_accepts (by decide +kernel)⟩
  obtain ⟨t, compiled⟩ := fromString_ok_iff.mpr (accepts.assemble_ok_iff.mpr feasible)
  obtain ⟨names, renders⟩ := (compiled_names withKit).1 text none t compiled
  refine ⟨text, t, compiled, names, fun fill n fails => ?_⟩
  have answers := renders (withKitLater text) (.register _ _ _ .start) fill n fails
  have kit : (withKitLater text).host = Kit.host := by
    have same : ((fromString text none).run withKit).2.host = Kit.host := by
      rw [fromString, Step.run_bind, assemble_run]
      cases ((withKit.plan.assemble ⟨text, none, none⟩).run {}).1 <;> rfl
    exact same
  rw [kit] at answers
  cases Kit.answers_plain answers

end Engine

end Stencil
