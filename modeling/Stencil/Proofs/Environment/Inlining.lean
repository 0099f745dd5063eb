import Stencil.Proofs.Assembly.Inlining
import Stencil.Proofs.Cache.Memory
import Stencil.Proofs.Environment.Policies
import Stencil.Proofs.Render.Unmarked

/-!
Including a template is writing its statements. A template in which includes are replaced by the
statements that they lead to renders like before, up to the places of what is reported.
-/

namespace Stencil

/-! What was observed, without places. -/

def Missed.unplaced (m : Missed) : Missed := { m with location := "" }

def Counter.unplaced (c : Counter) : Counter :=
  { c with entries := c.entries.map fun entry => (entry.1, entry.2.unplaced) }

def Report.unplaced (r : Report) : Report := { r with line := none, text := "" }

theorem Report.unplaced_unplaced : Report.unplaced ∘ Report.unplaced = Report.unplaced := rfl

/-- An engine without the places of what it observed. Its log, which tells them in its texts, is
left out. -/
def Engine.unplaced (e : Engine) : Engine :=
  { e with
    env := { e.env with counter := e.env.counter.unplaced }
    log := []
    reports := e.reports.map Report.unplaced }

theorem lookup_mapValues {α β : Type} (f : α → β) (name : String) (entries : List (String × α)) :
    (entries.map fun entry => (entry.1, f entry.2)).lookup name = (entries.lookup name).map f := by
  induction entries with
  | nil => rfl
  | cons entry rest ih =>
      rw [List.map_cons, List.lookup_cons, List.lookup_cons]
      split
      · rfl
      · exact ih

theorem setNamed_mapValues {α β : Type} (f : α → β) (name : String) (a : α)
    (entries : List (String × α)) :
    (setNamed name a entries).map (fun entry => (entry.1, f entry.2)) =
      setNamed name (f a) (entries.map fun entry => (entry.1, f entry.2)) := by
  induction entries with
  | nil => rfl
  | cons entry rest ih =>
      rw [setNamed, List.map_cons, setNamed]
      split
      · rfl
      · rw [List.map_cons, ih]

theorem Counter.add_unplaced (c : Counter) (name message location : String) :
    (c.add name message location).unplaced = c.unplaced.add name message "" := by
  have found := lookup_mapValues Missed.unplaced name c.entries
  unfold add
  rw [unplaced, unplaced]
  dsimp only
  rw [found]
  cases c.entries.lookup name with
  | some m =>
      dsimp only [Option.map_some]
      rw [setNamed_mapValues]
      rfl
  | none =>
      dsimp only [Option.map_none]
      rw [List.length_map]
      split
      · rfl
      · rw [setNamed_mapValues]
        rfl

theorem Counter.unplaced_unplaced (c : Counter) : c.unplaced.unplaced = c.unplaced := by
  simp [unplaced, Missed.unplaced]

theorem Assembly.exists_run {α : Type} {x : Assembly α} {s : Trail}
    (succeeds : (x.run s).1.toOption.isSome = true) : ∃ a u, x.run s = (.ok a, u) := by
  generalize x.run s = r at succeeds ⊢
  obtain ⟨result, u⟩ := r
  cases result with
  | error fault => cases succeeds
  | ok a => exact ⟨a, u, rfl⟩

namespace Engine

variable {s s' : Setting} {e e' : Engine}

theorem observe_unplaced (s : Setting) (e : Engine) (r : Reference) :
    (observe s e r).unplaced = (observe s.sourceless e.unplaced r.unplaced).unplaced := by
  have counted := Counter.add_unplaced e.env.counter r.name r.message (s.placeOf r.line)
  have again := Counter.add_unplaced e.env.counter.unplaced r.unplaced.name r.unplaced.message
    (s.sourceless.placeOf r.unplaced.line)
  rw [Counter.unplaced_unplaced] at again
  have same := counted.trans again.symm
  have report : (reportOf s r).unplaced = (reportOf s.sourceless r.unplaced).unplaced := rfl
  unfold observe unplaced
  rw [show s.sourceless.strict = s.strict from rfl]
  dsimp only
  cases e.env.options.strictVariables || e.env.options.development <;>
    cases s.strict <;> cases e.env.options.logUndefined <;>
      simp [same, report, Report.unplaced_unplaced]

theorem observe_all_unplaced (setting : s.sourceless = s'.sourceless) {refs refs' : List Reference}
    (same : refs.map Reference.unplaced = refs'.map Reference.unplaced)
    (engine : e.unplaced = e'.unplaced) :
    (refs.foldl (observe s) e).unplaced = (refs'.foldl (observe s') e').unplaced := by
  induction refs generalizing refs' e e' with
  | nil =>
      rw [List.map_eq_nil_iff.mp same.symm]
      exact engine
  | cons r rest ih =>
      obtain ⟨r', rest', rfl, sameFirst, sameRest⟩ := List.map_eq_cons_iff.mp same.symm
      apply ih sameRest.symm
      rw [observe_unplaced, observe_unplaced s', setting, engine, sameFirst]

theorem absorb_unplaced (e : Engine) (setting : s.sourceless = s'.sourceless) {w u : World}
    (like : w.Like u) : (e.absorb s w).unplaced = (e.absorb s' u).unplaced := by
  cases like with
  | intro same =>
      have observed := observe_all_unplaced (e := e) setting same.symm rfl
      exact congrArg (fun e => { e with notes := e.notes ++ w.notes, generators := w.generators })
        observed

theorem answer_unplaced {r r' : Rendering} (like : r.Like r') :
    (answer r).mapError Fault.unplaced = (answer r').mapError Fault.unplaced := by
  cases like with
  | ok _ => rfl
  | error same _ => exact congrArg (fun d => Except.error (Fault.diagnostic d)) same

/-- Including a template is writing its statements: a template in which includes are replaced by the
statements that they lead to, at any depth, and in a library in which they are replaced, gives the
same text or the same fault if it is compiled, misses the same references in the same order, and
leaves the same behind, up to places. A source is compiled as the template that it writes
(`Plan.assemble_eq`). -/
theorem renderLoaded_inlines (e : Engine) {p q : Plan} (inlines : p.Inlines q) {t t' : Template}
    (same : t.Inlines p.body? t') {name filename : Option String} {a a' : Assembled}
    {u u' : Trail} (run : (p.assembleTemplate t name filename).run {} = (.ok a, u))
    (run' : (q.assembleTemplate t' name filename).run {} = (.ok a', u'))
    (source source' : String) (fill : Context → Context) :
    let included : Loaded := ⟨name, filename, source, a.code, false, a.dependencies⟩
    let written : Loaded := ⟨name, filename, source', a'.code, false, a'.dependencies⟩
    let (outcome, after) := (renderLoaded included fill).run e
    let (outcome', after') := (renderLoaded written fill).run e
    outcome.mapError Fault.unplaced = outcome'.mapError Fault.unplaced ∧
    (e.missed included fill).map Reference.unplaced =
      (e.missed written fill).map Reference.unplaced ∧
    after.unplaced = after'.unplaced := by
  intro included written
  have setting : (e.settingOf included).sourceless = (e.settingOf written).sourceless := rfl
  have like : (e.rendering included fill).Like (e.rendering written fill) :=
    renderCode_like setting (inlines.assembleTemplate same run run') _ _
  rw [renderLoaded_run, renderLoaded_run]
  refine ⟨answer_unplaced like, ?_, absorb_unplaced e setting like.world⟩
  exact like.world.references

def loopAround (body : List Stmt) : Template where
  body := [.loop ⟨1, 0⟩ (.one ⟨⟨1, 7⟩, "item"⟩)
    (.range ⟨1, 15⟩ (.const ⟨1, 15⟩ (.nat 1)) (.const ⟨1, 18⟩ (.nat 2))) body []]
  parent := none

def countingPart : Engine :=
  overTexts "\x7b\x7b loop.index \x7d\x7d\x7b% set seen = item %\x7d\x7b\x7b unknown \x7d\x7d"

theorem loopAround_inlines {flat : String → Option (List Stmt)} {p : Pos} {name : String}
    {body : List Stmt} (found : flat name = some body) :
    (loopAround [.include p name]).Inlines flat (loopAround body) where
  parent := rfl
  body := .singleton (.loop rfl rfl (.singleton (.inlined found (.refl body))) .nil)

theorem renderLoaded_inlines_loopAround : ∃ body a a' u u',
    countingPart.plan.body? "part" = some body ∧
    (countingPart.plan.assembleTemplate (loopAround [.include ⟨1, 22⟩ "part"]) none none).run {} =
      (.ok a, u) ∧
    (countingPart.plan.assembleTemplate (loopAround body) none none).run {} = (.ok a', u') ∧
    let included : Loaded := ⟨none, none, "", a.code, false, a.dependencies⟩
    let written : Loaded := ⟨none, none, "", a'.code, false, a'.dependencies⟩
    let (outcome, after) := (renderLoaded included id).run countingPart
    let (outcome', after') := (renderLoaded written id).run countingPart
    outcome.mapError Fault.unplaced = outcome'.mapError Fault.unplaced ∧
    (countingPart.missed included id).map Reference.unplaced =
      (countingPart.missed written id).map Reference.unplaced ∧
    after.unplaced = after'.unplaced := by
  have compiles : ((countingPart.plan.body? "part").any fun body =>
      [[.include ⟨1, 22⟩ "part"], body].all fun inner =>
        let compiling := countingPart.plan.assembleTemplate (loopAround inner) none none
        (compiling.run {}).1.toOption.isSome) = true := by decide +kernel
  obtain ⟨body, found, both⟩ := (Option.any_eq_true _ _).mp compiles
  simp only [List.all_cons, List.all_nil, Bool.and_true, Bool.and_eq_true] at both
  obtain ⟨first, second⟩ := both
  obtain ⟨a, u, run⟩ := Assembly.exists_run first
  obtain ⟨a', u', run'⟩ := Assembly.exists_run second
  exact ⟨body, a, a', u, u', found, run, run',
    renderLoaded_inlines countingPart (.refl _) (loopAround_inlines found) run run' "" "" id⟩

end Engine

end Stencil
