import Stencil.Proofs.Assembly.Recursion
import Stencil.Proofs.Environment.Accepted

/-!
Which templates are refused for their includes: exactly those from which some way along includes
meets a name twice or leads too far. Compiling always comes to an end, and nothing else is refused
but code that cannot be carried out.
-/

namespace Stencil

theorem checkCode_error {filename : Option String} {code : List Code} {fault : Fault}
    (refused : checkCode filename code = .error fault) :
    ∃ reason, fault = refuseCode filename reason := by
  unfold checkCode at refused
  split at refused
  · cases refused
    exact ⟨_, rfl⟩
  · split at refused
    · cases refused
      exact ⟨_, rfl⟩
    · cases refused

namespace Plan

variable {p : Plan} {s : Source} {flat : Template}

/-- What becomes of a source in a library in which nothing else can fail: an error of recursion
unless all of its includes open, and otherwise only the check of code can refuse it. -/
theorem assemble_outcome (complete : p.Complete) (bounds : p.BoundsNames)
    (flattened : p.flat s = .ok flat)
    (registered : Code.EachAll (Expr.Registered p.registries) [] (Stmt.own flat.body)) :
    (¬ p.OpensAll s.name flat.body → ∃ chain limit,
      ((p.assemble s).run {}).1 = .error (.diagnostic (.recursion chain limit))) ∧
    (p.OpensAll s.name flat.body → ∀ fault, ((p.assemble s).run {}).1 = .error fault →
      ∃ reason, fault = refuseCode s.filename reason) := by
  obtain ⟨t, hparse, rest⟩ := Except.bind_ok flattened
  obtain ⟨⟨_, files⟩, hflatten, given⟩ := Except.bind_ok rest
  cases given
  rw [assemble_eq, Step.run_bind, Assembly.ofExcept, Step.run_mk_pure, hparse]
  dsimp only
  rw [assembleTemplate, Step.run_bind, Assembly.ofExcept, Step.run_mk_pure, hflatten]
  dsimp only
  rw [Step.run_bind]
  rcases assembleAll_detects complete bounds s.name registered {} with
    ⟨opens, code, u, ran⟩ | ⟨unopened, chain, limit, u, ran⟩
  · refine ⟨fun unopened => (unopened opens).elim, fun _ fault failed => ?_⟩
    rw [ran] at failed
    dsimp only at failed
    rw [Step.run_bind, Assembly.ofExcept, Step.run_mk_pure] at failed
    cases checked : checkCode s.filename code with
    | error fault' =>
        rw [checked] at failed
        cases failed
        exact checkCode_error checked
    | ok _ =>
        rw [checked] at failed
        cases failed
  · rw [ran]
    exact ⟨fun _ => ⟨chain, limit, rfl⟩, fun opens => (unopened opens).elim⟩

/-- A template that can be flattened where it is requested can be flattened where it is included,
to the same. -/
theorem flattened_of_flat {name : String} {sheet : Sheet} (found : p.sheet name = .ok sheet)
    (flattened : p.flat ⟨sheet.text, some name, sheet.filename⟩ = .ok flat) :
    ∃ files, p.flattened name = .ok (flat, files) := by
  obtain ⟨t, hparse, rest⟩ := Except.bind_ok flattened
  obtain ⟨inner, hflatten, given⟩ := Except.bind_ok rest
  cases given
  have loaded : p.found name = .ok ⟨t, sheet.filename⟩ := by
    simp only [Plan.found, found, bind, Except.bind, hparse]
    rfl
  obtain ⟨inner', hflatten', same⟩ := Chain.flatten_renamed hflatten loaded rfl
  rw [← same]
  exact ⟨_, flattened_of_found loaded hflatten'⟩

/-- The includes of a template open unless some way along them repeats a name or is too long. -/
theorem opensAll_iff_paths (missing : ∀ name fault, p.flattened name = .error fault →
      fault.isNotFound = true) {name : Option String} {body : List Stmt} :
    p.OpensAll name body ↔ ∀ path, p.IncludePath body path →
      (firstGiven [name] unnamed :: path).Nodup ∧ (path.length : Int) ≤ p.limits.depth := by
  rw [OpensAll, opens_iff_paths missing]
  refine forall_congr' fun path => imp_congr_right fun isPath => ?_
  have nonempty : 0 < path.length := by cases isPath <;> simp
  have short : path.length ≤ p.limits.depth.toNat ↔ (path.length : Int) ≤ p.limits.depth := by omega
  simp only [List.mem_singleton, List.nodup_cons, short]
  grind

end Plan

namespace Engine

variable {e : Engine} {name : String} {sheet : Sheet} {flat : Template}

/-- What becomes of a template that is requested by name, in an environment in which nothing else
can fail. -/
theorem fromScratch_outcome (complete : e.plan.Complete) (found : e.plan.sheet name = .ok sheet)
    (flattened : e.plan.flat ⟨sheet.text, some name, sheet.filename⟩ = .ok flat) :
    (¬ e.plan.OpensAll (some name) flat.body → ∃ chain limit,
      e.fromScratch name = .error (.diagnostic (.recursion chain limit))) ∧
    (e.plan.OpensAll (some name) flat.body → ∀ fault, e.fromScratch name = .error fault →
      ∃ reason, fault = refuseCode sheet.filename reason) := by
  obtain ⟨files, hflat⟩ := Plan.flattened_of_flat found flattened
  obtain ⟨refused, opened⟩ := Plan.assemble_outcome complete e.boundsNames_plan flattened
    (complete.registered name _ hflat)
  simp only [fromScratch, found, bind, Except.bind]
  constructor
  · intro unopened
    obtain ⟨chain, limit, failed⟩ := refused unopened
    exact ⟨chain, limit, by rw [failed]⟩
  · intro opens fault failed
    cases assembled : ((e.plan.assemble ⟨sheet.text, some name, sheet.filename⟩).run {}).1 with
    | error fault' =>
        rw [assembled] at failed
        cases failed
        exact opened opens fault assembled
    | ok a =>
        rw [assembled] at failed
        cases failed

/-- In an environment whose templates can all be flattened and use registered names only, a template
that is there is refused for recursion just when some way along includes from it repeats a name or
has more names than the limit; the missing template of an include ends a way. Compiling comes to an
end, the search for `loop` included, and whatever else is refused is code that cannot be carried
out. The template that is requested stands on each way under its name; an empty name stands there as
`unnamed`. -/
theorem recursion_iff_path (e : Engine) {name : String} {sheet : Sheet} {flat : Template}
    (complete : e.plan.Complete) (found : e.plan.sheet name = .ok sheet)
    (flattened : e.plan.flat ⟨sheet.text, some name, sheet.filename⟩ = .ok flat) :
    ((∃ chain limit, ((getTemplate name (some false)).run e).1 =
        .error (.diagnostic (.recursion chain limit))) ↔
      ∃ path, e.plan.IncludePath flat.body path ∧
        (¬ (firstGiven [some name] unnamed :: path).Nodup ∨ e.plan.limits.depth < path.length)) ∧
    ∀ useCache fault, ((getTemplate name useCache).run e).1 = .error fault →
      (∃ chain limit, fault = .diagnostic (.recursion chain limit)) ∨
        ∃ reason, fault = refuseCode sheet.filename reason := by
  obtain ⟨refused, opened⟩ := fromScratch_outcome complete found flattened
  constructor
  · rw [getTemplate_uncached]
    have unopened : ¬ e.plan.OpensAll (some name) flat.body ↔ ∃ path,
        e.plan.IncludePath flat.body path ∧ (¬ (firstGiven [some name] unnamed :: path).Nodup ∨
          e.plan.limits.depth < path.length) := by
      rw [Plan.opensAll_iff_paths complete.missing]
      push Not
      refine exists_congr fun path => and_congr_right fun _ => ?_
      rw [← Int.not_le]
      grind
    rw [← unopened]
    constructor
    · rintro ⟨chain, limit, failed⟩ opens
      obtain ⟨reason, impossible⟩ := opened opens _ failed
      cases impossible
    · exact refused
  · intro useCache fault failed
    rcases getTemplate_result name useCache e with scratch | ⟨_, _, _, _, _, given⟩
    · rw [scratch] at failed
      by_cases opens : e.plan.OpensAll (some name) flat.body
      · exact .inr (opened opens fault failed)
      · obtain ⟨chain, limit, refused⟩ := refused opens
        rw [refused] at failed
        cases failed
        exact .inl ⟨chain, limit, rfl⟩
    · rw [given] at failed
      cases failed

/-! Environments of a few templates. -/

def overTemplates (templates : List (String × String)) : Engine where
  env := { loader := some (.entries false templates) }
  host := .bare
  files := ⟨"", []⟩

theorem sheet_overTemplates_none {templates : List (String × String)}
    (absent : name ∉ templates.map Prod.fst) :
    (overTemplates templates).plan.sheet name = .error (.diagnostic (.missing name)) := by
  have unlisted : templates.lookup name = none := by
    rw [List.lookup_eq_none_iff]
    intro entry member
    rw [bne_iff_ne]
    rintro rfl
    exact absent (List.mem_map_of_mem member)
  simp [Plan.sheet, plan, overTemplates, Loader.library, Loader.read, unlisted, bind, Except.bind]

end Engine

namespace Plan

variable {p : Plan}

/-- Whether a template can be flattened and uses registered names only, or is missing. -/
def Settles (p : Plan) (name : String) : Prop :=
  match p.flattened name with
  | .ok flat => Code.EachAll (Expr.Registered p.registries) [] (Stmt.own flat.1.body)
  | .error fault => fault.isNotFound = true

instance (name : String) : Decidable (p.Settles name) :=
  match h : p.flattened name with
  | .ok flat => decidable_of_iff
      (Code.EachAll (Expr.Registered p.registries) [] (Stmt.own flat.1.body))
      (by simp only [Settles, h])
  | .error fault => decidable_of_iff (fault.isNotFound = true) (by simp only [Settles, h])

theorem complete_of_settles (settles : ∀ name, p.Settles name) : p.Complete where
  missing name fault hflat := by
    have here := settles name
    rwa [Settles, hflat] at here
  registered name flat hflat := by
    have here := settles name
    rwa [Settles, hflat] at here

end Plan

namespace Engine

theorem complete_overTemplates {templates : List (String × String)}
    (each : ∀ name ∈ templates.map Prod.fst, (overTemplates templates).plan.Settles name) :
    (overTemplates templates).plan.Complete := by
  refine Plan.complete_of_settles fun name => ?_
  by_cases listed : name ∈ templates.map Prod.fst
  · exact each name listed
  · simp only [Plan.Settles, Plan.flattened, Plan.found, sheet_overTemplates_none listed, bind,
      Except.bind]
    rfl

def loopingText : String :=
  "\x7b% for i in 1..2 %\x7d\x7b% include 'part' %\x7d\x7b% endfor %\x7d"

def twiceText : String :=
  "\x7b% include 'leaf' %\x7d\x7b% include 'leaf' %\x7d\x7b% include 'gone' %\x7d"

/-- A loop over a part that includes itself and uses `loop`, and a page that includes the same part
twice and a missing one. -/
def includingPages : Engine := overTemplates
  [("page", loopingText), ("part", "\x7b\x7b loop.index \x7d\x7d\x7b% include 'part' %\x7d"),
    ("twice", twiceText), ("leaf", "leaf")]

theorem includingPages_complete : includingPages.plan.Complete :=
  complete_overTemplates (by decide +kernel)

theorem recursion_iff_path_includingPages :
    includingPages.plan.Complete ∧
    (∃ sheet flat path, includingPages.plan.sheet "page" = .ok sheet ∧
      includingPages.plan.flat ⟨sheet.text, some "page", sheet.filename⟩ = .ok flat ∧
      includingPages.plan.IncludePath flat.body path ∧ ¬ ("page" :: path).Nodup ∧
      ∃ chain limit, ((getTemplate "page" (some false)).run includingPages).1 =
        .error (.diagnostic (.recursion chain limit))) ∧
    ∃ sheet flat, includingPages.plan.sheet "twice" = .ok sheet ∧
      includingPages.plan.flat ⟨sheet.text, some "twice", sheet.filename⟩ = .ok flat ∧
      (∀ path, includingPages.plan.IncludePath flat.body path → ("twice" :: path).Nodup ∧
        (path.length : Int) ≤ 50) ∧
      ¬ ∃ chain limit, ((getTemplate "twice" (some false)).run includingPages).1 =
        .error (.diagnostic (.recursion chain limit)) := by
  refine ⟨includingPages_complete, ?_, ?_⟩
  · have found : includingPages.plan.sheet "page" = .ok ⟨loopingText, none⟩ := by decide +kernel
    obtain ⟨flat, flattened, includes⟩ := Except.exists_of_any
      (x := includingPages.plan.flat ⟨loopingText, some "page", none⟩)
      (P := fun flat => "part" ∈ Stmt.includedNames flat.body) (by decide +kernel)
    obtain ⟨part, hpart, again⟩ := Except.exists_of_any
      (x := includingPages.plan.flattened "part")
      (P := fun flat => "part" ∈ Stmt.includedNames flat.1.body) (by decide +kernel)
    have isPath : includingPages.plan.IncludePath flat.body ["part", "part"] :=
      .step (Stmt.mem_includedNames.mp includes) hpart (.last (Stmt.mem_includedNames.mp again))
    refine ⟨_, flat, _, found, flattened, isPath, by decide, ?_⟩
    exact (recursion_iff_path includingPages includingPages_complete found flattened).1.mpr
      ⟨_, isPath, .inl (by decide)⟩
  · have found : includingPages.plan.sheet "twice" = .ok ⟨twiceText, none⟩ := by decide +kernel
    obtain ⟨flat, flattened, opens⟩ := Except.exists_of_any
      (x := includingPages.plan.flat ⟨twiceText, some "twice", none⟩)
      (P := fun flat => includingPages.plan.OpensAll (some "twice") flat.body) (by decide +kernel)
    have paths := (Plan.opensAll_iff_paths includingPages_complete.missing).mp opens
    refine ⟨_, flat, found, flattened, paths, ?_⟩
    rw [(recursion_iff_path includingPages includingPages_complete found flattened).1]
    rintro ⟨path, isPath, again | long⟩
    · exact again (paths path isPath).1
    · exact absurd (paths path isPath).2 (Int.not_le.mpr long)

/-- A template with an empty name includes one that has the name of templates without a name. -/
def namelessPages : Engine :=
  overTemplates [("", "\x7b% include '<template>' %\x7d"), ("<template>", "x")]

/-- The name under which a template with an empty name stands on a way is taken for the template of
that name, so that a recursion is found where there is none. -/
theorem nameless_taken_for_unnamed : ¬ ∀ (e : Engine) (name : String) (sheet : Sheet)
    (flat : Template), e.plan.Complete → e.plan.sheet name = .ok sheet →
      e.plan.flat ⟨sheet.text, some name, sheet.filename⟩ = .ok flat →
      ((∃ chain limit, ((getTemplate name (some false)).run e).1 =
          .error (.diagnostic (.recursion chain limit))) ↔
        ∃ path, e.plan.IncludePath flat.body path ∧
          (¬ (name :: path).Nodup ∨ e.plan.limits.depth < path.length)) := by
  intro detected
  have complete : namelessPages.plan.Complete := complete_overTemplates (by decide +kernel)
  have found : namelessPages.plan.sheet "" = .ok ⟨"\x7b% include '<template>' %\x7d", none⟩ := by
    decide +kernel
  obtain ⟨flat, flattened, unopened, opens⟩ := Except.exists_of_any
    (x := namelessPages.plan.flat ⟨"\x7b% include '<template>' %\x7d", some "", none⟩)
    (P := fun flat => ¬ namelessPages.plan.OpensAll (some "") flat.body ∧
      ∀ inner ∈ Stmt.includedNames flat.body, namelessPages.plan.Opens 50 [""] inner)
    (by decide +kernel)
  have refused := (fromScratch_outcome complete found flattened).1 unopened
  rw [← getTemplate_uncached] at refused
  obtain ⟨path, isPath, wrong⟩ := (detected _ _ _ _ complete found flattened).mp refused
  obtain ⟨short, distinct, apart⟩ := (Plan.opens_iff_paths complete.missing).mp
    (fun inner includes => opens inner (Stmt.mem_includedNames.mpr includes)) path isPath
  rcases wrong with again | long
  · refine again (List.nodup_cons.mpr ⟨fun member => ?_, distinct⟩)
    exact apart "" member (List.mem_singleton.mpr rfl)
  · have limit : namelessPages.plan.limits.depth = 50 := rfl
    omega

end Engine

end Stencil
