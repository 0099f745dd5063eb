import Stencil.Proofs.Assembly.Lines
import Stencil.Proofs.Render.Located

/-!
The lines that a render of a template without parents records. Whatever is reported, and whatever
fault ends the render, it is told at the line of the statement that was carried out, or of the
include that this statement comes from. A `while` that asks its condition again does so at the line
that its last round has left.
-/

namespace Stencil

/-- Whether something that happens, and is recorded at a line, comes from a statement that code
comes to, and that finds this line where it does it. -/
def Caused (s : Setting) (code : List Code) (start : World) (line : Nat)
    (happened : World → Except Fault Unit → World → Prop) : Prop :=
  ∃ c here there result after, Reaches s code start c here ∧
    c.Does s here there result after ∧ happened there result after ∧ there.line = line

section Caused

variable {s : Setting} {code : List Code} {start : World}

theorem caused_of_reported {before later : List Reference} {r : Reference}
    (old : start.references <+: before)
    (recorded : ((executeAll s code).run start).2.references = before ++ r :: later) :
    Caused s code start r.line fun there _ after =>
      there.references <+: before ∧ before ++ [r] <+: after.references := by
  have new : before ++ [r] <+: before ++ r :: later := ⟨later, by simp⟩
  rw [← recorded] at new
  obtain ⟨there, result, after, ⟨c, here, reached, does⟩, earlier, reported⟩ :=
    (executeAll_traced_reaches code start).reported before r old new
  exact ⟨c, here, there, result, after, reached, does, ⟨earlier, reported⟩,
    (does.atLine.mem_reports earlier reported).symm⟩

theorem caused_of_failed {fault : Fault} {u : World}
    (run : (executeAll s code).run start = (.error fault, u)) (unending : fault ≠ .endless) :
    Caused s code start u.line fun _ result after => result = .error fault ∧ after = u := by
  have traced := executeAll_traced_reaches (s := s) code start
  rw [run] at traced
  obtain ⟨there, c, here, reached, does⟩ := traced.failed fault rfl unending
  exact ⟨c, here, there, .error fault, u, reached, does, ⟨rfl, rfl⟩, does.atLine.line.symm⟩

end Caused

theorem Stmt.pos_of_shell {own part : Stmt} (same : own.shell = part.shell) :
    own.pos = part.pos := by
  have placed : ∀ s : Stmt, s.shell.pos = s.pos := fun s => by cases s <;> rfl
  rw [← placed own, same, placed part]

namespace Plan

variable {p : Plan} {s : Source} {t : Template}

def Expands (p : Plan) (s : Source) (name : String) (inner : List Code) : Prop :=
  ∃ locals before after,
    (expandInclude p s.name p.limits.depth.toNat [firstGiven [s.name] unnamed] locals name).run
      before = (.ok inner, after)

/-- Whether every statement that does something in a render of a template finds the right line, and
that line is one of the template. -/
def TellsAll (p : Plan) (s : Source) (t : Template) (setting : Setting) (code : List Code)
    (start : World) : Prop :=
  ∀ c here there result after, Reaches (setting.of s) code start c here →
    c.Does (setting.of s) here there result after →
      TellsLine (setting.of s) (· ∈ Stmt.partsOf t.body) (p.Expands s) code start c here there ∧
        ∃ own ∈ Stmt.partsOf t.body, there.line = own.pos.line

theorem flatten_parentless {name : String} {flat : Template × List String}
    (parentless : t.parent = none) (flattened : p.flatten t name = .ok flat) {part : Stmt}
    (member : part ∈ Stmt.partsOf flat.1.body) :
    ∃ own ∈ Stmt.partsOf t.body, own.shell = part.shell := by
  rw [flatten, Chain.flatten, Chain.follow_last parentless] at flattened
  cases flattened
  obtain ⟨_, inBody | ⟨_, _, impossible, _⟩⟩ :=
    (Stmt.fillBlocks_fills [] t.body).drawn part member
  · exact inBody
  · cases impossible

theorem tellsAll_of_assemble {a : Assembled} {trail : Trail}
    (assembled : (p.assemble s).run {} = (.ok a, trail)) (parsed : p.parse s = .ok t)
    (parentless : t.parent = none) (setting : Setting) (start : World) :
    p.TellsAll s t setting a.code start := by
  obtain ⟨t', flat, parsed', flattened, ran, _⟩ := assemble_ok assembled
  rw [parsed] at parsed'
  cases parsed'
  have shells : ∀ part ∈ Stmt.partsOf flat.1.body, ∃ own ∈ Stmt.partsOf t.body,
      own.shell = part.shell := fun _ => flatten_parentless parentless flattened
  have expands : ∀ locals name, Step.Ensures (fun _ => True)
      (fun inner => p.Expands s name inner ∧ Code.marksAll inner ⊆ [])
      (expandInclude p s.name p.limits.depth.toNat [firstGiven [s.name] unnamed] locals name) := by
    intro locals name
    refine .and (.of_run (fun before _ after _ run => ?_) fun _ _ => trivial) expandInclude_unmarked
    exact ⟨locals, before, after, run⟩
  have all : ∀ part ∈ Stmt.partsOf flat.1.body, part ∈ Stmt.partsOf flat.1.body := fun _ => id
  have tells : TellsLines (setting.of s) (· ∈ Stmt.partsOf flat.1.body) (p.Expands s) a.code :=
    ((assembleAll_yields (yields_tellsLines expands) _ all).run_ok trivial ran).2
  have marked : Code.marksAll a.code ⊆ (Stmt.partsOf flat.1.body).map (·.pos.line) := by
    refine ((assembleAll_yields (yields_marks ?_ ?_) _ all).run_ok trivial ran).2
    · exact fun part member _ => List.mem_map_of_mem member
    · exact fun _ _ => expandInclude_unmarked.mono fun _ none =>
        List.Subset.trans none (List.nil_subset _)
  intro c here there result after reached does
  have told := tells _ _ _ _ _ _ reached does
  refine ⟨told.of_shells shells, ?_⟩
  have atPart : there.line ∈ (Stmt.partsOf flat.1.body).map (·.pos.line) := by
    cases told with
    | included isWritten _ _ _ line => exact line ▸ List.mem_map_of_mem isWritten
    | own isWritten _ _ begins _ =>
        rcases does.lineIn (reached.follows (World.LineIn.journey _) marked).2 with same | isMarked
        · rw [same, begins]
          exact List.mem_map_of_mem isWritten
        · exact isMarked
  obtain ⟨part, member, line⟩ := List.mem_map.mp atPart
  obtain ⟨own, inBody, same⟩ := shells part member
  exact ⟨own, inBody, line.symm.trans (congrArg Pos.line (Stmt.pos_of_shell same).symm)⟩

end Plan

/-- In a render of a template without parents each missing reference and each fault comes from a
statement that finds the line of its tag, or of the include that it comes from. -/
theorem renderCode_tellsAll {p : Plan} {s : Source} {t : Template} {a : Assembled} {trail : Trail}
    (assembled : (p.assemble s).run {} = (.ok a, trail)) (parsed : p.parse s = .ok t)
    (parentless : t.parent = none) (setting : Setting) (context : Context)
    (generators : Array (List Value)) :
    p.TellsAll s t setting a.code (World.start context generators) ∧
      (∀ before r later,
        (renderCode (setting.of s) a.code context generators).world.references =
          before ++ r :: later →
        Caused (setting.of s) a.code (World.start context generators) r.line fun there _ after =>
          there.references <+: before ∧ before ++ [r] <+: after.references) ∧
      ∀ fault u,
        (executeAll (setting.of s) a.code).run (World.start context generators) =
          (.error fault, u) → fault ≠ .endless →
        renderCode (setting.of s) a.code context generators =
          ⟨.error ((setting.of s).renderError u.line fault), u⟩ ∧
        Caused (setting.of s) a.code (World.start context generators) u.line fun _ result after =>
          result = .error fault ∧ after = u := by
  refine ⟨Plan.tellsAll_of_assemble assembled parsed parentless setting _, ?_, ?_⟩
  · intro before r later recorded
    rw [renderCode_world] at recorded
    exact caused_of_reported List.nil_prefix recorded
  · intro fault u run unending
    exact ⟨renderCode_error run, caused_of_failed run unending⟩

/-! A page that includes the template with the missing name, and a page whose `while` asks again. -/

def aroundPage : Source := ⟨"a\n\x7b% include 'base' %\x7d", some "page", none⟩

def askingPage : Source where
  text := "\x7b% set n = 'a' %\x7d\x7b% while n[0] %\x7d\n\x7b% set n = '' %\x7d\n" ++
    "\x7b% endwhile %\x7d"
  name := some "page"
  filename := none

theorem renderCode_tellsAll_aroundPage : ∃ t a trail r,
    shortPlan.parse aroundPage = .ok t ∧ t.parent = none ∧
      (shortPlan.assemble aroundPage).run {} = (.ok a, trail) ∧
      (renderCode (plainSetting.of aroundPage) a.code ⟨[], []⟩ #[]).world.references = [r] ∧
      (plainSetting.of aroundPage).placeOf r.line = "page:2" ∧
      shortPlan.TellsAll aroundPage t plainSetting a.code (World.start ⟨[], []⟩ #[]) ∧
      Caused (plainSetting.of aroundPage) a.code (World.start ⟨[], []⟩ #[]) r.line
        fun there _ after => there.references <+: [] ∧ [] ++ [r] <+: after.references := by
  obtain ⟨t, parsed, parentless⟩ := Except.exists_of_any (x := shortPlan.parse aroundPage)
    (P := fun t => t.parent = none) (by decide +kernel)
  obtain ⟨a, ran, reported⟩ := Except.exists_of_any
    (x := ((shortPlan.assemble aroundPage).run {}).1)
    (P := fun a =>
      (renderCode (plainSetting.of aroundPage) a.code ⟨[], []⟩ #[]).world.references =
        [⟨"missing", "Undefined variable 'missing'", 2, []⟩])
    (by decide +kernel)
  have assembled : (shortPlan.assemble aroundPage).run {} = (.ok a, _) := Prod.ext ran rfl
  obtain ⟨tells, caused, _⟩ :=
    renderCode_tellsAll assembled parsed parentless plainSetting ⟨[], []⟩ #[]
  exact ⟨t, a, _, _, parsed, parentless, assembled, reported, by decide, tells,
    caused [] _ [] reported⟩

/-- Whether a statement is no include, and evaluates nothing but a constant in the second line. -/
def isQuietThere : Stmt → Bool
  | .include _ _ => false
  | .text _ _ | .set _ _ (.const _ _) => true
  | own => own.pos.line != 2

theorem askingPage_asks : ∃ t a trail, shortPlan.parse askingPage = .ok t ∧ t.parent = none ∧
    (∀ own ∈ Stmt.partsOf t.body, isQuietThere own) ∧
    (shortPlan.assemble askingPage).run {} = (.ok a, trail) ∧
    (renderCode (plainSetting.of askingPage) a.code ⟨[], []⟩ #[]).world.references =
      [⟨"0", "Undefined attribute '0' on str", 2, ["n"]⟩] := by
  obtain ⟨t, parsed, parentless, quiet⟩ := Except.exists_of_any (x := shortPlan.parse askingPage)
    (P := fun t => t.parent = none ∧ ∀ own ∈ Stmt.partsOf t.body, isQuietThere own)
    (by decide +kernel)
  obtain ⟨a, ran, reported⟩ := Except.exists_of_any
    (x := ((shortPlan.assemble askingPage).run {}).1)
    (P := fun a =>
      (renderCode (plainSetting.of askingPage) a.code ⟨[], []⟩ #[]).world.references =
        [⟨"0", "Undefined attribute '0' on str", 2, ["n"]⟩])
    (by decide +kernel)
  exact ⟨t, a, _, parsed, parentless, quiet, Prod.ext ran rfl, reported⟩

theorem silent_of_isQuietThere {s : Setting} {own : Stmt} {c : Code} {here there after : World}
    {result : Except Fault Unit} (quiet : isQuietThere own) (line : own.pos.line = 2)
    (isTag : own.TagOf c) (does : c.Does s here there result after) : after = there := by
  cases isTag with
  | set =>
      rename_i value
      cases value with
      | const =>
          cases does with
          | evaluates evaluates run =>
              cases evaluates
              cases run
              rfl
      | _ => simp [isQuietThere, line] at quiet
  | _ => simp [isQuietThere, line] at quiet

theorem last_line_told : ¬ ∀ (p : Plan) (s : Source) (t : Template) (a : Assembled) (trail : Trail)
    (setting : Setting) (context : Context) (generators : Array (List Value)) (own : Stmt)
    (c : Code) (rest : List Code) (before here there after : World) (result : Except Fault Unit),
    (p.assemble s).run {} = (.ok a, trail) → p.parse s = .ok t → t.parent = none →
      own ∈ Stmt.partsOf t.body → own.TagOf c →
      Comes (setting.of s) a.code (World.start context generators)
        (.mark own.pos.line :: c :: rest) before →
      here = { before with line := own.pos.line } →
      c.Does (setting.of s) here there result after → there.line = own.pos.line := by
  intro sameLine
  obtain ⟨t, a, trail, parsed, parentless, quiet, assembled, reported⟩ := askingPage_asks
  rw [renderCode_world] at reported
  have recorded : _ = [] ++ _ :: [] := reported
  obtain ⟨c, here, there, result, after, reached, does, ⟨earlier, isReported⟩, line⟩ :=
    caused_of_reported List.nil_prefix recorded
  obtain ⟨told, _⟩ := Plan.tellsAll_of_assemble assembled parsed parentless plainSetting _
    c here there result after reached does
  cases told with
  | included isWritten _ _ _ _ => exact absurd (quiet _ isWritten) (by simp [isQuietThere])
  | own isWritten isTag come begins _ =>
      have same := sameLine _ _ _ _ _ plainSetting _ _ _ _ _ _ _ _ _ _ assembled parsed parentless
        isWritten isTag come begins does
      have none := silent_of_isQuietThere (quiet _ isWritten) (same.symm.trans line) isTag does
      rw [none, List.prefix_nil.mp earlier] at isReported
      cases isReported with
      | intro more impossible => cases impossible

end Stencil
