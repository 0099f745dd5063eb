import Stencil.Environment.Render
import Stencil.Proofs.Assembly.Tags
import Stencil.Proofs.Grammar.RoundTrip
import Stencil.Proofs.Inheritance.Supply

/-!
The places that a render records. The lines are those of the tags that were carried out, whatever
source of a chain these are written in; the names and the lines shown beside them are always those
of the source that is rendered.
-/

namespace Stencil

namespace Setting

def of (setting : Setting) (s : Source) : Setting :=
  { setting with name := s.name, filename := s.filename, source := s.text }

/-- Whether what is recorded at a line is what a render of a source itself records at the line of
one of its statements. -/
structure Locates (setting : Setting) (line : Nat) (file : Source) (own : Stmt) : Prop where
  atTag : line = own.pos.line
  name : setting.name = file.name
  place : setting.placeOf line = (setting.of file).placeOf own.pos.line
  snippet : setting.snippetAt line = (setting.of file).snippetAt own.pos.line

theorem locates_own (setting : Setting) (s : Source) {line : Nat} {own : Stmt}
    (same : line = own.pos.line) : (setting.of s).Locates line s own where
  atTag := same
  name := rfl
  place := by rw [same]; rfl
  snippet := by rw [same]; rfl

end Setting

namespace Plan

variable {p : Plan} {s : Source} {setting : Setting}

/-- Whether something that happens in a render of a source, and is recorded at a line, comes from a
tag of one of the sources of its chain. The record locates the tag if that source is the one that is
rendered, and only then. Nothing is said of the line where a `while` asks its condition again, after
a round. -/
def Attributes (p : Plan) (s : Source) (setting : Setting) (code : List Code) (start : World)
    (line : Nat) (happened : World → Except Fault Unit → World → Prop) : Prop :=
  ∃ file own c here there result after,
    happened there result after ∧ p.Supplies s file own ∧ own.TagOf c ∧
      Reaches (setting.of s) code start c here ∧
      c.Does (setting.of s) here there result after ∧
      (c.AfterRound (setting.of s) here there ∨
        line = own.pos.line ∧ (file = s → (setting.of s).Locates line file own)) ∧
      ((setting.of s).Locates line file own → file = s ∨ s.name = some "")

/-- Whether a line and a statement of code are those of a tag that a source of a chain supplies. -/
def IsSupplied (p : Plan) (s : Source) (line : Nat) (c : Code) : Prop :=
  ∃ file own, p.Supplies s file own ∧ own.TagOf c ∧ own.pos.line = line

theorem marked_of_assemble {a : Assembled} {trail : Trail}
    (assembled : (p.assemble s).run {} = (.ok a, trail))
    (noIncludes : ∀ file pos name, ¬ p.Supplies s file (.include pos name)) :
    Code.MarkedAll (p.IsSupplied s) a.code := by
  obtain ⟨t, flat, parsed, flattened, runBody, _⟩ := assemble_ok assembled
  have suits : ∀ part ∈ Stmt.partsOf flat.1.body, part.Suits (p.IsSupplied s) := by
    intro part member
    obtain ⟨file, own, supplies, same⟩ := supplied_of_flatten parsed flattened member
    refine ⟨?_, fun c isTag => ?_⟩
    · rintro pos name rfl
      cases own <;> simp only [Stmt.shell, reduceCtorEq, Stmt.include.injEq] at same
      exact noIncludes file _ _ supplies
    · obtain ⟨ownTag, placed⟩ := isTag.of_shell same
      exact ⟨file, own, supplies, ownTag, congrArg Pos.line placed⟩
  exact ((assembleAll_marked flat.1.body suits).run_ok trivial runBody).2

/-- What a statement does itself is attributed to the tag that it was assembled from. -/
theorem attributes_of_does {a : Assembled} {trail : Trail}
    (assembled : (p.assemble s).run {} = (.ok a, trail))
    (noIncludes : ∀ file pos name, ¬ p.Supplies s file (.include pos name))
    {happened : World → Except Fault Unit → World → Prop} {c : Code}
    {start here there after : World} {result : Except Fault Unit}
    (reached : Reaches (setting.of s) a.code start c here)
    (does : c.Does (setting.of s) here there result after)
    (happens : happened there result after) :
    p.Attributes s setting a.code start there.line happened := by
  have marked := marked_of_assemble assembled noIncludes
  obtain ⟨file, own, supplies, isTag, placed⟩ := reached.suits (.marked marked) does
  obtain ⟨t, flat, parsed, flattened, _⟩ := assemble_ok assembled
  refine ⟨file, own, c, here, there, result, after, happens, supplies, isTag, reached, does, ?_,
    fun located => supplies.eq_of_name parsed flattened located.name⟩
  rcases does.line with same | isAgain
  · have atTag : there.line = own.pos.line := same.trans placed.symm
    refine .inr ⟨atTag, ?_⟩
    rintro rfl
    exact setting.locates_own file atTag
  · exact .inl isAgain

end Plan

theorem renderCode_world (s : Setting) (code : List Code) (context : Context)
    (generators : Array (List Value)) :
    (renderCode s code context generators).world =
      ((executeAll s code).run (World.start context generators)).2 := by
  unfold renderCode
  split
  · next written w run => rw [run]
  · next fault w run => rw [run]

theorem renderCode_error {s : Setting} {code : List Code} {context : Context}
    {generators : Array (List Value)} {fault : Fault} {u : World}
    (run : (executeAll s code).run (World.start context generators) = (.error fault, u)) :
    renderCode s code context generators = ⟨.error (s.renderError u.line fault), u⟩ := by
  rw [renderCode, run]

/-- In a render of a source without includes, each missing reference and each fault is attributed to
the tag that was carried out: it is recorded rightly if the tag is written in the source that is
rendered, and under a wrong name if it is written in a parent. -/
theorem renderCode_attributes {p : Plan} {s : Source} {a : Assembled} {trail : Trail}
    (assembled : (p.assemble s).run {} = (.ok a, trail))
    (noIncludes : ∀ file pos name, ¬ p.Supplies s file (.include pos name))
    (setting : Setting) (context : Context) (generators : Array (List Value)) :
    (∀ before r later,
      (renderCode (setting.of s) a.code context generators).world.references =
        before ++ r :: later →
      p.Attributes s setting a.code (World.start context generators) r.line fun there _ after =>
        there.references <+: before ∧ before ++ [r] <+: after.references) ∧
    ∀ fault u,
      (executeAll (setting.of s) a.code).run (World.start context generators) =
        (.error fault, u) → fault ≠ .endless →
      renderCode (setting.of s) a.code context generators =
        ⟨.error ((setting.of s).renderError u.line fault), u⟩ ∧
      p.Attributes s setting a.code (World.start context generators) u.line fun _ result after =>
        result = .error fault ∧ after = u := by
  have traced := executeAll_traced_reaches (s := setting.of s) a.code
    (World.start context generators)
  constructor
  · intro before r later split
    rw [renderCode_world] at split
    have new : before ++ [r] <+: before ++ r :: later := ⟨later, by simp⟩
    rw [← split] at new
    obtain ⟨there, result, after, ⟨c, here, reached, does⟩, old, reported⟩ :=
      traced.reported before r List.nil_prefix new
    rw [does.atLine.mem_reports old reported]
    exact Plan.attributes_of_does assembled noIncludes reached does ⟨old, reported⟩
  · intro fault u run unending
    refine ⟨renderCode_error run, ?_⟩
    rw [run] at traced
    obtain ⟨there, c, here, reached, does⟩ := traced.failed fault rfl unending
    rw [does.atLine.line]
    exact Plan.attributes_of_does assembled noIncludes reached does ⟨rfl, rfl⟩

/-! A page that writes nothing but the name of its parent. -/

def shortPage : Source := ⟨"\x7b% extends 'base' %\x7d", some "page", none⟩

def longBase : Source := ⟨"<p>\n<b>\n\x7b\x7b missing \x7d\x7d", some "base", none⟩

def shortTemplate : Template := ⟨[], some ⟨⟨1, 3⟩, "base"⟩⟩

def longTemplate : Template where
  body := [.text ⟨1, 0⟩ "<p>\n<b>\n", .output ⟨3, 0⟩ (.name ⟨3, 3⟩ "missing") true]
  parent := none

def shortPlan : Plan where
  library :=
    { read := fun name =>
        if name = "base" then .ok ⟨longBase.text, none⟩ else .error (.failure name)
      bound := 1 }
  registries := .builtin
  limits := {}

theorem shortPage_parsed : shortPlan.parse shortPage = .ok shortTemplate := by
  have accepted : TokenStream.ofSource? shortPage.text.toList = .ok
      ⟨[⟨.opening .statement, "\x7b%", ⟨1, 0⟩⟩, ⟨.name, "extends", ⟨1, 3⟩⟩,
        ⟨.string, "base", ⟨1, 11⟩⟩, ⟨.closing .statement, "%\x7d", ⟨1, 18⟩⟩], ⟨1, 20⟩⟩ := by
    decide +kernel
  have written : shortPage.template shortPlan.limits.nesting = .ok shortTemplate :=
    Source.template_of_tokens (by rw [Source.tokens, accepted]) rfl
  rw [Plan.parse, written]

theorem longBase_parsed : shortPlan.parse longBase = .ok longTemplate := by
  have accepted : TokenStream.ofSource? longBase.text.toList = .ok
      ⟨[⟨.data, "<p>\n<b>\n", ⟨1, 0⟩⟩, ⟨.opening .escaped, "\x7b\x7b", ⟨3, 0⟩⟩,
        ⟨.name, "missing", ⟨3, 3⟩⟩, ⟨.closing .escaped, "\x7d\x7d", ⟨3, 11⟩⟩], ⟨3, 13⟩⟩ := by
    decide +kernel
  have written : longBase.template shortPlan.limits.nesting = .ok longTemplate :=
    Source.template_of_tokens (by rw [Source.tokens, accepted]) rfl
  rw [Plan.parse, written]

theorem parent_of_shortPage {parent : Source} (isParent : shortPlan.Extends shortPage parent) :
    parent = longBase := by
  obtain ⟨t, q, sheet, parsed, hparent, read, rfl⟩ := isParent
  rw [shortPage_parsed] at parsed
  cases parsed
  cases hparent
  have isThere := (Plan.sheet_ok.mp read).1
  cases isThere
  rfl

theorem longBase_last (parent : Source) : ¬ shortPlan.Extends longBase parent := by
  rintro ⟨t, q, sheet, parsed, hparent, _⟩
  rw [longBase_parsed] at parsed
  cases parsed
  cases hparent

theorem supplied_by_longBase {file : Source} {own : Stmt}
    (supplies : shortPlan.Supplies shortPage file own) :
    file = longBase ∧ own ∈ longTemplate.body := by
  cases supplies with
  | last ends member =>
      cases ends with
      | here parsed hparent =>
          rw [shortPage_parsed] at parsed
          cases parsed
          cases hparent
      | further isParent ends =>
          cases parent_of_shortPage isParent
          cases ends with
          | here parsed _ =>
              rw [longBase_parsed] at parsed
              cases parsed
              exact ⟨rfl, member⟩
          | further isParent _ => exact (longBase_last _ isParent).elim
  | block overrides member =>
      cases overrides with
      | here _ parsed found =>
          rw [shortPage_parsed] at parsed
          cases parsed
          cases found
      | further isParent _ _ overrides =>
          cases parent_of_shortPage isParent
          cases overrides with
          | here isParent _ _ => exact (longBase_last _ isParent).elim
          | further isParent _ _ _ => exact (longBase_last _ isParent).elim

theorem shortPage_noIncludes (file : Source) (p : Pos) (name : String) :
    ¬ shortPlan.Supplies shortPage file (.include p name) := by
  intro supplies
  obtain ⟨_, member⟩ := supplied_by_longBase supplies
  simp [longTemplate] at member

theorem shortPage_assembles : ∃ a trail, (shortPlan.assemble shortPage).run {} = (.ok a, trail) ∧
    (renderCode (plainSetting.of shortPage) a.code ⟨[], []⟩ #[]).world.references =
      [⟨"missing", "Undefined variable 'missing'", 3, []⟩] := by
  have reported : (((shortPlan.assemble shortPage).run {}).1.toOption.map fun a =>
      (renderCode (plainSetting.of shortPage) a.code ⟨[], []⟩ #[]).world.references) =
    some [⟨"missing", "Undefined variable 'missing'", 3, []⟩] := by decide +kernel
  cases assembled : (shortPlan.assemble shortPage).run {} with
  | mk result trail =>
      rw [assembled] at reported
      cases result with
      | error fault => cases reported
      | ok a => exact ⟨a, trail, rfl, Option.some.inj reported⟩

theorem renderCode_attributes_shortPage : ∃ a trail r,
    (shortPlan.assemble shortPage).run {} = (.ok a, trail) ∧
      (renderCode (plainSetting.of shortPage) a.code ⟨[], []⟩ #[]).world.references = [r] ∧
      (plainSetting.of shortPage).placeOf r.line = "page:3" ∧
      shortPlan.Attributes shortPage plainSetting a.code (World.start ⟨[], []⟩ #[]) r.line
        fun there _ after => there.references <+: [] ∧ [] ++ [r] <+: after.references := by
  obtain ⟨a, trail, assembled, reported⟩ := shortPage_assembles
  refine ⟨a, trail, _, assembled, reported, by decide, ?_⟩
  exact (renderCode_attributes assembled shortPage_noIncludes plainSetting _ _).1 [] _ [] reported

theorem missing_not_located : ¬∀ (p : Plan) (s : Source) (a : Assembled) (trail : Trail)
    (setting : Setting) (context : Context) (generators : Array (List Value))
    (before later : List Reference) (r : Reference),
    (p.assemble s).run {} = (.ok a, trail) →
      (∀ file pos name, ¬ p.Supplies s file (.include pos name)) →
      (renderCode (setting.of s) a.code context generators).world.references =
        before ++ r :: later →
      ∃ file own c, p.Supplies s file own ∧ own.TagOf c ∧
        (setting.of s).Locates r.line file own := by
  intro allLocated
  obtain ⟨a, trail, assembled, reported⟩ := shortPage_assembles
  obtain ⟨file, own, c, supplies, _, located⟩ :=
    allLocated _ _ _ _ plainSetting _ _ [] [] _ assembled shortPage_noIncludes reported
  obtain ⟨rfl, _⟩ := supplied_by_longBase supplies
  exact absurd located.name (by decide)

end Stencil
