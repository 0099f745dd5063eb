import Stencil.Proofs.Cache.Freshness

/-!
The dependencies of an assembled template. If nothing is missing, they are all the files that it was
made from: a template is assembled alike where these have the same contents, and where no other file
can be read at all.
-/

namespace Stencil

/-- The library that refuses all files but some, in one way or another. -/
def Library.confined (l : Library) (files : List String) (refusal : Fault) : Library where
  read name :=
    match l.read name with
    | .ok sheet => if sheet.filename.any files.contains then .ok sheet else .error refusal
    | .error fault => .error fault
  bound := l.bound

namespace Plan

variable {p q : Plan} {s : Source} {a : Assembled} {u : Trail}

def confined (p : Plan) (files : List String) (refusal : Fault) : Plan :=
  { p with library := p.library.confined files refusal }

def FileBacked (p : Plan) : Prop :=
  ∀ name sheet, p.library.read name = .ok sheet → ∃ file, file ≠ "" ∧ sheet.filename = some file

/-- Whether each name leads to the same file in two plans, or is missing in both, and some files
have the same contents. -/
structure Coincides (p q : Plan) (files : List String) : Prop where
  leads : ∀ name file, q.LeadsTo name file ↔ p.LeadsTo name file
  contents : ∀ name sheet sheet' file, file ∈ files →
    p.library.read name = .ok sheet → sheet.filename = some file →
    q.library.read name = .ok sheet' → sheet'.filename = some file → sheet'.text = sheet.text

def SameSheet (p q : Plan) (name : String) : Prop :=
  ∀ sheet, p.sheet name = .ok sheet → q.sheet name = .ok sheet

theorem SameSheet.sameText {name : String} (same : SameSheet p q name) : SameText p q name :=
  fun sheet hsheet => ⟨sheet, same sheet hsheet, rfl⟩

theorem found_same (shares : Shares p q) {name : String} (same : SameSheet p q name)
    {found : Found} (h : p.found name = .ok found) : q.found name = .ok found := by
  obtain ⟨sheet, hsheet, hparse, hfile⟩ := found_ok h
  rw [found_of_sheet (same sheet hsheet) (parse_carries shares rfl hparse), ← hfile]

theorem flatten_same (shares : Shares p q) {t : Template} {name : String}
    {flat : Template × List String} (h : p.flatten t name = .ok flat)
    (same : ∀ read, Chain.Ancestor p.found t read → SameSheet p q read) :
    q.flatten t name = .ok flat := by
  rw [flatten, shares.limits]
  exact Chain.flatten_same h fun _ _ isAncestor hfound =>
    found_same shares (same _ isAncestor) hfound

theorem flattened_same (shares : Shares p q) {name : String} {flat : Template × List String}
    (h : p.flattened name = .ok flat) (own : SameSheet p q name)
    (same : ∀ found read, p.found name = .ok found → Chain.Ancestor p.found found.template read →
      SameSheet p q read) :
    q.flattened name = .ok flat := by
  obtain ⟨found, inner, hfound, hflatten, rfl⟩ := flattened_ok h
  refine flattened_of_found (found_same shares own hfound) ?_
  exact flatten_same shares hflatten fun read isAncestor => same found read hfound isAncestor

theorem Reads.ancestor_of {name read other : String} {t : Template} {found : Found}
    (reads : p.Reads name t read) (hfound : p.found read = .ok found)
    (isAncestor : Chain.Ancestor p.found found.template other) : p.Reads name t other := by
  induction reads with
  | ancestor toRead => exact .ancestor (toRead.trans hfound isAncestor)
  | included hflatten member => exact .within hflatten member hfound (.ancestor isAncestor)
  | within hflatten member hinner _ ih => exact .within hflatten member hinner (ih hfound)

/-- A template is assembled alike where all that is read for it leads to the same sheets. -/
theorem assemble_same (shares : Shares p q) (run : (p.assemble s).run {} = (.ok a, u))
    (complete : a.complete)
    (same : ∀ t read, p.parse s = .ok t → p.Reads (firstGiven [s.name] "<string>") t read →
      SameSheet p q read) :
    (q.assemble s).run {} = (.ok a, u) := by
  obtain ⟨t, whole, hparse, hflatten, _, _, dependencies, hcomplete⟩ := assemble_ok run
  have sameReads := fun read => same t read hparse
  obtain ⟨flat, unfolded⟩ := Unfolded.of_assemble run complete hparse
  have unfolded' : q.Unfolded s t flat :=
    unfolded.carries shares rfl rfl fun read reads => (sameReads read reads).sameText
  have notes : ∀ read, p.Reads (firstGiven [s.name] "<string>") t read → Notes Eq p q read := by
    intro read reads flat flat' hflat hflat' trail trail' same
    rw [flattened_same shares hflat (sameReads read reads) fun found other hfound isAncestor =>
      sameReads other (reads.ancestor_of hfound isAncestor)] at hflat'
    cases hflat'
    rw [same]
  obtain ⟨a', u', run', sameCode, rfl⟩ := unfolded.assemble_carries shares run unfolded'
    (fun read reads => (sameReads read reads).sameText) notes rfl
  obtain ⟨t', whole', hparse', hflatten', _, _, dependencies', hcomplete'⟩ := assemble_ok run'
  -- The parents lead to the same files, so the same dependencies are listed.
  rw [parse_carries shares rfl hparse] at hparse'
  cases hparse'
  rw [flatten_same shares hflatten fun read isAncestor =>
    sameReads read (.ancestor isAncestor)] at hflatten'
  cases hflatten'
  rw [run']
  have sameAll : a' = a := by
    cases a'
    cases a
    simp_all
  rw [sameAll]

theorem Reads.listed (backed : p.FileBacked) (run : (p.assemble s).run {} = (.ok a, u))
    (complete : a.complete) {t : Template} (hparse : p.parse s = .ok t) {read : String}
    (reads : p.Reads (firstGiven [s.name] "<string>") t read) {sheet : Sheet}
    (hsheet : p.sheet read = .ok sheet) :
    ∃ file ∈ a.dependencies, sheet.filename = some file := by
  obtain ⟨target, htarget, listed⟩ := reads.found_of_assemble run complete hparse
  obtain ⟨sheet', hsheet', _, filename⟩ := found_ok htarget
  rw [hsheet] at hsheet'
  cases hsheet'
  obtain ⟨file, named, hfile⟩ := backed read sheet (sheet_ok.mp hsheet).1
  refine ⟨file, listed ?_, hfile⟩
  simp [Chain.addedFiles, filename, hfile, named]

theorem Coincides.sameSheet (shares : Shares p q) (coincides : Coincides p q a.dependencies)
    {read file : String} {sheet : Sheet} (hsheet : p.sheet read = .ok sheet)
    (listed : file ∈ a.dependencies) (hfile : sheet.filename = some file) :
    q.sheet read = .ok sheet := by
  obtain ⟨given, small⟩ := sheet_ok.mp hsheet
  obtain ⟨sheet', given', hfile'⟩ := (coincides.leads read file).mpr ⟨sheet, given, hfile⟩
  have text := coincides.contents read sheet sheet' file listed given hfile given' hfile'
  have same : sheet' = sheet := by
    cases sheet'
    cases sheet
    simp_all
  rw [same] at given'
  exact sheet_ok.mpr ⟨given', by rwa [shares.limits]⟩

theorem sheet_confined {files : List String} {refusal : Fault} {read file : String} {sheet : Sheet}
    (hsheet : p.sheet read = .ok sheet) (listed : file ∈ files)
    (hfile : sheet.filename = some file) :
    (p.confined files refusal).sheet read = .ok sheet := by
  obtain ⟨given, small⟩ := sheet_ok.mp hsheet
  refine sheet_ok.mpr ⟨?_, small⟩
  simp [confined, Library.confined, given, hfile, listed]

end Plan

def Assembled.loaded (a : Assembled) (s : Source) : Loaded :=
  ⟨s.name, s.filename, s.text, a.code, false, a.dependencies⟩

namespace Engine

def overLibrary (e : Engine) (loader : Option Loader) (files : FileTree) : Engine :=
  { e with env := { e.env with loader }, files }

theorem renderLoaded_overLibrary (t : Loaded) (fill : Context → Context) (e : Engine)
    (loader : Option Loader) (files : FileTree) :
    ((renderLoaded t fill).run (e.overLibrary loader files)).1 =
      ((renderLoaded t fill).run e).1 := by
  rw [renderLoaded, Step.run_bind, Step.run_get, Step.run_bind, Step.run_get]
  simp only
  rw [Step.run_bind, Step.run_set, Step.run_bind, Step.run_set]
  simp only [overLibrary, settingOf, Environment.isStrict]
  split
  · simp_all
  · simp_all

end Engine

open Plan in
/-- A source that is assembled with nothing missing is assembled again, with the same dependencies,
wherever these have the same contents, and renders alike. No other file was read for it. -/
theorem assembled_of_dependencies {p q : Plan} (shares : p.Shares q) (backed : p.FileBacked)
    {s : Source} {a : Assembled} {u : Trail} (run : (p.assemble s).run {} = (.ok a, u))
    (complete : a.complete) (coincides : p.Coincides q a.dependencies) :
    (∃ a' u', (q.assemble s).run {} = (.ok a', u') ∧ a'.complete ∧
        a'.dependencies = a.dependencies ∧
        ∀ (fill : Context → Context) (e : Engine) (loader : Option Loader) (files : FileTree),
          ((Engine.renderLoaded (a'.loaded s) fill).run (e.overLibrary loader files)).1 =
            ((Engine.renderLoaded (a.loaded s) fill).run e).1) ∧
      ∀ refusal, ((p.confined a.dependencies refusal).assemble s).run {} = (.ok a, u) := by
  constructor
  · have again : (q.assemble s).run {} = (.ok a, u) := by
      refine assemble_same shares run complete fun t read hparse reads sheet hsheet => ?_
      obtain ⟨file, listed, hfile⟩ := reads.listed backed run complete hparse hsheet
      exact coincides.sameSheet shares hsheet listed hfile
    refine ⟨a, u, again, complete, rfl, fun fill e loader files => ?_⟩
    exact Engine.renderLoaded_overLibrary _ fill e loader files
  · intro refusal
    have shares : Shares p (p.confined a.dependencies refusal) := ⟨rfl, rfl⟩
    refine assemble_same shares run complete fun t read hparse reads sheet hsheet => ?_
    obtain ⟨file, listed, hfile⟩ := reads.listed backed run complete hparse hsheet
    exact sheet_confined hsheet listed hfile

/-- Files for a page that fills a block of `base` with an include of `part`, and one beside them. -/
def pageFiles (aside : String) : Plan where
  library :=
    { read := fun name =>
        match name with
        | "base" => .ok ⟨"<\x7b% block inner %\x7d\x7b% end %\x7d>", some "/files/base"⟩
        | "part" => .ok ⟨"part", some "/files/part"⟩
        | "aside" => .ok ⟨aside, some "/files/aside"⟩
        | _ => .error (.diagnostic (.missing name))
      bound := 3 }
  registries := .builtin
  limits := {}

def pageSource : Source where
  text := "\x7b% extends \"base\" %\x7d\x7b% block inner %\x7d" ++
    "\x7b% include \"part\" %\x7d\x7b% end %\x7d"
  name := some "page"
  filename := none

theorem pageFiles_backed (aside : String) : (pageFiles aside).FileBacked := by
  intro name sheet given
  simp only [pageFiles] at given
  split at given
  · cases given
    exact ⟨_, by decide, rfl⟩
  · cases given
    exact ⟨_, by decide, rfl⟩
  · cases given
    exact ⟨_, by decide, rfl⟩
  · cases given

theorem pageFiles_coincides (aside other : String) :
    (pageFiles aside).Coincides (pageFiles other) ["/files/base", "/files/part"] := by
  refine ⟨fun name file => ?_, fun name sheet sheet' file listed given hfile given' _ => ?_⟩
  · simp only [Plan.LeadsTo, pageFiles]
    split <;> simp
  · simp only [pageFiles] at given given'
    split at given
    · cases given
      cases given'
      rfl
    · cases given
      cases given'
      rfl
    · cases given
      cases hfile
      simp at listed
    · cases given

theorem assembled_of_dependencies_page : ∃ a u,
    ((pageFiles "old").assemble pageSource).run {} = (.ok a, u) ∧ a.complete ∧
      a.dependencies = ["/files/base", "/files/part"] ∧
      (∃ a' u', ((pageFiles "new").assemble pageSource).run {} = (.ok a', u') ∧ a'.complete ∧
        a'.dependencies = a.dependencies ∧
        ∀ (fill : Context → Context) (e : Engine) (loader : Option Loader) (files : FileTree),
          ((Engine.renderLoaded (a'.loaded pageSource) fill).run (e.overLibrary loader files)).1 =
            ((Engine.renderLoaded (a.loaded pageSource) fill).run e).1) ∧
      ∀ refusal, (((pageFiles "old").confined a.dependencies refusal).assemble pageSource).run {} =
        (.ok a, u) := by
  have given : (((pageFiles "old").assemble pageSource).run {}).1.toOption.map (fun a =>
      (a.complete, a.dependencies)) = some (true, ["/files/base", "/files/part"]) := by
    decide +kernel
  cases run : ((pageFiles "old").assemble pageSource).run {} with
  | mk result u =>
      cases result with
      | error fault =>
          rw [run] at given
          cases given
      | ok a =>
          rw [run] at given
          obtain ⟨complete, listed⟩ := Prod.mk.inj (Option.some.inj given)
          have coincides : (pageFiles "old").Coincides (pageFiles "new") a.dependencies := by
            rw [listed]
            exact pageFiles_coincides "old" "new"
          have shares : (pageFiles "old").Shares (pageFiles "new") := ⟨rfl, rfl⟩
          exact ⟨a, u, rfl, complete, listed,
            assembled_of_dependencies shares (pageFiles_backed "old") run complete coincides⟩

end Stencil
