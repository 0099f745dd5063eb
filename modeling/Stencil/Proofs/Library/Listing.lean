import Stencil.Proofs.Library.SafeNames

/-!
What the listed templates of directories are. A listed name is the way from a directory to a file,
written with slashes. Where no name holds a backslash or begins like a drive, the first directory
that has the file is the one that is read, and only a file that lies in it is given.
-/

namespace Stencil

namespace FileTree

/-- Whether all names in a tree are names that files and directories can have. -/
def WellNamed (t : FileTree) : Prop :=
  ∀ e ∈ t.nodes, ∀ part ∈ e.1,
    (part ≠ "" ∧ part ≠ "." ∧ '/' ∉ part.toList) ∧ part ≠ ".." ∧ '\x00' ∉ part.toList

instance (t : FileTree) : Decidable t.WellNamed :=
  inferInstanceAs (Decidable (∀ e ∈ t.nodes, ∀ part ∈ e.1, _ ∧ _ ∧ _))

theorem mem_filesBelow {t : FileTree} {base relative : Path}
    (listed : relative ∈ t.filesBelow base) :
    relative ≠ [] ∧ t.isFile (base ++ relative) = true ∧
      ∃ e ∈ t.nodes, relative ⊆ e.1 := by
  rw [filesBelow] at listed
  split at listed
  · obtain ⟨⟨p, n⟩, isNode, found⟩ := List.mem_filterMap.mp listed
    dsimp only at found
    split at found
    · next given =>
        cases found
        simp only [Bool.and_eq_true, decide_eq_true_eq, List.isPrefixOf_iff_prefix] at given
        obtain ⟨⟨⟨rest, rfl⟩, below⟩, isFile⟩ := given
        rw [List.drop_left] at isFile ⊢
        refine ⟨?_, isFile, _, isNode, List.subset_append_right _ _⟩
        rintro rfl
        exact below (List.append_nil _)
    · cases found
  · cases listed

end FileTree

namespace FileContents

variable {contents : FileContents}

theorem text?_eq_some_iff {text : String} : contents.text? = some text ↔ contents = .ofText text := by
  cases contents with
  | locked => simp [text?, ofText]
  | bytes b =>
      rw [text?, ofText, bytes.injEq, String.fromUTF8?]
      split
      · next valid =>
          rw [Option.some.injEq]
          refine ⟨fun same => same ▸ rfl, ?_⟩
          rintro rfl
          rfl
      · next invalid =>
          refine ⟨(Option.some_ne_none _ ·.symm |>.elim), ?_⟩
          rintro rfl
          exact absurd text.isValidUTF8 invalid

theorem ofText_injective : Function.Injective ofText := by
  intro a b same
  have own : (ofText a).text? = some a := text?_eq_some_iff.mpr rfl
  exact Option.some.inj (own.symm.trans (text?_eq_some_iff.mpr same))

theorem text?_eq_none_iff : contents.text? = none ↔ ∀ text, contents ≠ .ofText text := by
  rw [Option.eq_none_iff_forall_ne_some]
  exact forall_congr' fun text => not_congr text?_eq_some_iff

end FileContents

/-- Whether a directory is the first one that has a file of a relative path, with its contents. -/
structure FirstFile (files : FileTree) (relative : Path) (roots : List Path) (root : Path)
    (contents : FileContents) : Prop where
  found : files.read? (root ++ relative) = some contents
  first : ∃ before after, roots = before ++ root :: after ∧
    ∀ other ∈ before, files.isFile (other ++ relative) = false

theorem FirstFile.exists {files : FileTree} {relative : Path} {roots : List Path} {root : Path}
    (member : root ∈ roots) (isFile : files.isFile (root ++ relative) = true) :
    ∃ root contents, FirstFile files relative roots root contents := by
  induction roots with
  | nil => exact absurd member List.not_mem_nil
  | cons head rest ih =>
      cases found : files.read? (head ++ relative) with
      | some contents =>
          exact ⟨head, contents, found, [], rest, rfl, fun _ member => nomatch member⟩
      | none =>
          have missing : files.isFile (head ++ relative) = false := by
            rw [FileTree.isFile, found]
            rfl
          have later : root ∈ rest := by
            rcases List.mem_cons.mp member with rfl | later
            · rw [missing] at isFile
              cases isFile
            · exact later
          obtain ⟨root, contents, found, before, after, rfl, first⟩ := ih later
          refine ⟨root, contents, found, head :: before, after, rfl, fun other member => ?_⟩
          rcases List.mem_cons.mp member with rfl | inBefore
          · exact missing
          · exact first other inBefore

namespace Loader

variable {files : FileTree} {name : String} {relative : Path} {roots : List Path}

theorem mem_sorted {names : List String} : name ∈ sorted names ↔ name ∈ names := by
  rw [sorted, List.mem_eraseDups, List.mem_mergeSort]

theorem mem_list_directories :
    name ∈ (directories roots).list files ↔
      ∃ root ∈ roots, ∃ relative ∈ files.filesBelow root,
        name = String.intercalate "/" relative := by
  rw [list, mem_sorted, names, List.mem_flatMap]
  simp only [List.mem_map, eq_comm]

/-- What is given for a file that was found: what is read from it, if it lies in the directory in
which it was looked for. -/
def answerFor (files : FileTree) (name : String) (relative root : Path) (contents : FileContents) :
    Except Fault Sheet :=
  if (files.resolve root).isPrefixOf (files.resolve (root ++ relative)) then
    contents.sheet ((files.resolve (root ++ relative)).text files.root)
  else .error (.diagnostic (NameFault.outside.diagnostic name))

theorem searchFile_of_firstFile (name : String) {root : Path} {contents : FileContents}
    (firstFile : FirstFile files relative roots root contents) :
    searchFile files name relative roots = some (answerFor files name relative root contents) := by
  obtain ⟨found, before, after, rfl, first⟩ := firstFile
  induction before with
  | nil =>
      simp only [List.nil_append, searchFile, found, answerFor]
      exact (apply_ite some _ _ _).symm
  | cons head rest ih =>
      have missing : files.read? (head ++ relative) = none := by
        simpa [FileTree.isFile] using first head List.mem_cons_self
      rw [List.cons_append, searchFile, missing]
      exact ih fun other member => first other (List.mem_cons_of_mem _ member)

theorem read_of_firstFile {safe : String} {root : Path} {contents : FileContents}
    (accepted : safeName name = .ok safe) (written : Path.ofText safe = relative)
    (firstFile : FirstFile files relative roots root contents) :
    (directories roots).read files name = answerFor files name relative root contents := by
  simp only [read, accepted, written, searchFile_of_firstFile name firstFile]

end Loader

/-! The name of a relative path. -/

namespace Path

theorem mem_intercalate {p : Path} {c : Char} (member : c ∈ (String.intercalate "/" p).toList) :
    c = '/' ∨ ∃ part ∈ p, c ∈ part.toList := by
  cases p with
  | nil => simp at member
  | cons part rest =>
      rw [← text, text_toList, List.mem_append] at member
      rcases member with inFirst | later
      · exact .inr ⟨part, List.mem_cons_self, inFirst⟩
      · obtain ⟨other, inRest, isChar⟩ := List.mem_flatMap.mp later
        rcases List.mem_cons.mp isChar with isSlash | inOther
        · exact .inl isSlash
        · exact .inr ⟨other, List.mem_cons_of_mem _ inRest, inOther⟩

theorem Proper.intercalate_cons {p : Path} (proper : p.Proper) (nonempty : p ≠ []) :
    ∃ c cs, (String.intercalate "/" p).toList = c :: cs ∧ c ≠ '/' := by
  cases p with
  | nil => exact absurd rfl nonempty
  | cons part rest =>
      obtain ⟨named, _, plain⟩ := proper part List.mem_cons_self
      cases hchars : part.toList with
      | nil => exact absurd (String.toList_eq_nil_iff.mp hchars) named
      | cons c cs =>
          refine ⟨c, cs ++ chars rest, ?_, ?_⟩
          · rw [← text, text_toList, hchars, List.cons_append]
          · rintro rfl
            exact plain (by simp [hchars])

end Path

theorem withSlashes_of_noBackslash {cs : List Char} (noBackslash : '\\' ∉ cs) :
    withSlashes cs = cs := by
  induction cs with
  | nil => rfl
  | cons c cs ih =>
      simp only [List.mem_cons, not_or] at noBackslash
      rw [withSlashes_cons, if_neg (Ne.symm noBackslash.1), ih noBackslash.2]

theorem safeName_intercalate {p : Path} (proper : p.Proper) (nonempty : p ≠ [])
    (others : ∀ part ∈ p, part ≠ ".." ∧ '\x00' ∉ part.toList)
    (noBackslash : '\\' ∉ (String.intercalate "/" p).toList)
    (noDrive : hasDrive (String.intercalate "/" p).toList = false) :
    safeName (String.intercalate "/" p) = .ok (String.intercalate "/" p) := by
  have same := withSlashes_of_noBackslash noBackslash
  obtain ⟨c, cs, written, noSlash⟩ := proper.intercalate_cons nonempty
  refine safeName_eq_ok_iff.mpr ⟨⟨?_, ?_, ?_, ?_, ?_⟩, by rw [same, String.ofList_toList]⟩
  · intro empty
    rw [empty] at written
    cases written
  · intro member
    rcases Path.mem_intercalate member with isSlash | ⟨part, inPath, inPart⟩
    · cases isSlash
    · exact (others part inPath).2 inPart
  · rw [written]
    rintro d ⟨⟩
    refine ⟨noSlash, ?_⟩
    rintro rfl
    exact noBackslash (by simp [written])
  · intro letter rest isDrive alpha
    rw [hasDrive_iff.mpr ⟨letter, rest, isDrive, alpha⟩] at noDrive
    cases noDrive
  · rw [nameParts, ← splitParts_withSlashes, same, Path.splitParts_intercalate proper nonempty]
    intro member
    obtain ⟨part, inPath, isBack⟩ := List.mem_map.mp member
    exact (others part inPath).1 (String.toList_inj.mp isBack)

namespace Loader

variable {files : FileTree} {name : String} {roots : List Path}

/-- A link within the first directory hides a file of the same name in the second one. -/
def twoDirectories : FileTree :=
  ⟨"/srv", [(["custom"], .directory 0), (["custom", "real"], .file (.ofText "text") 0),
    (["custom", "link"], .link ["custom", "real"]), (["default"], .directory 0),
    (["default", "link"], .file (.ofText "hidden") 0)]⟩

/-- Whether each listed name gives the contents of the first file of that relative path as they
are. -/
def ListsReadable (files : FileTree) (roots : List Path) : Prop :=
  ∀ name ∈ (directories roots).list files, ∃ relative root text filename,
    name = String.intercalate "/" relative ∧
    FirstFile files relative roots root (.ofText text) ∧
    (directories roots).read files name = .ok ⟨text, filename⟩

theorem not_listsReadable_of_error {fault : Fault}
    (listed : name ∈ (directories roots).list files)
    (refused : (directories roots).read files name = .error fault) :
    ¬ ListsReadable files roots := by
  intro readable
  obtain ⟨_, _, _, _, _, _, given⟩ := readable name listed
  rw [refused] at given
  cases given

def outward : FileTree :=
  ⟨"/srv", [(["t"], .directory 0), (["t", "link"], .link ["secret"]),
    (["secret"], .file (.ofText "hidden") 0)]⟩

def oneFile (name : String) (contents : FileContents) : FileTree :=
  ⟨"/srv", [(["t"], .directory 0), (["t", name], .file contents 0)]⟩

theorem oneFile_contents {file : String} {contents found : FileContents} {p : Path}
    (read : (oneFile file contents).read? p = some found) : found = contents := by
  obtain ⟨changed, _, _, node⟩ := FileTree.read?_eq_some read
  generalize (oneFile file contents).resolve p = q at node
  cases q with
  | nil => cases node
  | cons part rest =>
      simp only [FileTree.node?, oneFile, List.lookup_cons] at node
      split at node
      · cases node
      · split at node
        · cases node
          rfl
        · cases node

end Loader

end Stencil
