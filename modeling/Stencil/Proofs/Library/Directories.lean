import Stencil.Library.Loader
import Stencil.Proofs.Files.Kept

namespace Stencil

theorem FileContents.sheet_ok {contents : FileContents} {path : String} {sheet : Sheet}
    (given : contents.sheet path = .ok sheet) :
    ∃ text, contents.text? = some text ∧
      sheet = ⟨String.ofList (unifyLineEnds text.toList), some path⟩ := by
  rw [FileContents.sheet] at given
  split at given
  · next text decoded =>
      cases given
      exact ⟨text, decoded, rfl⟩
  · cases given

/-- Where a source was found in a tree of files. -/
structure FoundAt (files : FileTree) (p : Path) (sheet : Sheet) : Prop where
  straight : files.Straight p
  proper : p.Proper
  file : ∃ contents text changed, files.node? p = some (.file contents changed) ∧
    contents.text? = some text ∧
    sheet = ⟨String.ofList (unifyLineEnds text.toList), some (p.text files.root)⟩

namespace FoundAt

variable {files files' : FileTree} {p p' : Path} {sheet sheet' : Sheet}

theorem filename (found : FoundAt files p sheet) : sheet.filename = some (p.text files.root) := by
  obtain ⟨_, _, _, _, _, rfl⟩ := found.file
  rfl

theorem pathOf (found : FoundAt files p sheet) : files.pathOf (p.text files.root) = p :=
  FileTree.pathOf_text found.proper

theorem isFile (found : FoundAt files p sheet) : files.isFile p := by
  obtain ⟨contents, text, changed, node, _⟩ := found.file
  rw [FileTree.isFile, FileTree.read?_of_straight found.straight node]
  rfl

theorem filename_ne_empty (found : FoundAt files p sheet) : p.text files.root ≠ "" := by
  refine FileTree.text_ne_empty fun atRoot => ?_
  obtain ⟨contents, text, changed, node, _⟩ := found.file
  rw [atRoot, FileTree.node?] at node
  cases node

theorem unique (found : FoundAt files p sheet) (found' : FoundAt files' p' sheet')
    (root : files'.root = files.root) (same : sheet'.filename = sheet.filename)
    (unchanged : files'.node? p = files.node? p) : sheet' = sheet := by
  rw [found.filename, found'.filename, Option.some.injEq] at same
  have samePath : p' = p := by
    have read := found'.pathOf
    rw [same, FileTree.pathOf, root, ← FileTree.pathOf, found.pathOf] at read
    exact read.symm
  subst samePath
  obtain ⟨contents, text, changed, node, decoded, rfl⟩ := found.file
  obtain ⟨contents', text', changed', node', decoded', rfl⟩ := found'.file
  rw [node', node] at unchanged
  cases unchanged
  rw [decoded'] at decoded
  cases decoded
  rw [root]

end FoundAt

namespace Loader

/-- Whether a loader takes all of its templates from directories. -/
inductive SearchesFiles : Loader → Prop
  | directories {roots : List Path} :
      (∀ root ∈ roots, root.Proper) → SearchesFiles (directories roots)
  | firstOf {loaders : List Loader} :
      (∀ l ∈ loaders, SearchesFiles l) → SearchesFiles (firstOf loaders)

section Read

variable {files files' : FileTree} {name : String} {relative : Path} {sheet : Sheet}

theorem foundAt_resolve (links : files.LinksProper) {p : Path} (proper : p.Proper)
    {contents : FileContents} (hread : files.read? p = some contents)
    (given : contents.sheet ((files.resolve p).text files.root) = .ok sheet) :
    FoundAt files (files.resolve p) sheet := by
  obtain ⟨changed, straight, resolved, node⟩ := FileTree.read?_eq_some hread
  obtain ⟨text, decoded, rfl⟩ := FileContents.sheet_ok given
  exact ⟨straight, FileTree.walk_proper links Path.Proper.nil proper resolved,
    contents, text, changed, node, decoded, rfl⟩

theorem searchFile_ok (links : files.LinksProper) (proper : relative.Proper) {roots : List Path}
    (properRoots : ∀ root ∈ roots, root.Proper)
    (found : searchFile files name relative roots = some (.ok sheet)) :
    ∃ p, FoundAt files p sheet := by
  induction roots with
  | nil => cases found
  | cons root rest ih =>
      rw [searchFile] at found
      cases hread : files.read? (root ++ relative) with
      | none =>
          rw [hread] at found
          exact ih (fun root member => properRoots root (List.mem_cons_of_mem _ member)) found
      | some contents =>
          rw [hread] at found
          simp only at found
          split at found
          · exact ⟨_, foundAt_resolve links ((properRoots root List.mem_cons_self).append proper)
              hread (Option.some.inj found)⟩
          · cases found

mutual

theorem SearchesFiles.read_ok (links : files.LinksProper) :
    (l : Loader) → l.SearchesFiles → l.read files name = .ok sheet →
      name ≠ "" ∧ ∃ p, FoundAt files p sheet
  | .entries _ _, searches, _ => by cases searches
  | .directories roots, searches, given => by
      cases searches with
      | directories properRoots =>
          rw [read] at given
          split at given
          · cases given
          · next safe hsafe =>
              refine ⟨?_, ?_⟩
              · rintro rfl
                simp [safeName] at hsafe
              · split at given
                · next answer found =>
                    rw [given] at found
                    exact searchFile_ok links (Path.ofText_proper safe) properRoots found
                · cases given
  | .firstOf loaders, searches, given => by
      cases searches with
      | firstOf searches =>
          rw [read] at given
          exact SearchesFiles.readFirst_ok links loaders searches given

theorem SearchesFiles.readFirst_ok (links : files.LinksProper) :
    (loaders : List Loader) → (∀ l ∈ loaders, l.SearchesFiles) →
      readFirst files name loaders = .ok sheet → name ≠ "" ∧ ∃ p, FoundAt files p sheet
  | [], _, given => by
      rw [readFirst] at given
      cases given
  | l :: rest, searches, given => by
      rw [readFirst] at given
      split at given
      · split at given
        · exact SearchesFiles.readFirst_ok links rest
            (fun l member => searches l (List.mem_cons_of_mem _ member)) given
        · cases given
      · exact SearchesFiles.read_ok links l (searches l List.mem_cons_self) given

end

end Read

end Loader

/-! One directory and no links. -/

def FileTree.Unlinked (t : FileTree) : Prop := ∀ p target, t.node? p ≠ some (.link target)

theorem FileTree.Kept.unlinked {written : Int} {t t' : FileTree} (kept : Kept written t t')
    (unlinked : t.Unlinked) : t'.Unlinked :=
  fun p target isLink => unlinked p target (kept.noLink isLink)

theorem FileTree.Unlinked.linksProper {t : FileTree} (unlinked : t.Unlinked) : t.LinksProper :=
  fun p target isLink => (unlinked p target isLink).elim

theorem FileTree.walk_unlinked {t t' : FileTree} (unlinked : t.Unlinked) (unlinked' : t'.Unlinked)
    (rounds : Nat) (reached rest : Path) :
    t'.walk rounds reached rest = t.walk rounds reached rest := by
  induction rounds generalizing reached rest with
  | zero =>
      cases rest with
      | nil => rfl
      | cons part rest => rfl
  | succ rounds ih =>
      cases rest with
      | nil => rfl
      | cons part rest =>
          by_cases back : part = ".."
          · rw [walk, walk, if_pos back, if_pos back, ih]
          · rw [walk_forward back, walk_forward back]
            split
            · next target isLink => exact (unlinked' _ target isLink).elim
            · split
              · next target isLink => exact (unlinked _ target isLink).elim
              · exact ih _ _

theorem FileTree.resolve?_unlinked {t t' : FileTree} (unlinked : t.Unlinked)
    (unlinked' : t'.Unlinked) (p : Path) : t'.resolve? p = t.resolve? p :=
  walk_unlinked unlinked unlinked' _ _ _

theorem FileTree.resolve_unlinked {t t' : FileTree} (unlinked : t.Unlinked)
    (unlinked' : t'.Unlinked) (p : Path) : t'.resolve p = t.resolve p := by
  rw [resolve, resolve, resolve?_unlinked unlinked unlinked']

theorem FileTree.read?_unlinked {t t' : FileTree} (unlinked : t.Unlinked) (unlinked' : t'.Unlinked)
    {p : Path} {contents : FileContents} (hread : t.read? p = some contents)
    (unchanged : t'.node? (t.resolve p) = t.node? (t.resolve p)) :
    t'.read? p = some contents := by
  obtain ⟨changed, _, resolved, node⟩ := read?_eq_some hread
  have resolved' := resolve?_unlinked unlinked unlinked' p
  rw [resolved] at resolved'
  rw [node] at unchanged
  simp only [read?, target?, resolved', Option.bind_some, unchanged]

/-- In one directory without links a name leads to the same file as long as that does not change. -/
theorem Loader.read_unlinked {files files' : FileTree} (unlinked : files.Unlinked)
    (unlinked' : files'.Unlinked) (sameRoot : files'.root = files.root) {root : Path}
    (proper : root.Proper) {name : String} {sheet : Sheet}
    (given : (Loader.directories [root]).read files name = .ok sheet)
    (unchanged : ∀ p, FoundAt files p sheet → files'.node? p = files.node? p) :
    (Loader.directories [root]).read files' name = .ok sheet := by
  rw [read] at given ⊢
  split at given
  · cases given
  · next safe hsafe =>
      simp only [searchFile] at given ⊢
      cases hread : files.read? (root ++ Path.ofText safe) with
      | none => simp [hread] at given
      | some contents =>
          simp only [hread] at given
          split at given
          · next answer inside =>
              split at inside
              · next isInside =>
                  have read := (Option.some.inj inside).trans given
                  have here := foundAt_resolve unlinked.linksProper
                    (proper.append (Path.ofText_proper safe)) hread read
                  have hread' := FileTree.read?_unlinked unlinked unlinked' hread (unchanged _ here)
                  simp only [hread', FileTree.resolve_unlinked unlinked unlinked', isInside,
                    if_true, sameRoot, read]
              · cases inside
                cases given
          · cases given

end Stencil
