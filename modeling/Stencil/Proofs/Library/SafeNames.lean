import Stencil.Proofs.Library.Directories

/-!
Which names lead into the directory of templates and never out of it. A name is accepted by what it
is made of, in both spellings of the separator; the accepted name is written with slashes and stays
below every directory from which its parts are followed.
-/

namespace Stencil

/-! Paths followed part by part. -/

namespace Path

/-- One part of a path taken from a place. No text and a single dot stay there, two dots lead
back. -/
def enter (p : Path) (part : List Char) : Path :=
  if part = [] ∨ part = ['.'] then p
  else if part = ['.', '.'] then p.dropLast
  else p ++ [String.ofList part]

def follow (p : Path) (parts : List (List Char)) : Path := parts.foldl enter p

@[simp] theorem follow_nil (p : Path) : p.follow [] = p := rfl

@[simp] theorem follow_cons (p : Path) (part : List Char) (rest : List (List Char)) :
    p.follow (part :: rest) = (p.enter part).follow rest := rfl

theorem follow_append (p : Path) (first second : List (List Char)) :
    p.follow (first ++ second) = (p.follow first).follow second := List.foldl_append

theorem prefix_enter (p : Path) {part : List Char} (forward : part ≠ ['.', '.']) :
    p <+: p.enter part := by
  rw [enter, if_neg forward]
  split
  · exact List.prefix_refl p
  · exact List.prefix_append p _

theorem prefix_follow (p : Path) {parts : List (List Char)} (forward : ['.', '.'] ∉ parts) :
    p <+: p.follow parts := by
  induction parts generalizing p with
  | nil => exact List.prefix_refl p
  | cons part rest ih =>
      simp only [List.mem_cons, not_or] at forward
      exact (prefix_enter p (Ne.symm forward.1)).trans (ih _ forward.2)

theorem enter_toList (p : Path) {part : String} (nonempty : part ≠ "") (notDot : part ≠ ".") :
    p.enter part.toList = if part = ".." then p.dropLast else p ++ [part] := by
  have notNil : part.toList ≠ [] := by simpa using nonempty
  have notDots : part.toList ≠ ['.'] := fun same => notDot (String.toList_inj.mp same)
  have back : part.toList = ['.', '.'] ↔ part = ".." := by
    rw [← String.toList_inj]
    rfl
  simp only [enter, notNil, notDots, or_self, if_false, back, String.ofList_toList]

end Path

namespace FileTree

variable {t : FileTree}

theorem walk_eq_follow (unlinked : t.Unlinked) {rounds : Nat} {reached rest : Path}
    (enough : rest.length ≤ rounds) (proper : rest.Proper) :
    t.walk rounds reached rest = some (reached.follow (rest.map String.toList)) := by
  induction rest generalizing rounds reached with
  | nil => simp [walk.eq_def]
  | cons part rest ih =>
      obtain ⟨rounds, rfl⟩ := Nat.exists_eq_add_of_le' enough
      obtain ⟨nonempty, notDot, _⟩ := proper part List.mem_cons_self
      have properRest : Path.Proper rest :=
        fun part member => proper part (List.mem_cons_of_mem _ member)
      rw [List.map_cons, Path.follow_cons, Path.enter_toList reached nonempty notDot,
        List.length_cons, ← Nat.add_assoc]
      by_cases back : part = ".."
      · rw [walk, if_pos back, if_pos back]
        exact ih (by omega) properRest
      · rw [walk_forward back, if_neg back]
        split
        · next target isLink => exact (unlinked _ target isLink).elim
        · exact ih (by omega) properRest

theorem resolve_eq_follow (unlinked : t.Unlinked) {p : Path} (proper : p.Proper) :
    t.resolve p = Path.follow [] (p.map String.toList) := by
  rw [resolve, resolve?, walk_eq_follow unlinked (by omega) proper]
  rfl

theorem resolve_prefix (unlinked : t.Unlinked) {root relative : Path} (properRoot : root.Proper)
    (proper : relative.Proper) (forward : ".." ∉ relative) :
    t.resolve root <+: t.resolve (root ++ relative) := by
  rw [resolve_eq_follow unlinked properRoot,
    resolve_eq_follow unlinked (properRoot.append proper), List.map_append, Path.follow_append]
  refine Path.prefix_follow _ fun member => forward ?_
  obtain ⟨part, inRelative, isBack⟩ := List.mem_map.mp member
  have same : part = ".." := String.toList_inj.mp isBack
  exact same ▸ inRelative

end FileTree

/-! Names. -/

def isSeparator (c : Char) : Bool := c = '/' || c = '\\'

def nameParts (name : String) : List (List Char) := name.toList.splitOnP isSeparator

/-- Whether a name is made so that it leads to a place below a directory. -/
structure Admissible (name : String) : Prop where
  nonempty : name ≠ ""
  noNull : '\x00' ∉ name.toList
  relative : ∀ c ∈ name.toList.head?, c ≠ '/' ∧ c ≠ '\\'
  noDrive : ∀ letter rest, name.toList = letter :: ':' :: rest → ¬ letter.isAlpha
  noReturn : ['.', '.'] ∉ nameParts name

@[simp] theorem withSlashes_cons (c : Char) (cs : List Char) :
    withSlashes (c :: cs) = (if c = '\\' then '/' else c) :: withSlashes cs := rfl

theorem withSlashes_withSlashes (cs : List Char) :
    withSlashes (withSlashes cs) = withSlashes cs := by
  induction cs with
  | nil => rfl
  | cons c cs ih =>
      rw [withSlashes_cons, withSlashes_cons, ih]
      split <;> simp_all

theorem splitParts_withSlashes (cs : List Char) :
    Path.splitParts (withSlashes cs) = cs.splitOnP isSeparator := by
  induction cs with
  | nil => rfl
  | cons c cs ih =>
      rw [withSlashes_cons, List.splitOnP_cons_eq_if_modifyHead, Path.splitParts, ih]
      by_cases separates : isSeparator c = true
      · have slash : (if c = '\\' then '/' else c) = '/' := by
          simp only [isSeparator, Bool.or_eq_true, decide_eq_true_eq] at separates
          rcases separates with rfl | rfl <;> rfl
        rw [if_pos slash, if_pos separates]
      · have kept : (if c = '\\' then '/' else c) = c := by
          refine if_neg fun isBackslash => separates ?_
          rw [isBackslash]
          rfl
        have notSlash : c ≠ '/' := by
          rintro rfl
          exact separates rfl
        rw [kept, if_neg notSlash, if_neg separates]
        cases split : cs.splitOnP isSeparator with
        | nil => exact absurd split (List.splitOnP_ne_nil _ _)
        | cons part parts => rfl

theorem nullCharacter_mem_withSlashes {cs : List Char} :
    '\x00' ∈ withSlashes cs ↔ '\x00' ∈ cs := by
  induction cs with
  | nil => rfl
  | cons c cs ih =>
      rw [withSlashes_cons, List.mem_cons, List.mem_cons, ih]
      split
      · next isBackslash => simp [isBackslash]
      · rfl

theorem head?_withSlashes {cs : List Char} :
    (withSlashes cs).head? ≠ some '/' ↔ ∀ c ∈ cs.head?, c ≠ '/' ∧ c ≠ '\\' := by
  cases cs with
  | nil => simp [withSlashes]
  | cons c cs =>
      by_cases isBackslash : c = '\\'
      · simp [isBackslash]
      · simp [isBackslash]

theorem hasDrive_cons_cons (c d : Char) (rest : List Char) :
    hasDrive (c :: d :: rest) = (decide (d = ':') && c.isAlpha) := by
  by_cases colon : d = ':'
  · simp [colon, hasDrive]
  · simp [colon, hasDrive]

theorem hasDrive_iff {cs : List Char} :
    hasDrive cs = true ↔ ∃ letter rest, cs = letter :: ':' :: rest ∧ letter.isAlpha := by
  match cs with
  | [] | [c] => simp [hasDrive]
  | c :: d :: rest =>
      rw [hasDrive_cons_cons]
      simp [and_assoc]

theorem hasDrive_withSlashes (cs : List Char) : hasDrive (withSlashes cs) = hasDrive cs := by
  match cs with
  | [] | [c] => rfl
  | c :: d :: rest =>
      -- neither separator is a letter or a colon
      have letter : (if c = '\\' then '/' else c).isAlpha = c.isAlpha := by
        split
        · next isBackslash => rw [isBackslash]; rfl
        · rfl
      have colon : ((if d = '\\' then '/' else d) = ':') ↔ d = ':' := by
        split
        · next isBackslash => simp [isBackslash]
        · rfl
      rw [withSlashes_cons, withSlashes_cons, hasDrive_cons_cons, hasDrive_cons_cons, letter]
      simp only [colon]

theorem refusedIf_eq_ok {refused : Prop} [Decidable refused] {fault : NameFault}
    {otherwise : Except NameFault String} {safe : String} :
    (if refused then .error fault else otherwise) = .ok safe ↔
      ¬ refused ∧ otherwise = .ok safe := by
  split
  · next isRefused => simp [isRefused]
  · next notRefused => simp [notRefused]

theorem safeName_eq_ok_iff {name safe : String} :
    safeName name = .ok safe ↔
      Admissible name ∧ safe = String.ofList (withSlashes name.toList) := by
  have noDrive_iff : ¬ hasDrive (withSlashes name.toList) = true ↔
      ∀ letter rest, name.toList = letter :: ':' :: rest → ¬ letter.isAlpha := by
    rw [hasDrive_withSlashes, hasDrive_iff]
    simp
  simp only [safeName, refusedIf_eq_ok, not_or, List.contains_iff_mem,
    nullCharacter_mem_withSlashes, ← ne_eq (List.head? _), head?_withSlashes, noDrive_iff,
    splitParts_withSlashes, Except.ok.injEq]
  constructor
  · rintro ⟨nonempty, noNull, ⟨relative, noDrive⟩, noReturn, rfl⟩
    exact ⟨⟨nonempty, noNull, relative, noDrive, noReturn⟩, rfl⟩
  · rintro ⟨⟨nonempty, noNull, relative, noDrive, noReturn⟩, rfl⟩
    exact ⟨nonempty, noNull, ⟨relative, noDrive⟩, noReturn, rfl⟩

theorem Admissible.withSlashes {name : String} (admissible : Admissible name) :
    Admissible (String.ofList (withSlashes name.toList)) := by
  refine ⟨?_, ?_, ?_, ?_, ?_⟩
  · intro empty
    have none : Stencil.withSlashes name.toList = [] := by simpa using empty
    have noChars : name.toList = [] := List.map_eq_nil_iff.mp none
    exact admissible.nonempty (by simpa using noChars)
  · rw [String.toList_ofList, nullCharacter_mem_withSlashes]
    exact admissible.noNull
  · rw [String.toList_ofList, ← head?_withSlashes, withSlashes_withSlashes, head?_withSlashes]
    exact admissible.relative
  · rw [String.toList_ofList]
    intro letter rest same alpha
    have drive : hasDrive (Stencil.withSlashes name.toList) = true :=
      hasDrive_iff.mpr ⟨letter, rest, same, alpha⟩
    rw [hasDrive_withSlashes, hasDrive_iff] at drive
    obtain ⟨letter, rest, same, alpha⟩ := drive
    exact admissible.noDrive letter rest same alpha
  · rw [nameParts, String.toList_ofList, ← splitParts_withSlashes, withSlashes_withSlashes,
      splitParts_withSlashes]
    exact admissible.noReturn

theorem Admissible.forward {name : String} (admissible : Admissible name) :
    ".." ∉ Path.ofText (String.ofList (Stencil.withSlashes name.toList)) := by
  intro member
  obtain ⟨part, kept, isBack⟩ := List.mem_map.mp member
  have isPart := (List.mem_filter.mp kept).1
  rw [String.toList_ofList, splitParts_withSlashes] at isPart
  have dots : part = ['.', '.'] := by
    rw [← String.toList_ofList (l := part), isBack]
    rfl
  exact admissible.noReturn (dots ▸ isPart)

/-- A name is accepted exactly if it is admissible. It is then written with slashes, which does not
change when it is checked again, and as far as its parts are followed from a directory, they lead to
places below that directory; so do they in every tree of files without links. -/
theorem safeName_staysBelow (name : String) :
    ((∃ safe, safeName name = .ok safe) ↔ Admissible name) ∧
    ∀ safe, safeName name = .ok safe →
      safe.toList = (name.toList.map fun c => if c = '\\' then '/' else c) ∧
      safeName safe = .ok safe ∧
      (∀ (root : Path) taken, taken <+: nameParts safe → root <+: root.follow taken) ∧
      ∀ (files : FileTree) (root : Path), files.Unlinked → root.Proper →
        ∀ taken, taken <+: Path.ofText safe →
          files.resolve root <+: files.resolve (root ++ taken) := by
  refine ⟨⟨?_, ?_⟩, fun safe accepted => ?_⟩
  · rintro ⟨safe, accepted⟩
    exact (safeName_eq_ok_iff.mp accepted).1
  · exact fun admissible => ⟨_, safeName_eq_ok_iff.mpr ⟨admissible, rfl⟩⟩
  · obtain ⟨admissible, rfl⟩ := safeName_eq_ok_iff.mp accepted
    have again := admissible.withSlashes
    refine ⟨String.toList_ofList, ?_, ?_, ?_⟩
    · refine safeName_eq_ok_iff.mpr ⟨again, ?_⟩
      rw [String.toList_ofList, withSlashes_withSlashes]
    · intro root taken isStart
      exact Path.prefix_follow root fun back => again.noReturn (isStart.subset back)
    · intro files root unlinked proper taken isStart
      refine FileTree.resolve_prefix unlinked proper ?_ ?_
      · exact fun part member => Path.ofText_proper _ part (isStart.subset member)
      · exact fun back => admissible.forward (isStart.subset back)

/-- Both separators, an empty part, a single dot and dots within a name. -/
theorem safeName_staysBelow_mixed :
    safeName "pages\\.//v1..2" = .ok "pages/.//v1..2" ∧
      ["templates"] <+: Path.follow ["templates"] [['p', 'a', 'g', 'e', 's'], ['.'], []] :=
  ⟨rfl, ((safeName_staysBelow "pages\\.//v1..2").2 "pages/.//v1..2" rfl).2.2.1 ["templates"] _
    (by decide)⟩

end Stencil
