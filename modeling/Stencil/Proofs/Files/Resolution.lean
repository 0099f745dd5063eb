import Stencil.Files.Tree

namespace Stencil

/-! Paths as text. -/

namespace Path

/-- Whether each part of a path is a name in a directory, as it is written. -/
def Proper (p : Path) : Prop := ∀ part ∈ p, part ≠ "" ∧ part ≠ "." ∧ '/' ∉ part.toList

theorem Proper.nil : Proper [] := fun _ member => nomatch member

theorem Proper.dropLast {p : Path} (proper : p.Proper) : Path.Proper p.dropLast :=
  fun part member => proper part (List.dropLast_subset p member)

theorem Proper.append {p q : Path} (first : p.Proper) (second : q.Proper) :
    Path.Proper (p ++ q) := by
  intro part member
  rcases List.mem_append.mp member with inFirst | inSecond
  · exact first part inFirst
  · exact second part inSecond

def chars (p : Path) : List Char := p.flatMap fun part => '/' :: part.toList

theorem text_toList (root : String) (p : Path) : (p.text root).toList = root.toList ++ chars p := by
  induction p generalizing root with
  | nil => simp [text, chars]
  | cons part rest ih =>
      have joined : text root (part :: rest) = root ++ "/" ++ text part rest := by
        rw [text, String.intercalate_cons_cons]
        rfl
      rw [joined, String.toList_append, String.toList_append, ih]
      simp [chars]

theorem splitParts_append {part : List Char} (plain : '/' ∉ part) (rest : List Char) :
    splitParts (part ++ '/' :: rest) = part :: splitParts rest := by
  induction part with
  | nil => simp [splitParts]
  | cons c cs ih =>
      simp only [List.mem_cons, not_or] at plain
      rw [List.cons_append, splitParts, if_neg (Ne.symm plain.1), ih plain.2]

theorem splitParts_plain {part : List Char} (plain : '/' ∉ part) : splitParts part = [part] := by
  induction part with
  | nil => rfl
  | cons c cs ih =>
      simp only [List.mem_cons, not_or] at plain
      rw [splitParts, if_neg (Ne.symm plain.1), ih plain.2]

theorem splitParts_chars {p : Path} (proper : p.Proper) {part : List Char} (plain : '/' ∉ part) :
    splitParts (part ++ chars p) = part :: p.map String.toList := by
  induction p generalizing part with
  | nil => simpa [chars] using splitParts_plain plain
  | cons head rest ih =>
      have properRest : Proper rest :=
        fun part member => proper part (List.mem_cons_of_mem _ member)
      have plainHead := (proper head List.mem_cons_self).2.2
      have unfolded : chars (head :: rest) = '/' :: (head.toList ++ chars rest) := by simp [chars]
      rw [unfolded, splitParts_append plain, ih properRest plainHead, List.map_cons]

theorem Proper.filter_parts {p : Path} (proper : p.Proper) :
    (p.map String.toList).filter (fun part => part ≠ [] ∧ part ≠ ['.']) =
      p.map String.toList := by
  rw [List.filter_eq_self]
  intro cs member
  obtain ⟨part, inPath, rfl⟩ := List.mem_map.mp member
  obtain ⟨nonempty, notDot, _⟩ := proper part inPath
  have notNil : part.toList ≠ [] := by simpa using nonempty
  have notDots : part.toList ≠ ['.'] := fun same => notDot (String.toList_inj.mp same)
  simp [notNil, notDots]

theorem ofText_chars {p : Path} (proper : p.Proper) : ofText (String.ofList (chars p)) = p := by
  have parts : splitParts (chars p) = [] :: p.map String.toList :=
    splitParts_chars proper List.not_mem_nil
  rw [ofText, String.toList_ofList, parts, List.filter_cons_of_neg (by simp), proper.filter_parts,
    List.map_map]
  simp [Function.comp_def]

theorem splitParts_intercalate {p : Path} (proper : p.Proper) (nonempty : p ≠ []) :
    splitParts (String.intercalate "/" p).toList = p.map String.toList := by
  cases p with
  | nil => exact absurd rfl nonempty
  | cons part rest =>
      have properRest : Proper rest :=
        fun part member => proper part (List.mem_cons_of_mem _ member)
      have plain := (proper part List.mem_cons_self).2.2
      rw [← text, text_toList, splitParts_chars properRest plain, List.map_cons]

theorem ofText_intercalate {p : Path} (proper : p.Proper) (nonempty : p ≠ []) :
    ofText (String.intercalate "/" p) = p := by
  rw [ofText, splitParts_intercalate proper nonempty, proper.filter_parts, List.map_map]
  simp [Function.comp_def]

theorem splitParts_noSlash {cs part : List Char} (member : part ∈ splitParts cs) : '/' ∉ part := by
  induction cs generalizing part with
  | nil =>
      rw [splitParts, List.mem_singleton] at member
      rw [member]
      exact List.not_mem_nil
  | cons c cs ih =>
      rw [splitParts] at member
      split at member
      · rcases List.mem_cons.mp member with rfl | later
        · exact List.not_mem_nil
        · exact ih later
      · next plain =>
          split at member
          · rw [List.mem_singleton] at member
            simpa [member] using Ne.symm plain
          · next first rest split =>
              rcases List.mem_cons.mp member with rfl | later
              · have inFirst : '/' ∉ first := ih (by rw [split]; exact List.mem_cons_self)
                simpa [Ne.symm plain] using inFirst
              · exact ih (by rw [split]; exact List.mem_cons_of_mem _ later)

theorem ofText_proper (s : String) : Proper (ofText s) := by
  intro part member
  obtain ⟨cs, kept, rfl⟩ := List.mem_map.mp member
  obtain ⟨isPart, condition⟩ := List.mem_filter.mp kept
  simp only [decide_eq_true_eq] at condition
  refine ⟨?_, ?_, ?_⟩
  · simpa using condition.1
  · intro isDot
    refine condition.2 ?_
    rw [← String.toList_ofList (l := cs), isDot]
    rfl
  · rw [String.toList_ofList]
    exact splitParts_noSlash isPart

end Path

namespace FileTree

variable {t t' : FileTree}

theorem pathOf_text {p : Path} (proper : p.Proper) : t.pathOf (p.text t.root) = p := by
  have length : t.root.length = t.root.toList.length := String.length_toList.symm
  rw [pathOf, Path.text_toList, length, List.drop_left, Path.ofText_chars proper]

theorem text_ne_empty {p : Path} (below : p ≠ []) : p.text t.root ≠ "" := by
  intro empty
  have chars : (p.text t.root).toList = [] := by rw [empty]; rfl
  rw [Path.text_toList] at chars
  cases p with
  | nil => exact below rfl
  | cons part rest => simp [Path.chars] at chars

/-! Paths without links. -/

/-- Whether a path has no links on it, and no parts that lead back. -/
structure Straight (t : FileTree) (p : Path) : Prop where
  forward : ".." ∉ p
  noLinks : ∀ q, q <+: p → ∀ target, t.node? q ≠ some (.link target)

theorem Straight.nil (t : FileTree) : t.Straight [] := by
  refine ⟨List.not_mem_nil, fun q isStart target => ?_⟩
  rw [List.prefix_nil] at isStart
  rw [isStart, node?]
  simp

theorem Straight.of_prefix {p q : Path} (straight : t.Straight p) (isStart : q <+: p) :
    t.Straight q :=
  ⟨fun member => straight.forward (isStart.subset member),
    fun _ isStart' => straight.noLinks _ (isStart'.trans isStart)⟩

theorem Straight.concat {p : Path} {part : String} (straight : t.Straight p) (forward : part ≠ "..")
    (noLink : ∀ target, t.node? (p ++ [part]) ≠ some (.link target)) :
    t.Straight (p ++ [part]) := by
  refine ⟨?_, fun q isStart target => ?_⟩
  · intro member
    rcases List.mem_append.mp member with inFirst | inLast
    · exact straight.forward inFirst
    · exact forward (List.mem_singleton.mp inLast).symm
  · rcases List.prefix_concat_iff.mp isStart with rfl | shorter
    · exact noLink target
    · exact straight.noLinks q shorter target

theorem walk_forward {rounds : Nat} {reached : Path} {part : String} {rest : Path}
    (forward : part ≠ "..") :
    t.walk (rounds + 1) reached (part :: rest) =
      match t.node? (reached ++ [part]) with
      | some (.link target) => t.walk rounds [] (target ++ rest)
      | _ => t.walk rounds (reached ++ [part]) rest := by
  rw [walk]
  exact if_neg forward

/-- Whatever a property of reached paths is, a walk keeps it if going back, going on and following a
link do. -/
theorem walk_induction {P : Path → Prop} {Q : String → Prop} (empty : P [])
    (back : ∀ p, P p → P p.dropLast)
    (on : ∀ p part, P p → Q part → part ≠ ".." →
      (∀ target, t.node? (p ++ [part]) ≠ some (.link target)) → P (p ++ [part]))
    (links : ∀ p target, t.node? p = some (.link target) → ∀ part ∈ target, Q part)
    {rounds : Nat} {reached rest found : Path} (hreached : P reached)
    (hrest : ∀ part ∈ rest, Q part)
    (walked : t.walk rounds reached rest = some found) : P found := by
  induction rounds generalizing reached rest with
  | zero =>
      cases rest with
      | nil =>
          cases walked
          exact hreached
      | cons part rest => cases walked
  | succ rounds ih =>
      cases rest with
      | nil =>
          cases walked
          exact hreached
      | cons part rest =>
          have inRest : ∀ part ∈ rest, Q part :=
            fun part member => hrest part (List.mem_cons_of_mem _ member)
          by_cases forward : part = ".."
          · rw [walk, if_pos forward] at walked
            exact ih (back reached hreached) inRest walked
          · rw [walk_forward forward] at walked
            split at walked
            · next target isLink =>
                refine ih empty ?_ walked
                intro part member
                rcases List.mem_append.mp member with inTarget | later
                · exact links _ target isLink part inTarget
                · exact inRest part later
            · next noLink =>
                refine ih ?_ inRest walked
                exact on reached part hreached (hrest part List.mem_cons_self) forward noLink

theorem walk_straight {rounds : Nat} {reached rest found : Path} (straight : t.Straight reached)
    (walked : t.walk rounds reached rest = some found) : t.Straight found := by
  refine walk_induction (P := t.Straight) (Q := fun _ => True) (Straight.nil t) ?_ ?_ ?_ straight
    (fun _ _ => trivial) walked
  · exact fun p straight => straight.of_prefix (List.dropLast_prefix p)
  · exact fun p part straight _ forward noLink => straight.concat forward noLink
  · exact fun _ _ _ _ _ => trivial

def LinksProper (t : FileTree) : Prop := ∀ p target, t.node? p = some (.link target) → target.Proper

theorem walk_proper (links : t.LinksProper) {rounds : Nat} {reached rest found : Path}
    (proper : reached.Proper) (properRest : rest.Proper)
    (walked : t.walk rounds reached rest = some found) : found.Proper := by
  refine walk_induction (P := Path.Proper)
    (Q := fun part => part ≠ "" ∧ part ≠ "." ∧ '/' ∉ part.toList) Path.Proper.nil ?_ ?_ links
    proper properRest walked
  · exact fun p proper => proper.dropLast
  · intro p part proper properPart _ _
    exact proper.append fun _ member => List.mem_singleton.mp member ▸ properPart

theorem walk_of_straight {rounds : Nat} {reached rest : Path} (enough : rest.length ≤ rounds)
    (straight : t.Straight (reached ++ rest)) :
    t.walk rounds reached rest = some (reached ++ rest) := by
  induction rest generalizing rounds reached with
  | nil => simp [walk.eq_def]
  | cons part rest ih =>
      obtain ⟨rounds, rfl⟩ := Nat.exists_eq_add_of_le' enough
      have split : reached ++ part :: rest = (reached ++ [part]) ++ rest := by simp
      have forward : part ≠ ".." := by
        intro back
        exact straight.forward (by simp [back])
      have onTheWay : reached ++ [part] <+: reached ++ part :: rest := by
        rw [split]
        exact List.prefix_append _ _
      have noLink := straight.noLinks (reached ++ [part]) onTheWay
      rw [split] at straight ⊢
      rw [List.length_cons, ← Nat.add_assoc, walk_forward forward]
      split
      · next target isLink => exact (noLink target isLink).elim
      · exact ih (by omega) straight

theorem resolve?_of_straight {p : Path} (straight : t.Straight p) : t.resolve? p = some p :=
  walk_of_straight (by omega) straight

theorem resolve_of_straight {p : Path} (straight : t.Straight p) : t.resolve p = p := by
  rw [resolve, resolve?_of_straight straight]
  rfl

theorem target?_of_straight {p : Path} (straight : t.Straight p) : t.target? p = t.node? p := by
  rw [target?, resolve?_of_straight straight, Option.bind_some]
  split
  · next target isLink => exact (straight.noLinks p (List.prefix_refl p) target isLink).elim
  · rfl

theorem walk_of_follow {rounds : Nat} {reached rest found : Path}
    (followed : t.follow rounds reached rest = some found) :
    t.walk rounds reached rest = some found := by
  induction rounds generalizing reached rest with
  | zero =>
      cases rest with
      | nil => exact followed
      | cons part rest => cases followed
  | succ rounds ih =>
      cases rest with
      | nil => exact followed
      | cons part rest =>
          rw [follow] at followed
          split at followed
          · by_cases back : part = ".."
            · rw [if_pos back] at followed
              rw [walk, if_pos back]
              exact ih followed
            · rw [if_neg back] at followed
              rw [walk_forward back]
              cases node : t.node? (reached ++ [part]) with
              | none =>
                  rw [node] at followed
                  exact ih followed
              | some n =>
                  rw [node] at followed
                  cases n with
                  | file contents changed => exact ih followed
                  | directory changed => exact ih followed
                  | link target => exact ih followed
          · cases followed

theorem changed?_eq_some {p : Path} {changed : Int} (found : t.changed? p = some changed) :
    ∃ n, t.target? p = some n ∧
      ((∃ contents, n = .file contents changed) ∨ n = .directory changed) := by
  rw [changed?] at found
  cases followed : t.follow (p.length + 400) [] p with
  | none => simp [followed] at found
  | some q =>
      have walked : t.resolve? p = some q := walk_of_follow followed
      rw [followed, Option.bind_some] at found
      rw [target?, walked, Option.bind_some]
      split at found
      · next contents changed isFile =>
          cases found
          rw [isFile]
          exact ⟨_, rfl, .inl ⟨contents, rfl⟩⟩
      · next changed isDirectory =>
          cases found
          rw [isDirectory]
          exact ⟨_, rfl, .inr rfl⟩
      · cases found

theorem read?_eq_some {p : Path} {contents : FileContents} (found : t.read? p = some contents) :
    ∃ changed, t.Straight (t.resolve p) ∧ t.resolve? p = some (t.resolve p) ∧
      t.node? (t.resolve p) = some (.file contents changed) := by
  rw [read?] at found
  cases hresolve : t.resolve? p with
  | none => simp [target?, hresolve] at found
  | some q =>
      have straight : t.Straight q := walk_straight (Straight.nil t) hresolve
      have same : t.resolve p = q := by simp [resolve, hresolve]
      rw [target?, hresolve, Option.bind_some] at found
      split at found
      · next contents' changed isFile =>
          split at isFile
          · cases isFile
          · cases found
            exact ⟨changed, same ▸ straight, by rw [same], by rw [same]; exact isFile⟩
      · cases found

theorem read?_of_straight {p : Path} (straight : t.Straight p) {contents : FileContents}
    {changed : Int} (node : t.node? p = some (.file contents changed)) :
    t.read? p = some contents := by
  rw [read?, target?_of_straight straight, node]

end FileTree

end Stencil
