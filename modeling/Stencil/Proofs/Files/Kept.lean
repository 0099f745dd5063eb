import Stencil.Proofs.Files.Resolution

namespace Stencil

/-- Whether a node has a stamp no later than a time. Links have none. -/
def FileNode.SettledBy (written : Int) : FileNode → Prop
  | .file _ changed => changed ≤ written
  | .directory changed => changed ≤ written
  | .link _ => True

namespace FileTree

variable {t t' t'' : FileTree} {written now : Int}

/-- Whether all that has no stamp later than a time stood in an older tree. -/
structure Kept (written : Int) (old new : FileTree) : Prop where
  root : new.root = old.root
  nodes : ∀ p n, new.node? p = some n → n.SettledBy written → old.node? p = some n

theorem Kept.refl (written : Int) (t : FileTree) : Kept written t t :=
  ⟨rfl, fun _ _ found _ => found⟩

theorem Kept.of_same (written : Int) (same : t' = t) : Kept written t t' := same ▸ .refl written t'

theorem Kept.trans (first : Kept written t t') (second : Kept written t' t'') :
    Kept written t t'' :=
  ⟨second.root.trans first.root,
    fun p n found settled => first.nodes p n (second.nodes p n found settled) settled⟩

theorem Kept.noLink (kept : Kept written t t') {p target : Path}
    (isLink : t'.node? p = some (.link target)) : t.node? p = some (.link target) :=
  kept.nodes p _ isLink trivial

theorem Kept.straight (kept : Kept written t t') {p : Path} (straight : t.Straight p) :
    t'.Straight p :=
  ⟨straight.forward, fun q isStart target isLink =>
    straight.noLinks q isStart target (kept.noLink isLink)⟩

theorem Kept.linksProper (kept : Kept written t t') (links : t.LinksProper) : t'.LinksProper :=
  fun p target isLink => links p target (kept.noLink isLink)

theorem lookup_filter_fst {α β : Type} [BEq α] [LawfulBEq α] (keep : α → Bool)
    (entries : List (α × β)) (key : α) :
    (entries.filter fun e => keep e.1).lookup key =
      if keep key then entries.lookup key else none := by
  induction entries with
  | nil => simp
  | cons e rest ih =>
      by_cases kept : keep e.1 = true
      · rw [List.filter_cons_of_pos (by exact kept), List.lookup_cons, List.lookup_cons, ih]
        by_cases same : key = e.1
        · simp [same, kept]
        · simp only [beq_false_of_ne same]
      · rw [List.filter_cons_of_neg (by exact kept), ih, List.lookup_cons]
        by_cases same : key = e.1
        · rw [if_neg (by rwa [same]), if_neg (by rwa [same])]
        · simp only [beq_false_of_ne same]

theorem node?_of_setNode {p q : Path} {n m : FileNode} (found : (t.setNode p n).node? q = some m) :
    m = n ∨ t.node? q = some m := by
  cases q with
  | nil => exact .inr found
  | cons part rest =>
      simp only [node?, setNode, List.lookup_append, Option.or_eq_some_iff] at found ⊢
      rw [lookup_filter_fst (fun key => decide (key ≠ p))] at found
      rcases found with old | ⟨_, added⟩
      · split at old
        · exact .inr old
        · cases old
      · rw [List.lookup_cons] at added
        split at added
        · cases added
          exact .inl rfl
        · cases added

theorem Kept.setNode {n : FileNode} (later : ¬ n.SettledBy written) (p : Path) :
    Kept written t (t.setNode p n) := by
  refine ⟨rfl, fun q m found settled => ?_⟩
  rcases node?_of_setNode found with rfl | old
  · exact (later settled).elim
  · exact old

theorem Kept.makeDirectory (later : written < now) (p : Path) :
    Kept written t (t.makeDirectory p now) := by
  have steps : ∀ (place : Path) (ends : List Nat) (made : FileTree), Kept written t made →
      Kept written t (ends.foldl
        (fun made i =>
          let q := place.take (i + 1)
          if (made.node? q).isSome then made else made.setNode q (.directory now))
        made) := by
    intro place ends
    induction ends with
    | nil => exact fun _ kept => kept
    | cons i rest ih =>
        intro made kept
        refine ih _ ?_
        simp only
        split
        · exact kept
        · exact kept.trans (Kept.setNode (by simpa [FileNode.SettledBy] using later) _)
  exact steps (t.resolve p) (List.range (t.resolve p).length) t (Kept.refl written t)

theorem Kept.write (later : written < now) (p : Path) (contents : FileContents) :
    Kept written t (t.write p contents now) :=
  (Kept.makeDirectory later _).trans
    (Kept.setNode (by simpa [FileNode.SettledBy] using later) _)

theorem Kept.delete {p : Path} (deleted : t.delete? p = some t') : Kept written t t' := by
  rw [delete?] at deleted
  split at deleted
  · cases deleted
    refine ⟨rfl, fun q n found _ => ?_⟩
    cases q with
    | nil => exact found
    | cons part rest =>
        simp only [node?] at found ⊢
        rw [lookup_filter_fst (fun key => !(t.place p).isPrefixOf key)] at found
        split at found
        · exact found
        · cases found
  · cases deleted

end FileTree

inductive FileChange.Stamps : FileChange → Prop
  | write (p : Path) (contents : FileContents) : Stamps (.write p contents 0)
  | delete (p : Path) : Stamps (.delete p)

theorem FileChange.Stamps.kept {c : FileChange} (stamps : c.Stamps) {t t' : FileTree}
    {written now : Int} (later : written < now) (changed : c.apply t now = .ok t') :
    FileTree.Kept written t t' := by
  cases stamps with
  | write p contents =>
      rw [FileChange.apply, Int.sub_zero] at changed
      cases changed
      exact FileTree.Kept.write later p contents
  | delete p =>
      rw [FileChange.apply] at changed
      cases deleted : t.delete? p with
      | none =>
          rw [deleted] at changed
          cases changed
      | some t'' =>
          rw [deleted] at changed
          cases changed
          exact FileTree.Kept.delete deleted

end Stencil
