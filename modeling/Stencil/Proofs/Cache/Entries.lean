import Stencil.Cache.Disk
import Stencil.Proofs.Files.Kept

namespace Stencil

namespace FileTree

theorem Kept.node?_of_settled {written : Int} {t t' : FileTree} (kept : Kept written t t')
    {p : Path}
    (straight : t.Straight p) (settled : (t'.changed? p).any (· ≤ written)) :
    t'.node? p = t.node? p := by
  obtain ⟨changed, found, old⟩ := Option.any_eq_true _ _ |>.mp settled
  have old : changed ≤ written := of_decide_eq_true old
  obtain ⟨n, node, shape⟩ := changed?_eq_some found
  rw [target?_of_straight (kept.straight straight)] at node
  have stamp : n.SettledBy written := by
    rcases shape with ⟨contents, rfl⟩ | rfl
    · exact old
    · exact old
  rw [node, kept.nodes p n node stamp]

end FileTree

namespace DiskCache

variable {κ α : Type}

/-! The entry of a key after each operation. -/

section Lookup

variable (c : DiskCache κ) (coding : CacheCoding κ α) (files : FileTree) (now : Int) (p key : Path)

theorem lookup_discard_eq (gone : Path) :
    (c.discard gone).entries.lookup key = if key = gone then none else c.entries.lookup key := by
  rw [discard, FileTree.lookup_filter_fst (fun k => decide (k ≠ gone))]
  by_cases same : key = gone <;> simp [same]

theorem lookup_put_eq (others : List Path) (a : α) :
    (c.put coding files now p others a).entries.lookup key =
      if key = files.resolve p then some ⟨now, coding.write others a⟩
      else c.entries.lookup key := by
  rw [put, List.lookup_append, lookup_discard_eq, List.lookup_cons]
  by_cases same : key = files.resolve p
  · simp [same]
  · simp [same, beq_false_of_ne same]

/-- A miss leaves the entry of the key out, a hit or a failure leaves the cache as it is. -/
theorem get_eq_discard_or_self :
    ((c.get coding files now p).1 = .ok none ∧ (c.get coding files now p).2 = c ∧
        c.entries.lookup (files.resolve p) = none) ∨
      ((c.get coding files now p).1 = .ok none ∧
        (c.get coding files now p).2 = c.discard (files.resolve p)) ∨
      ((c.get coding files now p).1 ≠ .ok none ∧ (c.get coding files now p).2 = c) := by
  rw [get]
  split
  · next absent => exact .inl ⟨rfl, rfl, absent⟩
  · split
    · exact .inr (.inl ⟨rfl, rfl⟩)
    · split
      · exact .inr (.inr ⟨by simp, rfl⟩)
      · exact .inr (.inl ⟨rfl, rfl⟩)
      · split
        · exact .inr (.inr ⟨by simp, rfl⟩)
        · exact .inr (.inl ⟨rfl, rfl⟩)

theorem get_kept (kept : (c.get coding files now p).1 ≠ .ok none) :
    (c.get coding files now p).2 = c := by
  rcases get_eq_discard_or_self c coding files now p with ⟨missed, _⟩ | ⟨missed, _⟩ | ⟨_, same⟩
  · exact absurd missed kept
  · exact absurd missed kept
  · exact same

theorem lookup_get_miss (missed : (c.get coding files now p).1 = .ok none) :
    (c.get coding files now p).2.entries.lookup key =
      if key = files.resolve p then none else c.entries.lookup key := by
  rcases get_eq_discard_or_self c coding files now p with ⟨_, same, absent⟩ | ⟨_, gone⟩ | ⟨kept, _⟩
  · rw [same]
    split
    · next same => rw [same, absent]
    · rfl
  · rw [gone, lookup_discard_eq]
  · exact absurd missed kept

theorem isExpired_eq_false {e : CacheEntry κ} :
    c.isExpired now e = false ↔ ∀ limit, c.lifetime = some limit → now - e.written ≤ limit := by
  cases hlimit : c.lifetime <;> simp [isExpired, hlimit]

theorem all_isSettled {e : CacheEntry κ} {ps : List Path} :
    ps.all (isSettled files e) = true ↔
      ∀ q ∈ ps, ∃ changed, files.changed? q = some changed ∧ changed ≤ e.written := by
  simp only [List.all_eq_true, isSettled, Option.any_eq_true, decide_eq_true_eq]

/-- What is given stands in an entry that is not too old and is settled, whoever wrote it. -/
theorem get_eq_some_iff {a : α} :
    (c.get coding files now p).1 = .ok (some a) ↔
      ∃ e others, c.entries.lookup (files.resolve p) = some e ∧
        coding.read e.contents = .result others a ∧
        (∀ limit, c.lifetime = some limit → now - e.written ≤ limit) ∧
        ∀ q ∈ p :: others, ∃ changed, files.changed? q = some changed ∧ changed ≤ e.written := by
  rw [get]
  cases hlookup : c.entries.lookup (files.resolve p) with
  | none => simp
  | some e =>
      simp only [Option.some.injEq, exists_and_left, exists_eq_left']
      rw [← isExpired_eq_false]
      cases expired : c.isExpired now e with
      | true => simp
      | false =>
          cases reading : coding.read e.contents with
          | failed fault => simp
          | damaged => simp
          | result others b =>
              by_cases settled : (p :: others).all (isSettled files e) = true
              · have each := all_isSettled files |>.mp settled
                simp only [settled, if_true, CacheReading.result.injEq]
                constructor
                · rintro ⟨rfl⟩
                  exact ⟨others, ⟨rfl, rfl⟩, trivial, each⟩
                · rintro ⟨_, ⟨rfl, rfl⟩, _⟩
                  rfl
              · simp only [settled, CacheReading.result.injEq]
                constructor
                · intro given
                  cases given
                · rintro ⟨_, ⟨rfl, rfl⟩, _, each⟩
                  exact absurd (all_isSettled files |>.mpr each) settled

/-- Reading fails just in an entry that is not too old, before its files are looked at. -/
theorem get_eq_error_iff {fault : Fault} :
    (c.get coding files now p).1 = .error fault ↔
      ∃ e, c.entries.lookup (files.resolve p) = some e ∧
        coding.read e.contents = .failed fault ∧
        ∀ limit, c.lifetime = some limit → now - e.written ≤ limit := by
  rw [get]
  cases hlookup : c.entries.lookup (files.resolve p) with
  | none => simp
  | some e =>
      simp only [Option.some.injEq, exists_eq_left']
      rw [← isExpired_eq_false]
      cases c.isExpired now e with
      | true => simp
      | false =>
          cases coding.read e.contents with
          | failed other => simp
          | damaged => simp
          | result others b =>
              simp only [Bool.false_eq_true, if_false]
              split <;> simp

end Lookup

variable {c : DiskCache κ} {coding : CacheCoding κ α} {files : FileTree} {now : Int} {p key : Path}
  {e : CacheEntry κ}

theorem lookup_discard {gone : Path} (found : (c.discard gone).entries.lookup key = some e) :
    c.entries.lookup key = some e := by
  rw [lookup_discard_eq] at found
  split at found
  · cases found
  · exact found

theorem lookup_get (found : (c.get coding files now p).2.entries.lookup key = some e) :
    c.entries.lookup key = some e := by
  rcases get_eq_discard_or_self c coding files now p with ⟨_, same, _⟩ | ⟨_, gone⟩ | ⟨_, same⟩
  · rwa [same] at found
  · rw [gone] at found
    exact lookup_discard found
  · rwa [same] at found

theorem lookup_put {others : List Path} {a : α}
    (found : (c.put coding files now p others a).entries.lookup key = some e) :
    c.entries.lookup key = some e ∨
      key = files.resolve p ∧ e = ⟨now, coding.write others a⟩ := by
  rw [lookup_put_eq] at found
  split at found
  · next same => exact .inr ⟨same, (Option.some.inj found).symm⟩
  · exact .inl found

end DiskCache

namespace CacheContents

variable {α : Type} {c : DiskCache (CacheContents α)} {files : FileTree} {now : Int} {p : Path}

theorem get_ok (c : DiskCache (CacheContents α)) (files : FileTree) (now : Int) (p : Path) :
    ∃ found, (c.get (.plain α) files now p).1 = .ok found := by
  cases given : (c.get (.plain α) files now p).1 with
  | ok found => exact ⟨found, rfl⟩
  | error fault =>
      obtain ⟨⟨_, contents⟩, -, failed, -⟩ :=
        (DiskCache.get_eq_error_iff c (.plain α) files now p).mp given
      cases contents <;> cases failed

/-- What is given stands in an entry, and no file that it was made from changed since. -/
theorem get_eq_some {a : α} (given : (c.get (.plain α) files now p).1 = .ok (some a)) :
    ∃ e others, c.entries.lookup (files.resolve p) = some e ∧ e.contents = .result others a ∧
      ∀ q ∈ p :: others, (files.changed? q).any (· ≤ e.written) := by
  obtain ⟨⟨written, contents⟩, others, found, reading, -, settled⟩ :=
    (DiskCache.get_eq_some_iff c (.plain α) files now p).mp given
  cases contents with
  | damaged empty => cases reading
  | result others' a' =>
      cases reading
      refine ⟨_, others, found, rfl, fun q member => ?_⟩
      obtain ⟨changed, change, old⟩ := settled q member
      rw [change]
      exact decide_eq_true old

end CacheContents

end Stencil
