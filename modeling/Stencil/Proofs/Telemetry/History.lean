import Stencil.Telemetry.History

/-!
What a history retains. Of the records made since it was last cleared a number is gone that depends
on how many there were, and on nothing else; the others are there in their order. From a limit of
two on, a history stays within its limit. Half of one is nothing, so that a history with a limit of
one drops no record and grows without bound.
-/

namespace Stencil.History

inductive Change
  | record (r : RenderRecord)
  | clear

def apply (h : History) : Change → History
  | .record r => h.record r
  | .clear => h.clear

def after (limit : Nat) (changes : List Change) : History := changes.foldl apply ⟨limit, []⟩

def Change.extend (made : List RenderRecord) : Change → List RenderRecord
  | .record r => made ++ [r]
  | .clear => []

/-- The records made since the last clearing, the oldest first. -/
def sinceClear (changes : List Change) : List RenderRecord := changes.foldl Change.extend []

@[simp] theorem after_concat (limit : Nat) (changes : List Change) (c : Change) :
    after limit (changes ++ [c]) = (after limit changes).apply c := by
  simp [after]

@[simp] theorem sinceClear_concat (changes : List Change) (c : Change) :
    sinceClear (changes ++ [c]) = c.extend (sinceClear changes) := by
  simp [sinceClear]

/-! How many records are gone. -/

/-- How many of the records made since the last clearing are gone: as many halves of the limit as it
takes to come down to the limit. -/
def dropped (limit made : Nat) : Nat :=
  limit / 2 * ((made - limit + (limit / 2 - 1)) / (limit / 2))

theorem dropped_of_noHalf {limit : Nat} (noHalf : limit / 2 = 0) (made : Nat) :
    dropped limit made = 0 := by
  rw [dropped, noHalf, Nat.zero_mul]

theorem dropped_of_le {limit made : Nat} (fits : made ≤ limit) : dropped limit made = 0 := by
  rcases Nat.eq_zero_or_pos (limit / 2) with noHalf | half
  · exact dropped_of_noHalf noHalf made
  · rw [dropped, Nat.sub_eq_zero_of_le fits, Nat.zero_add,
      Nat.div_eq_of_lt (Nat.sub_one_lt (Nat.ne_of_gt half)), Nat.mul_zero]

theorem dropped_bounds {limit : Nat} (half : 0 < limit / 2) (made : Nat) :
    made - limit ≤ dropped limit made ∧ dropped limit made < made - limit + limit / 2 := by
  have whole := Nat.div_add_mod (made - limit + (limit / 2 - 1)) (limit / 2)
  have rest := Nat.mod_lt (made - limit + (limit / 2 - 1)) half
  rw [dropped]
  omega

theorem dropped_lt (limit : Nat) {made : Nat} (positive : 0 < made) :
    dropped limit made < made := by
  rcases Nat.le_total made limit with fits | above
  · rwa [dropped_of_le fits]
  · rcases Nat.eq_zero_or_pos (limit / 2) with noHalf | half
    · rwa [dropped_of_noHalf noHalf]
    · have := dropped_bounds half made
      omega

theorem dropped_le (limit made : Nat) : dropped limit made ≤ made := by
  rcases Nat.eq_zero_or_pos made with rfl | positive
  · exact Nat.le_of_eq (dropped_of_le (Nat.zero_le limit))
  · exact Nat.le_of_lt (dropped_lt limit positive)

theorem dropped_succ_of_lt {limit made : Nat} (room : made - dropped limit made < limit) :
    dropped limit (made + 1) = dropped limit made := by
  rcases Nat.lt_or_ge made limit with fits | above
  · rw [dropped_of_le fits, dropped_of_le (by omega)]
  · rcases Nat.eq_zero_or_pos (limit / 2) with noHalf | half
    · rw [dropped_of_noHalf noHalf, dropped_of_noHalf noHalf]
    · have bounds := dropped_bounds half made
      rw [dropped] at room bounds ⊢
      rw [dropped]
      congr 1
      -- the halves that are gone already suffice for one record more
      refine Nat.div_eq_of_lt_le ?_ ?_
      · rw [Nat.mul_comm]
        omega
      · rw [Nat.mul_comm, Nat.mul_succ]
        omega

theorem dropped_succ_of_le {limit made : Nat} (full : limit ≤ made - dropped limit made) :
    dropped limit (made + 1) = dropped limit made + limit / 2 := by
  rcases Nat.eq_zero_or_pos (limit / 2) with noHalf | half
  · rw [dropped_of_noHalf noHalf, dropped_of_noHalf noHalf, noHalf]
  · have bounds := dropped_bounds half made
    have gone := dropped_le limit made
    have next := dropped_bounds half (made + 1)
    rw [dropped] at full bounds gone next ⊢
    rw [dropped, ← Nat.mul_succ]
    congr 1
    refine Nat.div_eq_of_lt_le ?_ ?_
    · rw [Nat.mul_comm, Nat.mul_succ]
      omega
    · rw [Nat.mul_comm, Nat.mul_succ, Nat.mul_succ]
      omega

/-! What is retained. -/

/-- Whether a history holds what is left of the records made since it was cleared. -/
structure Retains (limit : Nat) (made : List RenderRecord) (h : History) : Prop where
  sameLimit : h.limit = limit
  records : h.records = made.drop (dropped limit made.length)

namespace Retains

variable {limit : Nat} {made : List RenderRecord} {h : History}

theorem length (retains : Retains limit made h) :
    h.records.length = made.length - dropped limit made.length := by
  rw [retains.records, List.length_drop]

theorem record (retains : Retains limit made h) (r : RenderRecord) :
    Retains limit (made ++ [r]) (h.record r) := by
  have few := dropped_le limit made.length
  refine ⟨retains.sameLimit, ?_⟩
  simp only [History.record, retains.sameLimit, retains.length, List.length_append,
    List.length_singleton]
  split
  · next full =>
      rw [retains.records, dropped_succ_of_le full, List.drop_drop,
        List.drop_append_of_le_length (by omega)]
  · next room =>
      rw [retains.records, dropped_succ_of_lt (Nat.lt_of_not_le room),
        List.drop_append_of_le_length few]

theorem clear (retains : Retains limit made h) : Retains limit [] h.clear :=
  ⟨retains.sameLimit, by simp [History.clear]⟩

theorem apply (retains : Retains limit made h) (c : Change) :
    Retains limit (c.extend made) (h.apply c) := by
  cases c with
  | record r => exact retains.record r
  | clear => exact retains.clear

theorem foldl (retains : Retains limit made h) (changes : List Change) :
    Retains limit (changes.foldl Change.extend made) (changes.foldl History.apply h) := by
  induction changes generalizing made h with
  | nil => exact retains
  | cons c rest ih => exact ih (retains.apply c)

theorem after (limit : Nat) (changes : List Change) :
    Retains limit (sinceClear changes) (after limit changes) := by
  have start : Retains limit [] ⟨limit, []⟩ := ⟨rfl, by simp⟩
  exact start.foldl changes

theorem getLast? (retains : Retains limit made h) : h.records.getLast? = made.getLast? := by
  rw [retains.records, List.getLast?_drop]
  split
  · next gone =>
      rcases Nat.eq_zero_or_pos made.length with empty | positive
      · rw [List.eq_nil_of_length_eq_zero empty]
        rfl
      · have := dropped_lt limit positive
        omega
  · rfl

theorem record_of_lt (retains : Retains limit made h) (room : h.records.length < limit)
    (r : RenderRecord) : (h.record r).records = h.records ++ [r] := by
  rw [← retains.sameLimit] at room
  simp [History.record, Nat.not_le.mpr room]

theorem length_le (retains : Retains limit made h) (atLeastTwo : 2 ≤ limit) :
    h.records.length ≤ limit := by
  have half : 0 < limit / 2 := by omega
  have := dropped_bounds half made.length
  rw [retains.length]
  omega

end Retains

def aRender : RenderRecord := ⟨"page", none, [], 0, 0, 0, false⟩

theorem length_twice {limit : Nat} (small : limit ≤ 1) :
    limit < (after limit [.record aRender, .record aRender]).records.length := by
  have noHalf : limit / 2 = 0 := by omega
  rw [(Retains.after limit _).length, dropped_of_noHalf noHalf]
  exact Nat.lt_succ_of_le small

/-- After any changes a history holds the end of what was recorded since it was cleared, with the
newest record, and drops none while fewer than its limit are there. It always stays within its limit
exactly if the limit is at least two. -/
theorem holds_recent (limit : Nat) :
    (∀ changes,
      (after limit changes).records <:+ sinceClear changes ∧
      (after limit changes).records.getLast? = (sinceClear changes).getLast? ∧
      ∀ r, (after limit changes).records.length < limit →
        (after limit (changes ++ [.record r])).records = (after limit changes).records ++ [r]) ∧
    ((∀ changes, (after limit changes).records.length ≤ limit) ↔ 2 ≤ limit) := by
  refine ⟨fun changes => ?_, fun within => ?_, fun atLeastTwo changes => ?_⟩
  · have retains := Retains.after limit changes
    refine ⟨?_, retains.getLast?, fun r room => ?_⟩
    · rw [retains.records]
      exact List.drop_suffix _ _
    · rw [after_concat]
      exact retains.record_of_lt room r
  · refine Nat.lt_of_not_le fun small => ?_
    have overflows := length_twice small
    have := within [.record aRender, .record aRender]
    omega
  · exact (Retains.after limit changes).length_le atLeastTwo

example : (after 4 (List.replicate 5 (.record aRender))).records.length = 3 := by decide

/-- A history with a limit of one holds two records. -/
theorem limitOne_overflows :
    ¬ (after 1 [.record aRender, .record aRender]).records.length ≤ 1 := by
  decide

end Stencil.History
