import Mathlib.Tactic.Ring
import Stencil.Proofs.Render.Calls

/-!
Ranges of whole numbers. Listing them at once, up to a stop that is left out, comes to the same as
counting from the first one to the last one: the count ends, one round after the last number. A
range that is written with dots is a call of the function for ranges.
-/

namespace Stencil

namespace Range

/-- Whether a number is not beyond the last one, on the side that the step leads to. -/
def Within (last step x : Int) : Prop := if 0 < step then x ≤ last else last ≤ x

instance (last step x : Int) : Decidable (Within last step x) :=
  inferInstanceAs (Decidable (if 0 < step then x ≤ last else last ≤ x))

section Wholes

variable {step : Int}

/-! The numbers that are listed at once. -/

theorem lt_count_iff (nonzero : step ≠ 0) (first last : Int) (i : Nat) :
    i < count first (stopBehind last step) step ↔ Within last step (first + i * step) := by
  unfold count stopBehind Within
  split
  · next up =>
      have within : (i : Int) ≤ (last + 1 - first - 1) / step ↔ i * step ≤ last + 1 - first - 1 :=
        Int.le_ediv_iff_mul_le up
      omega
  · next down =>
      have within : (i : Int) ≤ (first - (last - 1) - 1) / -step ↔
          i * -step ≤ first - (last - 1) - 1 :=
        Int.le_ediv_iff_mul_le (by omega)
      rw [Int.mul_neg] at within
      omega

theorem length_wholes (first last step : Int) :
    (wholes first last step).length = count first (stopBehind last step) step := by
  simp [wholes, before]

theorem wholes_getElem? (nonzero : step ≠ 0) (first last : Int) (i : Nat) :
    (wholes first last step)[i]? =
      if Within last step (first + i * step) then some (first + i * step) else none := by
  have listed := lt_count_iff nonzero first last i
  split
  · next within =>
      rw [wholes, before, List.getElem?_map, List.getElem?_range (listed.mpr within)]
      rfl
  · next beyond =>
      rw [List.getElem?_eq_none_iff, length_wholes]
      exact Nat.le_of_not_lt (mt listed.mp beyond)

/-- As many numbers are listed as there are steps to the last one, rounded down, and one more. -/
theorem length_wholes_eq_max (first last step : Int) :
    ((wholes first last step).length : Int) = max 0 ((last - first).fdiv step + 1) := by
  rw [length_wholes, count, stopBehind]
  split
  · next up =>
      rw [Int.fdiv_eq_ediv_of_nonneg _ (Int.le_of_lt up), Int.toNat_eq_max, Int.max_comm,
        show last + 1 - first - 1 = last - first by omega]
  · next down =>
      rw [← Int.neg_fdiv_neg, Int.fdiv_eq_ediv_of_nonneg _ (by omega), Int.toNat_eq_max,
        Int.max_comm, show first - (last - 1) - 1 = -(last - first) by omega]

theorem wholes_of_beyond (nonzero : step ≠ 0) {first last : Int} (beyond : ¬ Within last step first) :
    wholes first last step = [] := by
  have none := lt_count_iff nonzero first last 0
  rw [Int.natCast_zero, Int.zero_mul, Int.add_zero] at none
  rw [← List.length_eq_zero_iff, length_wholes]
  exact Nat.eq_zero_of_not_pos (mt none.mp beyond)

theorem wholes_of_within (nonzero : step ≠ 0) {first last : Int} (within : Within last step first) :
    wholes first last step = first :: wholes (first + step) last step := by
  apply List.ext_getElem?
  intro i
  rw [wholes_getElem? nonzero]
  cases i with
  | zero => simp [within]
  | succ i =>
      have further : first + ((i + 1 : Nat) : Int) * step = first + step + i * step := by
        push_cast
        ring
      rw [further, List.getElem?_cons_succ, wholes_getElem? nonzero]

/-! The numbers that are counted. -/

/-- How a number compares to the last one as long as it is not beyond. -/
def direction (step : Int) : Value.OrderOp := if 0 < step then .le else .ge

theorem order_ints (op : Value.OrderOp) (a b : Int) :
    Value.order op (.int a) (.int b) = .ok (op.holds (compare a b)) := rfl

theorem holds_compare (op : Value.OrderOp) (a b : Int) :
    op.holds (compare a b) = match op with
      | .lt => decide (a < b)
      | .le => decide (a ≤ b)
      | .gt => decide (b < a)
      | .ge => decide (b ≤ a) := by
  rcases Int.lt_trichotomy a b with less | rfl | greater
  · rw [compare_lt_iff_lt.mpr less]
    cases op <;> simp [Value.OrderOp.holds] <;> omega
  · rw [compare_eq_iff_eq.mpr rfl]
    cases op <;> simp [Value.OrderOp.holds]
  · rw [compare_gt_iff_gt.mpr greater]
    cases op <;> simp [Value.OrderOp.holds] <;> omega

theorem order_direction (last step x : Int) :
    Value.order (direction step) (.int x) (.int last) = .ok (decide (Within last step x)) := by
  rw [order_ints, holds_compare, direction]
  by_cases up : 0 < step
  · simp only [Within, if_pos up]
  · simp only [Within, if_neg up]

theorem next_ints (a step : Int) : next (.int a) (.int step) = .ok (.int (a + step)) := rfl

theorem countWithin_ints (nonzero : step ≠ 0) (rounds : Nat) (reached : List Value)
    (first last : Int) :
    countWithin (direction step) (.int last) (.int step) rounds reached (.int first) =
      if (wholes first last step).length < rounds then
        .ok (reached.reverse ++ (wholes first last step).map Value.int)
      else .error .endless := by
  induction rounds generalizing reached first with
  | zero => rfl
  | succ rounds ih =>
      rw [countWithin, order_direction]
      by_cases within : Within last step first
      · simp only [within, decide_true, next_ints, ih, wholes_of_within nonzero within,
          List.length_cons, Nat.succ_lt_succ_iff, List.map_cons, List.reverse_cons,
          List.append_assoc, List.singleton_append]
      · simp [within, wholes_of_beyond nonzero within]

theorem counted_ints (nonzero : step ≠ 0) (rounds : Nat) (first last : Int) :
    counted rounds (.int first) (.int last) (.int step) =
      if (wholes first last step).length < rounds then .ok ((wholes first last step).map Value.int)
      else .error .endless := by
  have up : (if Value.OrderOp.gt.holds (compare step 0) then Value.OrderOp.le else .ge) =
      direction step := by
    simp only [holds_compare, decide_eq_true_eq, direction]
  have counts := countWithin_ints nonzero rounds [] first last
  rw [List.reverse_nil, List.nil_append, ← up] at counts
  exact counts

theorem inclusive_ints (nonzero : step ≠ 0) (first last : Int) :
    inclusive (.int first) (.int last) (.int step) =
      .ok ((wholes first last step).map Value.int) := by
  have other : Value.beq (.int step) (.int 0) = false := by
    rw [Value.beq, Value.same]
    exact beq_false_of_ne nonzero
  rw [inclusive, other]
  rfl

end Wholes

theorem call_pair (a b : Value) :
    call ⟨[a, b], []⟩ = (inclusive a b (.int 1)).map Value.list := rfl

end Range

/-- A range that is written with dots calls the function for ranges with its two ends. -/
theorem evaluate_range (s : Setting) (p : Pos) (first last : Expr) :
    evaluate s (.range p first last) = given s [first, last] [] >>= s.callRegistered .range := by
  simp only [evaluate, given, List.mapM_cons, List.mapM_nil, List.map_nil, List.zip_nil_left,
    bind_assoc, pure_bind]
  congr 1
  funext a
  congr 1
  funext b
  change _ = Eval.ofExcept (Range.call ⟨[a, b], []⟩)
  rw [Range.call_pair]
  cases Range.inclusive a b (.int 1) <;> rfl

/-- From a whole number to another one, in steps that are not zero, the range is the first number
and what the steps lead to, as far as it is not beyond the last one. There are as many numbers as
the way to the last one has steps, rounded down, and one more, or none. Counted one by one the range
is the same, and the count is over after one more round than there are numbers. A range that is
written with dots is what the function for ranges gives for its two ends. -/
theorem inclusive_counts :
    (∀ first last step : Int, step ≠ 0 → ∃ n : Nat,
      (n : Int) = max 0 ((last - first).fdiv step + 1) ∧
      (∀ i : Nat, i < n ↔ Range.Within last step (first + i * step)) ∧
      Range.inclusive (.int first) (.int last) (.int step) =
        .ok ((List.range n).map fun (i : Nat) => .int (first + i * step)) ∧
      ∀ rounds, Range.counted rounds (.int first) (.int last) (.int step) =
        if n < rounds then Range.inclusive (.int first) (.int last) (.int step)
        else .error .endless) ∧
    ∀ (s : Setting) (w : World) (p q r : Pos) (first last : Expr),
      s.registries.functions.lookup "range" = some .range → w.locals.lookup "range" = none →
        (evaluate s (.range p first last)).run w =
          (evaluate s (.call q (.name r "range") [first, last] [])).run w := by
  refine ⟨fun first last step nonzero => ?_, fun s w p q r first last known free => ?_⟩
  · have listed := Range.inclusive_ints nonzero first last
    refine ⟨(Range.wholes first last step).length, Range.length_wholes_eq_max first last step,
      fun i => ?_, ?_, fun rounds => ?_⟩
    · rw [Range.length_wholes]
      exact Range.lt_count_iff nonzero first last i
    · rw [listed, Range.length_wholes, Range.wholes, Range.before, List.map_map]
      rfl
    · rw [listed]
      exact Range.counted_ints nonzero rounds first last
  · rw [evaluate_range, call_reaches known free (by simp)]

theorem inclusive_counts_downwards :
    (-3 : Int) ≠ 0 ∧
    Range.inclusive (.int 10) (.int 0) (.int (-3)) = .ok [.int 10, .int 7, .int 4, .int 1] ∧
    Range.counted 5 (.int 10) (.int 0) (.int (-3)) = .ok [.int 10, .int 7, .int 4, .int 1] ∧
    (evaluate { host := Kit.host } (.range .start (.const .start (.nat 1))
      (.const .start (.nat 2)))).run (.start ⟨[], []⟩ #[]) =
      (evaluate { host := Kit.host } (.call .start (.name .start "range")
        [.const .start (.nat 1), .const .start (.nat 2)] [])).run (.start ⟨[], []⟩ #[]) := by
  obtain ⟨whole, dots⟩ := inclusive_counts
  obtain ⟨n, size, -, listed, counts⟩ := whole 10 0 (-3) (by decide)
  obtain rfl : n = 4 := Int.ofNat_inj.mp size
  exact ⟨by decide, listed, (counts 5).trans listed, dots _ _ _ _ _ _ _ rfl rfl⟩

end Stencil
