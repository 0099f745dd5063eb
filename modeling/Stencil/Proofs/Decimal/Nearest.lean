import Stencil.Decimal.Quantity

namespace Stencil.Decimal

/-- Whether a number is the nearest multiple of a unit; of two that are equally near, the one that
is farther from zero. -/
structure Nearest (unit : Nat) (n m : Int) : Prop where
  multiple : ∃ k : Int, m = unit * k
  nearest : ∀ k : Int, (n - m).natAbs ≤ (n - unit * k).natAbs
  farther : ∀ k : Int, (n - unit * k).natAbs = (n - m).natAbs →
    ((unit : Int) * k).natAbs ≤ m.natAbs

namespace Nearest

variable {unit : Nat} {n m m' : Int}

theorem unique (h : Nearest unit n m) (h' : Nearest unit n m') : m = m' := by
  obtain ⟨k, rfl⟩ := h.multiple
  obtain ⟨k', rfl⟩ := h'.multiple
  have distance := h.nearest k'
  have distance' := h'.nearest k
  have size := h.farther k' (by omega)
  have size' := h'.farther k (by omega)
  -- a number and its opposite are equally far only from zero, whose nearest multiple is zero
  have zero := h.nearest 0
  have zero' := h'.nearest 0
  omega

theorem neg (h : Nearest unit n m) : Nearest unit (-n) (-m) := by
  obtain ⟨k, rfl⟩ := h.multiple
  refine ⟨⟨-k, (Int.mul_neg _ _).symm⟩, fun other => ?_, fun other same => ?_⟩
  · have := h.nearest (-other)
    rw [Int.mul_neg] at this
    omega
  · have := h.farther (-other)
    rw [Int.mul_neg] at this
    omega

end Nearest

theorem multiple_or (unit : Nat) (q k : Int) :
    (unit : Int) * k ≤ unit * q ∨ unit * q + unit ≤ (unit : Int) * k := by
  have nonneg := Int.natCast_nonneg unit
  rcases (by omega : k ≤ q ∨ q + 1 ≤ k) with below | above
  · exact .inl (Int.mul_le_mul_of_nonneg_left below nonneg)
  · refine .inr ?_
    have := Int.mul_le_mul_of_nonneg_left above nonneg
    rwa [Int.mul_add, Int.mul_one] at this

theorem roundUp_eq (c unit : Nat) :
    roundUp c unit = if unit ≤ 2 * (c % unit) then c / unit + 1 else c / unit := rfl

theorem nearest_roundUp {unit : Nat} (positive : 0 < unit) (c : Nat) :
    Nearest unit c (unit * roundUp c unit : Nat) := by
  have whole := Nat.div_add_mod c unit
  have rest := Nat.mod_lt c positive
  have nonneg := Nat.zero_le (unit * (c / unit))
  have apart := multiple_or unit (c / unit : Nat)
  rw [roundUp_eq]
  split
  · next half =>
      rw [Nat.mul_add, Nat.mul_one]
      refine ⟨⟨(c / unit : Nat) + 1, by rw [Int.mul_add]; simp⟩, fun k => ?_, fun k same => ?_⟩
      · have := apart k
        omega
      · have := apart k
        omega
  · next less =>
      refine ⟨⟨(c / unit : Nat), Int.natCast_mul _ _⟩, fun k => ?_, fun k same => ?_⟩
      · have := apart k
        omega
      · have := apart k
        omega

def nearestMultiple (unit : Nat) (n : Int) : Int :=
  if n < 0 then -((unit * roundUp n.natAbs unit : Nat) : Int)
  else (unit * roundUp n.natAbs unit : Nat)

theorem nearest_nearestMultiple {unit : Nat} (positive : 0 < unit) (n : Int) :
    Nearest unit n (nearestMultiple unit n) := by
  have magnitude := nearest_roundUp positive n.natAbs
  rw [nearestMultiple]
  split
  · next negative =>
      have : n = -(n.natAbs : Int) := by omega
      rw [this, Int.natAbs_neg, Int.natAbs_natCast]
      exact magnitude.neg
  · next nonneg =>
      rwa [Int.natAbs_of_nonneg (by omega)] at magnitude

example : nearestMultiple 10 (-25) = -30 := by decide

theorem natAbs_nearestMultiple (unit : Nat) (n : Int) :
    (nearestMultiple unit n).natAbs = unit * roundUp n.natAbs unit := by
  rw [nearestMultiple]
  split
  · rw [Int.natAbs_neg, Int.natAbs_natCast]
  · rw [Int.natAbs_natCast]

/-! Powers of ten and numbers of digits. -/

theorem tenTo_pos (k : Nat) : 0 < tenTo k := Nat.pow_pos (by decide)

theorem tenTo_le {j k : Nat} (le : j ≤ k) : tenTo j ≤ tenTo k :=
  Nat.pow_le_pow_right (by decide) le

theorem tenTo_add (j k : Nat) : tenTo (j + k) = tenTo j * tenTo k := Nat.pow_add 10 j k

theorem digits_length_le {n k : Nat} (positive : 0 < k) :
    (digits n).length ≤ k ↔ n < tenTo k :=
  Nat.length_toDigits_le_iff (by decide) positive

theorem digits_ne_nil (n : Nat) : digits n ≠ [] := Nat.toDigits_ne_nil

/-! Whole numbers as quantities. -/

theorem roundUp_zero {unit : Nat} (positive : 0 < unit) : roundUp 0 unit = 0 := by
  rw [roundUp_eq, Nat.zero_mod, Nat.zero_div, if_neg (by omega)]

theorem roundUp_one (c : Nat) : roundUp c 1 = c := by
  rw [roundUp_eq, Nat.mod_one, Nat.div_one, if_neg (by decide)]

namespace Quantity

theorem rescale_up (c places : Nat) : rescale c places = c * tenTo places := by
  rw [rescale.eq_def]
  split
  · next zero => rw [zero, Nat.zero_mul]
  · rfl

theorem rescale_down (c places : Nat) : rescale c (-(places : Int)) = roundUp c (tenTo places) := by
  rw [rescale.eq_def]
  split
  · next zero => rw [zero, roundUp_zero (tenTo_pos places)]
  · cases places with
    | zero => exact (Nat.mul_one c).trans (roundUp_one c).symm
    | succ places => rfl

theorem tenTo_le_rescale {c : Nat} (nonzero : c ≠ 0) {places : Int} (far : precision + 1 < places) :
    tenTo precision ≤ rescale c places := by
  obtain ⟨up, rfl⟩ := Int.eq_ofNat_of_zero_le (show 0 ≤ places by omega)
  rw [rescale_up]
  exact Nat.le_trans (tenTo_le (by omega)) (Nat.le_mul_of_pos_left _ (Nat.pos_of_ne_zero nonzero))

/-- A whole number is rounded to a place as long as the digits before that place are not too many;
otherwise it counts as zero. -/
theorem toPlaces_ofInt (places n : Int) :
    (ofInt n).toPlaces places =
      if rescale n.natAbs places < tenTo precision then
        .finite (n < 0) (rescale n.natAbs places) (-places)
      else .finite false 0 (-places) := by
  simp only [ofInt, toPlaces, Int.zero_add]
  split
  · next far => rw [if_neg (Nat.not_lt.mpr (tenTo_le_rescale far.1 far.2))]
  · have few : (digits (rescale n.natAbs places)).length ≤ precision ↔
        rescale n.natAbs places < tenTo precision := digits_length_le (by decide)
    split
    · next long => rw [if_neg (by omega)]
    · next short =>
        refine (if_pos (few.mp ?_)).symm
        by_cases zero : rescale n.natAbs places = 0
        · rw [zero]
          decide
        · omega

end Quantity

end Stencil.Decimal
