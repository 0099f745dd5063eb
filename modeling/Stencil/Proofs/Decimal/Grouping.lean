import Stencil.Proofs.Decimal.Nearest

namespace Stencil.Decimal

/-- Whether a text is made of digits in groups of three, counted from the right, with a separator
between two groups. -/
def Grouped (separator ds text : List Char) : Prop :=
  ∃ (first : List Char) (rest : List (List Char)),
    ds = first ++ rest.flatten ∧ (1 ≤ first.length ∧ first.length ≤ 3) ∧
    (∀ group ∈ rest, group.length = 3) ∧ text = first ++ rest.flatMap (separator ++ ·)

/-- Whether a text writes a whole number: its sign, its digits in groups, and zeros after the point
if there are places for them. -/
def WritesGrouped (n : Int) (places : Nat) (point separator text : List Char) : Prop :=
  ∃ whole, Grouped separator (Nat.toDigits 10 n.natAbs) whole ∧
    text = (if n < 0 then ['-'] else []) ++ whole ++
      if places = 0 then [] else point ++ List.replicate places '0'

theorem Grouped.head? {separator ds text : List Char} (grouped : Grouped separator ds text) :
    text.head? = ds.head? := by
  obtain ⟨first, rest, rfl, nonempty, _, rfl⟩ := grouped
  cases first with
  | nil => exact absurd nonempty.1 (by decide)
  | cons c cs => rfl

theorem separated_groups (separator : List Char) {ds : List Char} (whole : ds.length % 3 = 0) :
    ∃ groups : List (List Char), ds = groups.flatten ∧ (∀ group ∈ groups, group.length = 3) ∧
      Quantity.separated separator ds = groups.flatMap (separator ++ ·) := by
  fun_induction Quantity.separated separator ds with
  | case1 a b c rest ih =>
      simp only [List.length_cons] at whole
      obtain ⟨groups, rfl, three, written⟩ := ih (by omega)
      refine ⟨[a, b, c] :: groups, rfl, ?_, ?_⟩
      · simpa using three
      · simp [written]
  | case2 rest short =>
      match rest, whole with
      | [], _ => exact ⟨[], rfl, fun _ member => absurd member List.not_mem_nil, rfl⟩
      | [_], whole => cases whole
      | [_, _], whole => cases whole
      | a :: b :: c :: rest, _ => exact absurd rfl (short a b c rest)

theorem grouped_of_take (separator : List Char) {ds : List Char} {k : Nat} (positive : 1 ≤ k)
    (short : k ≤ 3) (enough : k ≤ ds.length) (whole : (ds.length - k) % 3 = 0) :
    Grouped separator ds (ds.take k ++ Quantity.separated separator (ds.drop k)) := by
  rw [← List.length_drop] at whole
  obtain ⟨groups, parts, three, written⟩ := separated_groups separator whole
  have length : (ds.take k).length = k := by
    rw [List.length_take]
    omega
  refine ⟨ds.take k, groups, ?_, by omega, three, by rw [written]⟩
  rw [← parts, List.take_append_drop]

theorem grouped_grouped (separator : List Char) {ds : List Char} (nonempty : ds ≠ []) :
    Grouped separator ds (Quantity.grouped separator ds) := by
  have positive := List.length_pos_iff.mpr nonempty
  rw [Quantity.grouped]
  split
  · exact grouped_of_take separator (by decide) (by decide) (by omega) (by omega)
  · exact grouped_of_take separator (by omega) (by omega) (by omega) (by omega)

example : Quantity.grouped [' '] "1234567".toList = "1 234 567".toList := by decide

theorem digits_tenfold {c : Nat} (positive : 0 < c) : digits (c * 10) = digits c ++ ['0'] := by
  have behind := Nat.toDigits_append_toDigits (b := 10) (d := 0) (by decide) positive (by decide)
  rw [Nat.mul_comm]
  exact behind.symm

theorem digits_mul_tenTo {c : Nat} (positive : 0 < c) (k : Nat) :
    digits (c * tenTo k) = digits c ++ List.replicate k '0' := by
  induction k with
  | zero => exact (congrArg digits (Nat.mul_one c)).trans (List.append_nil _).symm
  | succ k ih =>
      rw [tenTo_add, ← Nat.mul_assoc]
      refine (digits_tenfold (Nat.mul_pos positive (tenTo_pos k))).trans ?_
      rw [ih, List.append_assoc, ← List.replicate_succ']

/-- The digits of a whole number with places are its own digits and as many zeros. -/
theorem paddedDigits_mul_tenTo (c places : Nat) :
    paddedDigits (places + 1) (c * tenTo places) = digits c ++ List.replicate places '0' := by
  rw [paddedDigits]
  rcases Nat.eq_zero_or_pos c with rfl | positive
  · have zero : digits 0 = ['0'] := rfl
    rw [Nat.zero_mul, zero, List.length_singleton, Nat.add_sub_cancel, ← List.replicate_succ',
      List.replicate_succ, List.singleton_append]
  · have length := List.length_pos_iff.mpr (digits_ne_nil c)
    rw [digits_mul_tenTo positive, List.length_append, List.length_replicate,
      Nat.sub_eq_zero_of_le (by omega), List.replicate_zero, List.nil_append]

theorem groupedText_writes (n : Int) (places : Nat) (point separator : List Char) (e : Int) :
    WritesGrouped n places point separator
      (Quantity.groupedText point separator places
        (.finite (n < 0) (n.natAbs * tenTo places) e)) := by
  have split : (digits n.natAbs ++ List.replicate places '0').length - places =
      (digits n.natAbs).length := by
    rw [List.length_append, List.length_replicate, Nat.add_sub_cancel]
  refine ⟨_, grouped_grouped separator (digits_ne_nil n.natAbs), ?_⟩
  rw [Quantity.groupedText, paddedDigits_mul_tenTo, split, List.take_left, List.drop_left]
  simp [digits]

end Stencil.Decimal
