import Stencil.Builtin.Filter
import Stencil.Proofs.Decimal.Grouping

/-!
Filters on whole numbers. A whole number is rounded to the nearest multiple of a power of ten and
written with its digits in groups, as long as the result does not need more digits than the working
precision; otherwise the filters answer as for zero.
-/

namespace Stencil.Filter

open Decimal

variable (loopText : Nat → List Char)

theorem quantity_int {n : Int} (short : n.natAbs < tenTo maxDigits) :
    quantity loopText (.int n) = .ok (.ofInt n) := by
  rw [quantity, Value.toNumber]
  exact if_pos short

theorem roundedTo_int {n places : Int} (short : n.natAbs < tenTo maxDigits)
    (least : -999999 ≤ places) (most : places ≤ mostPlaces) :
    roundedTo loopText places (.int n) = .ok ((Quantity.ofInt n).toPlaces places) := by
  have inRange : ¬ (places < -mostPlaces ∨ mostPlaces < places) := by
    rw [mostPlaces] at most ⊢
    omega
  rw [roundedTo, if_neg inRange, if_neg (by omega), quantity_int loopText short]
  rfl

/-! Rounding. -/

theorem roundedValue_finite (negative : Bool) (c k : Nat) :
    roundedValue true (.finite negative c k) =
      .ok (.int (if negative then -((tenTo k * c : Nat) : Int) else (tenTo k * c : Nat))) := by
  have size : (if c = 0 then (0 : Int) else c * tenTo k) = (tenTo k * c : Nat) := by
    split
    · next zero => rw [zero, Nat.mul_zero]; rfl
    · rw [Nat.mul_comm]; rfl
  simp only [roundedValue, if_true, Int.toNat_natCast, size]

theorem roundedValue_toPlaces (n : Int) (k : Nat) :
    roundedValue true ((Quantity.ofInt n).toPlaces (-(k : Int))) =
      .ok (.int (if (nearestMultiple (tenTo k) n).natAbs < tenTo (Quantity.precision + k) then
        nearestMultiple (tenTo k) n else 0)) := by
  have fits : (nearestMultiple (tenTo k) n).natAbs < tenTo (Quantity.precision + k) ↔
      roundUp n.natAbs (tenTo k) < tenTo Quantity.precision := by
    rw [natAbs_nearestMultiple, tenTo_add, Nat.mul_comm (tenTo k)]
    exact Nat.mul_lt_mul_right (tenTo_pos k)
  rw [Quantity.toPlaces_ofInt, Quantity.rescale_down, Int.neg_neg]
  by_cases few : roundUp n.natAbs (tenTo k) < tenTo Quantity.precision
  · rw [if_pos few, if_pos (fits.mpr few), roundedValue_finite, nearestMultiple]
    simp only [decide_eq_true_eq]
  · rw [if_neg few, if_neg (mt fits.mp few), roundedValue_finite]
    simp

theorem call_round {n : Int} (short : n.natAbs < tenTo maxDigits) {k : Nat} (most : k ≤ 999999) :
    call loopText .round ⟨[.int n, .int (-k)], []⟩ =
      .ok (.int (if (nearestMultiple (tenTo k) n).natAbs < tenTo (Quantity.precision + k) then
        nearestMultiple (tenTo k) n else 0)) := by
  have steps : call loopText .round ⟨[.int n, .int (-k)], []⟩ =
      (roundedTo loopText (-(k : Int)) (.int n)).bind
        (roundedValue (decide (-(k : Int) ≤ 0))) := rfl
  have whole : decide (-(k : Int) ≤ 0) = true := by
    rw [decide_eq_true_eq]
    omega
  have most' : -(k : Int) ≤ mostPlaces := by
    rw [mostPlaces]
    omega
  rw [steps, whole, roundedTo_int loopText short (by omega) most']
  exact roundedValue_toPlaces n k

theorem nearestMultiple_one (n : Int) : nearestMultiple (tenTo 0) n = n := by
  have self : Nearest (tenTo 0) n n := by
    refine ⟨⟨n, (Int.one_mul n).symm⟩, fun k => ?_, fun k same => ?_⟩ <;> omega
  exact (nearest_nearestMultiple (tenTo_pos 0) n).unique self

/-! Numbers written in groups. -/

theorem groupedText_toPlaces (n : Int) (places : Nat) (point separator : List Char) :
    WritesGrouped (if n.natAbs * tenTo places < tenTo Quantity.precision then n else 0) places point
      separator
      (Quantity.groupedText point separator places ((Quantity.ofInt n).toPlaces places)) := by
  rw [Quantity.toPlaces_ofInt, Quantity.rescale_up]
  split
  · exact groupedText_writes n places point separator _
  · have zero := groupedText_writes 0 places point separator (-(places : Int))
    rwa [Int.natAbs_zero, Nat.zero_mul] at zero

theorem call_numberFormat {n : Int} (short : n.natAbs < tenTo maxDigits) {places : Nat}
    (most : (places : Int) ≤ mostPlaces) (point : Value) {separator : Value} {s : String}
    (isText : separator.text? = some s) :
    call loopText .numberFormat ⟨[.int n, .int places, point, separator], []⟩ =
      .ok (plainText (Quantity.groupedText (point.plain loopText) s.toList places
        ((Quantity.ofInt n).toPlaces places))) := by
  have steps : call loopText .numberFormat ⟨[.int n, .int places, point, separator], []⟩ =
      numberFormat loopText (.int n) (.int places) point separator := rfl
  rw [steps]
  simp only [numberFormat, Value.toWhole, bind, Except.bind, Int.toNat_natCast,
    roundedTo_int loopText short (by omega) most, isText]

/-- Rounded to a whole number, a whole number is itself; rounded to places before the point, it is
the nearest multiple; and it is written with its own digits in groups. All this holds as long as the
result takes no more digits than the working precision. Otherwise the filters answer as for zero. -/
theorem wholeNumber_filtered (n : Int) (short : n.natAbs < tenTo maxDigits) :
    call loopText .round ⟨[.int n], []⟩ =
      .ok (.int (if n.natAbs < tenTo Quantity.precision then n else 0)) ∧
    (∀ k : Nat, k ≤ 999999 → ∃ m, Nearest (tenTo k) n m ∧
      call loopText .round ⟨[.int n, .int (-k)], []⟩ =
        .ok (.int (if m.natAbs < tenTo (Quantity.precision + k) then m else 0))) ∧
    ∀ (places : Nat) (point separator : Value) (s : String),
      (places : Int) ≤ mostPlaces → separator.text? = some s →
      ∃ text,
        WritesGrouped (if n.natAbs * tenTo places < tenTo Quantity.precision then n else 0) places
          (point.plain loopText) s.toList text ∧
        call loopText .numberFormat ⟨[.int n, .int places, point, separator], []⟩ =
          .ok (plainText text) := by
  refine ⟨?_, fun k most => ?_, fun places point separator s most isText => ?_⟩
  · have atPoint := call_round loopText short (Nat.zero_le 999999)
    rwa [nearestMultiple_one] at atPoint
  · exact ⟨_, nearest_nearestMultiple (tenTo_pos k) n, call_round loopText short most⟩
  · exact ⟨_, groupedText_toPlaces n places _ _, call_numberFormat loopText short most point isText⟩

theorem short_of_lt {n : Int} (few : n.natAbs < tenTo 30) : n.natAbs < tenTo maxDigits :=
  Nat.lt_of_lt_of_le few (tenTo_le (by decide))

theorem wholeNumber_filtered_negative :
    (-1234565 : Int).natAbs < tenTo maxDigits ∧
      call (fun _ => []) .round ⟨[.int (-1234565)], []⟩ = .ok (.int (-1234565)) ∧
      (∃ m, Nearest (tenTo 1) (-1234565) m ∧
        call (fun _ => []) .round ⟨[.int (-1234565), .int (-(1 : Nat))], []⟩ =
          .ok (.int (if m.natAbs < tenTo (Quantity.precision + 1) then m else 0))) ∧
      ∃ text, WritesGrouped (-1234565) 2 [','] [' '] text ∧
        call (fun _ => []) .numberFormat
          ⟨[.int (-1234565), .int (2 : Nat), .str ",", .str " "], []⟩ = .ok (plainText text) := by
  have short : (-1234565 : Int).natAbs < tenTo maxDigits := short_of_lt (by decide)
  have ⟨rounded, multiple, written⟩ := wholeNumber_filtered (fun _ => []) (-1234565) short
  exact ⟨short, rounded, multiple 1 (by decide),
    written 2 (.str ",") (.str " ") " " (by decide) rfl⟩

/-- With one digit more than the working precision a whole number is rounded to zero, and a number
with so many places is written as zero. -/
theorem manyDigits_lost :
    call (fun _ => []) .round ⟨[.int 10000000000000000000000000000], []⟩ ≠
        .ok (.int 10000000000000000000000000000) ∧
      ¬ ∃ text, WritesGrouped 1 28 ['.'] [','] text ∧
        call (fun _ => []) .numberFormat ⟨[.int 1, .int (28 : Nat), .str ".", .str ","], []⟩ =
          .ok (plainText text) := by
  refine ⟨fun kept => ?_, ?_⟩
  · have rounded := call_round (fun _ => []) (n := 10000000000000000000000000000)
      (short_of_lt (by decide)) (Nat.zero_le 999999)
    rw [nearestMultiple_one, if_neg (by decide)] at rounded
    have same := rounded.symm.trans kept
    cases same
  · rintro ⟨text, ⟨whole, grouped, rfl⟩, given⟩
    have written := call_numberFormat (fun _ => []) (short_of_lt (n := 1) (by decide))
      (by decide : ((28 : Nat) : Int) ≤ mostPlaces) (.str ".")
      (rfl : (Value.str ",").text? = some ",")
    rw [given, Quantity.toPlaces_ofInt, if_neg (by decide)] at written
    have texts := String.ofList_injective (Value.str.inj (Except.ok.inj written))
    have same := congrArg List.head? texts
    have one : whole.head? = some '1' := grouped.head?
    rw [List.append_assoc, if_neg (by decide), List.nil_append, List.head?_append, one] at same
    cases same

end Stencil.Filter
