import Stencil.Value.Format
import Stencil.Value.Order

namespace Stencil

def Fault.isPlain : Fault → Bool
  | .diagnostic _ => false
  | _ => true

namespace Except

variable {α β : Type}

def Plain (x : Except Fault α) : Prop := ∀ fault, x = .error fault → fault.isPlain = true

@[simp] theorem plain_ok {a : α} : Plain (.ok a) := fun _ same => nomatch same

@[simp] theorem plain_error {fault : Fault} :
    Plain (.error fault : Except Fault α) ↔ fault.isPlain = true :=
  ⟨fun plain => plain fault rfl, fun plain _ same => Except.error.inj same ▸ plain⟩

theorem Plain.bind {x : Except Fault α} {f : α → Except Fault β} (hx : Plain x)
    (hf : ∀ a, Plain (f a)) : Plain (x >>= f) := by
  cases x with
  | error fault => exact plain_error.mpr (plain_error.mp hx)
  | ok a => exact hf a

@[simp] theorem plain_pure {a : α} : Plain (pure a) := plain_ok

@[simp] theorem Plain.map {x : Except Fault α} (hx : Plain x) (f : α → β) : Plain (x.map f) := by
  cases x with
  | error fault => exact plain_error.mpr (plain_error.mp hx)
  | ok a => exact plain_ok

end Except

namespace Value

open Stencil.Except (Plain)

/-! Arithmetic. -/

@[simp] theorem bothFloats_plain (a b : Worth) : Plain (bothFloats a b) := by
  fun_cases bothFloats a b <;> simp [tooLargeForFloat, Fault.isPlain]

@[simp] theorem unsupported_plain (op : String) (a b : Value) : Plain (unsupported op a b) := by
  simp [unsupported, Fault.isPlain]

@[simp] theorem repeatBy_plain (sequence times : Value) : Plain (repeatBy sequence times) := by
  fun_cases repeatBy sequence times <;> simp [Fault.isPlain]

@[simp] theorem addNumbers_plain (a b : Worth) : Plain (addNumbers a b) := by
  fun_cases addNumbers a b <;> simp

theorem add_plain (a b : Value) : Plain (add a b) := by
  fun_cases add a b <;> simp [Fault.isPlain]

theorem subtract_plain (a b : Value) : Plain (subtract a b) := by
  fun_cases subtract a b <;> simp

theorem multiply_plain (a b : Value) : Plain (multiply a b) := by
  fun_cases multiply a b <;> simp

theorem divideNumbers_plain (a b : Worth) : Plain (divideNumbers a b) := by
  unfold divideNumbers
  split
  · split
    · exact Except.plain_error.mpr rfl
    · split <;> simp [Fault.isPlain]
  · apply (bothFloats_plain a b).bind
    rintro ⟨x, y⟩
    dsimp only
    split <;> simp [Fault.isPlain]

theorem divide_plain (a b : Value) : Plain (divide a b) := by
  fun_cases divide a b <;> simp [divideNumbers_plain]

theorem remainderOfNumbers_plain (a b : Worth) : Plain (remainderOfNumbers a b) := by
  unfold remainderOfNumbers
  split
  · split <;> simp [Fault.isPlain]
  · apply (bothFloats_plain a b).bind
    rintro ⟨x, y⟩
    dsimp only
    split <;> simp [Fault.isPlain]

theorem negate_plain (v : Value) : Plain v.negate := by
  fun_cases negate v <;> simp [Fault.isPlain]

theorem affirm_plain (v : Value) : Plain v.affirm := by
  fun_cases affirm v <;> simp [Fault.isPlain]

theorem absolute_plain (v : Value) : Plain v.absolute := by
  fun_cases absolute v <;> simp [Fault.isPlain]

theorem toWhole_plain (v : Value) : Plain v.toWhole := by
  unfold toWhole
  dsimp only
  split
  · exact Except.plain_ok
  · exact Except.plain_ok
  · split
    · exact Except.plain_ok
    · split <;> simp [Fault.isPlain]
  · split <;> simp [Fault.isPlain]
  · split <;> simp [Fault.isPlain]
  · split <;> simp [Fault.isPlain]
  · exact Except.plain_error.mpr rfl

/-! Order. -/

theorem orderFlat_plain (op : OrderOp) (a b : Value) : Plain (orderFlat op a b) := by
  have refused : Plain (.error (.notOrdered op.text a.typeName b.typeName) : Except Fault Bool) :=
    Except.plain_error.mpr rfl
  unfold orderFlat
  dsimp only
  split
  · exact Except.plain_ok
  · exact Except.plain_ok
  · exact Except.plain_ok
  · split
    · exact Except.plain_ok
    · exact Except.plain_error.mpr rfl
  · exact Except.plain_error.mpr rfl
  · exact Except.plain_error.mpr rfl
  · exact Except.plain_ok
  · split
    · exact Except.plain_ok
    · split
      · exact Except.plain_ok
      · exact refused

mutual

theorem order_plain (op : OrderOp) (a b : Value) : Plain (order op a b) := by
  unfold order
  split
  · split
    · exact orderAll_plain op _ _
    · exact orderFlat_plain op _ _
  · split
    · exact orderAll_plain op _ _
    · exact orderFlat_plain op _ _
  · exact orderFlat_plain op a b

theorem orderAll_plain (op : OrderOp) : (as bs : List Value) → Plain (orderAll op as bs)
  | [], [] | [], _ :: _ | _ :: _, [] => Except.plain_ok
  | a :: as, b :: bs => by
      rw [orderAll]
      split
      · exact orderAll_plain op as bs
      · exact order_plain op a b

end

/-! Conversions in texts. -/

theorem FormatArguments.next_plain (args : FormatArguments) : Plain args.next := by
  fun_cases FormatArguments.next args <;> simp [notEnoughArguments, Fault.isPlain]

theorem wholeForConversion_plain (letter : Char) (v : Value) :
    Plain (wholeForConversion letter v) := by
  fun_cases wholeForConversion letter v <;> simp_all [toWhole_plain, Fault.isPlain]

theorem Conversion.apply_plain (loopText : Nat → List Char) (c : Conversion) (letter : Char)
    (index : Nat) (v : Value) : Plain (c.apply loopText letter index v) := by
  fun_cases Conversion.apply loopText c letter index v <;>
    simp [wholeForConversion_plain, tooLargeForFloat, Fault.isPlain]

theorem conversionNumber_plain (limit : NumberLimit) (args : FormatArguments) (cs : List Char) :
    Plain (conversionNumber limit args cs) := by
  unfold conversionNumber
  split
  · apply args.next_plain.bind
    rintro ⟨v, args⟩
    dsimp only
    split
    · exact Except.plain_error.mpr rfl
    · split <;> simp [Fault.isPlain]
  · dsimp only
    split <;> simp [Fault.isPlain]

theorem formatEntry_plain (loopText : Nat → List Char) (mapping : Option Value) (key : String) :
    Plain (formatEntry loopText mapping key) := by
  fun_cases formatEntry loopText mapping key <;> simp_all [Fault.isPlain]

theorem conversion_plain (loopText : Nat → List Char) (size : Nat) (args : FormatArguments)
    (cs : List Char) : Plain (conversion loopText size args cs) := by
  unfold conversion
  extract_lets converted next
  have hconverted : ∀ given, Plain (converted given) := by
    rintro ⟨c, args, cs⟩
    dsimp only [converted]
    split
    · exact Except.plain_error.mpr rfl
    · apply args.next_plain.bind
      rintro ⟨v, args⟩
      apply (c.apply_plain loopText _ _ v).bind
      intro text
      exact Except.plain_pure
  have hnext : ∀ given, Plain (next given) := by
    rintro ⟨args, cs⟩
    apply (conversionNumber_plain widthLimit args _).bind
    rintro ⟨width, args, cs⟩
    dsimp only
    split
    · apply (conversionNumber_plain precisionLimit args _).bind
      intro precision
      exact Except.plain_pure.bind hconverted
    · exact Except.plain_pure.bind hconverted
  split
  · split
    · exact Except.plain_error.mpr rfl
    · exact Except.plain_error.mpr rfl
    · apply (formatEntry_plain loopText _ _).bind
      intro v
      exact Except.plain_pure.bind hnext
  · exact Except.plain_pure.bind hnext

theorem formatFrom_plain (loopText : Nat → List Char) (size rounds : Nat) (args : FormatArguments)
    (cs : List Char) : Plain (formatFrom loopText size rounds args cs) := by
  fun_induction formatFrom loopText size rounds args cs with
  | case1 | case2 => exact Except.plain_ok
  | case3 rounds args cs ih => exact ih.bind fun more => Except.plain_pure
  | case4 rounds args cs other ih =>
      apply (conversion_plain loopText size args cs).bind
      intro converted
      exact (ih _ _).bind fun more => Except.plain_pure
  | case5 rounds args c cs other other' ih => exact ih.bind fun more => Except.plain_pure

theorem format_plain (loopText : Nat → List Char) (template : String) (v : Value) :
    Plain (format loopText template v) := by
  apply (formatFrom_plain loopText _ _ _ _).bind
  intro written
  dsimp only
  split <;> simp [Fault.isPlain]

theorem modulo_plain (loopText : Nat → List Char) (a b : Value) : Plain (modulo loopText a b) := by
  fun_cases modulo loopText a b <;> simp [format_plain, remainderOfNumbers_plain]

end Value

end Stencil
