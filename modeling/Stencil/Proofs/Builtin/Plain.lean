import Stencil.Builtin.Filter
import Stencil.Builtin.Range
import Stencil.Builtin.Test
import Stencil.Proofs.Value.Plain
import Stencil.Render.Evaluate

namespace Stencil

open Stencil.Except (Plain)

theorem Signature.bind_plain (s : Signature) (a : Arguments) : Plain (s.bind a) := by
  have refused : ∀ fault, s.refusedName? a = some fault → fault.isPlain = true := by
    intro fault found
    obtain ⟨⟨name, v⟩, _, given⟩ := List.exists_of_findSome?_eq_some found
    dsimp only at given
    split at given
    · cases given
      rfl
    · split at given
      · cases given
        rfl
      · cases given
  unfold bind
  split
  · next fault found => exact Except.plain_error.mpr (refused fault found)
  · dsimp only
    split
    · exact Except.plain_error.mpr rfl
    · split
      · exact Except.plain_ok
      · exact Except.plain_error.mpr rfl
      · exact Except.plain_error.mpr rfl

namespace Json

theorem keyText_plain (v : Value) : Plain (keyText v) := by
  fun_cases keyText v <;> simp [Fault.isPlain]

section Write

variable (loopText : Nat → List Char)

mutual

theorem write_plain : (v : Value) → Plain (write loopText v)
  | .list items | .tuple items => by
      rw [write]
      exact (writeAll_plain items).bind fun _ => Except.plain_ok
  | .dict entries => by
      rw [write]
      exact (writeEntries_plain entries).bind fun _ => Except.plain_ok
  | .null | .bool _ | .int _ | .float _ | .str _ | .markup _ | .bytes _ | .undefined | .date _
  | .moment _ | .object _ _ _ _ | .html _ _ | .function _ | .method _ _ | .view _ _ | .loop _
  | .generator _ => by simp [write]

theorem writeAll_plain : (items : List Value) → Plain (writeAll loopText items)
  | [] => Except.plain_ok
  | v :: rest => by
      rw [writeAll]
      apply (write_plain v).bind
      intro text
      exact (writeAll_plain rest).bind fun _ => Except.plain_ok

theorem writeEntries_plain :
    (entries : List (Value × Value)) → Plain (writeEntries loopText entries)
  | [] => Except.plain_ok
  | (key, v) :: rest => by
      rw [writeEntries]
      apply (keyText_plain key).bind
      intro key
      apply (write_plain v).bind
      intro text
      exact (writeEntries_plain rest).bind fun _ => Except.plain_ok

end

end Write

end Json

namespace Filter

variable (loopText : Nat → List Char)

theorem truncate_plain (v length suffix : Value) : Plain (truncate loopText v length suffix) := by
  apply (Value.toWhole_plain length).bind
  intro most
  dsimp only
  split
  · exact Except.plain_ok
  · exact Value.add_plain _ suffix

theorem split_plain (v separator : Value) : Plain (split loopText v separator) := by
  fun_cases split loopText v separator <;> simp_all +zetaDelta [Fault.isPlain]

theorem batch_plain (v size filling : Value) : Plain (batch v size filling) := by
  unfold batch
  split
  · exact Except.plain_ok
  · exact (Value.toWhole_plain size).bind fun _ => Except.plain_ok

theorem cut_plain {α : Type} (items : List α) (start length : Value) :
    Plain (cut items start length) := by
  apply (Value.toWhole_plain start).bind
  intro first
  dsimp only
  split
  · exact Except.plain_ok
  · exact (Value.toWhole_plain _).bind fun _ => Except.plain_ok

theorem slice_plain (v start length : Value) : Plain (slice v start length) := by
  fun_cases slice v start length <;> simp [cut_plain]

theorem roundedValue_plain (whole : Bool) (q : Decimal.Quantity) :
    Plain (roundedValue whole q) := by
  fun_cases roundedValue whole q <;> simp [Fault.isPlain]

theorem quantity_plain (v : Value) : Plain (quantity loopText v) := by
  fun_cases quantity loopText v <;> simp [tooManyDigits, Fault.isPlain]

theorem roundedTo_plain (places : Int) (v : Value) : Plain (roundedTo loopText places v) := by
  fun_cases roundedTo loopText places v <;> simp [quantity_plain, Fault.isPlain]

theorem round_plain (v places : Value) : Plain (round loopText v places) := by
  apply (Value.toWhole_plain places).bind
  intro places
  apply (roundedTo_plain loopText places _).bind
  intro q
  exact roundedValue_plain _ q

theorem numberFormat_plain (v places point separator : Value) :
    Plain (numberFormat loopText v places point separator) := by
  apply (Value.toWhole_plain places).bind
  intro places
  apply (roundedTo_plain loopText _ _).bind
  intro q
  split
  · exact Except.plain_error.mpr rfl
  · exact Except.plain_ok

theorem yearFault_plain (year : Int) : (yearFault year).isPlain = true := by
  unfold yearFault
  split <;> rfl

theorem momentAt_plain (seconds : Int) (micros : Nat) : Plain (momentAt seconds micros) := by
  unfold momentAt
  split
  · exact Except.plain_error.mpr rfl
  · dsimp only
    split
    · exact Except.plain_error.mpr (yearFault_plain _)
    · split
      · exact Except.plain_ok
      · exact Except.plain_error.mpr (yearFault_plain _)

theorem momentOfFloat_plain (f : Float) : Plain (momentOfFloat f) := by
  fun_cases momentOfFloat f <;> simp_all [momentAt_plain, Fault.isPlain]

theorem formatted_plain (m : Moment) (format : Value) : Plain (formatted m format) := by
  fun_cases formatted m format <;> simp_all [Fault.isPlain]

theorem dateOfText_plain (v : Value) (text : String) (format : Value) :
    Plain (dateOfText v text format) := by
  unfold dateOfText
  extract_lets stripped asDate
  have hasDate : Plain asDate := by
    dsimp only [asDate]
    split
    · exact Except.plain_ok
    · next m _ =>
        have plain := formatted_plain m format
        split
        · next fault failed =>
            rw [failed] at plain
            split
            · exact Except.plain_ok
            · exact plain
        · exact Except.plain_ok
  split
  · exact hasDate
  · next f _ =>
      have plain := (momentOfFloat_plain f).bind fun m => formatted_plain m format
      split
      · exact Except.plain_ok
      · next fault failed =>
          rw [failed] at plain
          split
          · exact hasDate
          · exact plain

theorem date_plain (v format : Value) : Plain (date v format) := by
  cases v with
  | date d => exact formatted_plain _ format
  | moment m => exact formatted_plain m format
  | int i => exact (momentAt_plain i 0).bind fun m => formatted_plain m format
  | float f => exact (momentOfFloat_plain f).bind fun m => formatted_plain m format
  | str s => exact dateOfText_plain (.str s) s format
  | markup s => exact dateOfText_plain (.markup s) s format
  | null | bool | bytes | list | tuple | dict | undefined | object | html | function | method
  | view | loop | generator => exact Except.plain_ok

theorem applyPlain_plain (v : Value) (n : Name) : Plain (applyPlain loopText v n) := by
  fun_cases applyPlain loopText v n <;>
    simp [magnitude, Value.absolute_plain, Json.write_plain]

theorem apply_plain (n : Name) (v : Value) (args : List Value) :
    Plain (apply loopText n v args) := by
  fun_cases apply loopText n v args <;>
    simp [batch_plain, date_plain, numberFormat_plain, round_plain, slice_plain, split_plain,
      truncate_plain, applyPlain_plain]

theorem call_plain (n : Name) (a : Arguments) : Plain (call loopText n a) := by
  apply (Signature.bind_plain n.signature a).bind
  intro given
  split
  · exact apply_plain loopText n _ _
  · exact Except.plain_ok

end Filter

theorem Test.call_plain (n : Test.Name) (a : Arguments) : Plain (Test.call n a) := by
  apply (Signature.bind_plain n.signature a).bind
  intro given
  split <;> exact Except.plain_ok

namespace Range

theorem next_plain (a step : Value) : Plain (next a step) := by
  have plain := Value.add_plain a step
  unfold next
  split
  · exact Except.plain_ok
  · next fault failed =>
      rw [failed, Except.plain_error] at plain
      rw [Except.plain_error]
      unfold stepFault
      split
      · rfl
      · rfl
      · exact plain

theorem countWithin_plain (op : Value.OrderOp) (last step : Value) (rounds : Nat)
    (reached : List Value) (current : Value) :
    Plain (countWithin op last step rounds reached current) := by
  induction rounds generalizing reached current with
  | zero => exact Except.plain_error.mpr rfl
  | succ rounds ih =>
      have ordered := Value.order_plain op current last
      have stepped := next_plain current step
      rw [countWithin]
      split
      · next fault failed =>
          rw [failed, Except.plain_error] at ordered
          exact Except.plain_error.mpr ordered
      · exact Except.plain_ok
      · split
        · next fault failed =>
            rw [failed, Except.plain_error] at stepped
            exact Except.plain_error.mpr stepped
        · exact ih _ _

theorem counted_plain (rounds : Nat) (first last step : Value) :
    Plain (counted rounds first last step) := by
  apply (Value.order_plain _ step _).bind
  intro up
  exact countWithin_plain _ last step rounds [] first

theorem inclusive_plain (first last step : Value) : Plain (inclusive first last step) := by
  unfold inclusive
  split
  · exact Except.plain_error.mpr rfl
  · split
    · exact Except.plain_ok
    · exact counted_plain mostRounds first last step

theorem call_plain (a : Arguments) : Plain (call a) := by
  apply (Signature.bind_plain signature a).bind
  intro given
  split
  · exact (inclusive_plain _ _ _).bind fun _ => Except.plain_ok
  · exact Except.plain_ok

end Range

theorem plainMethod_plain (kind : ViewKind) (name : String) (entries : List (Value × Value))
    (a : Arguments) : Plain (plainMethod kind name entries a) := by
  fun_cases plainMethod kind name entries a <;> simp_all [Fault.isPlain]

theorem getEntry_plain (entries : List (Value × Value)) (key default : Value) :
    Plain (getEntry entries key default) := by
  fun_cases getEntry entries key default <;> simp_all [Fault.isPlain]

theorem dictMethod_plain (entries : List (Value × Value)) (name : String) (a : Arguments) :
    Plain (dictMethod entries name a) := by
  fun_cases dictMethod entries name a <;>
    simp_all [plainMethod_plain, getEntry_plain, Fault.isPlain]

theorem cycleMethod_plain (l : LoopState) (a : Arguments) : Plain (cycleMethod l a) := by
  fun_cases cycleMethod l a <;> simp [Fault.isPlain]

theorem buildDict_plain (entries : List (Value × Value)) : Plain (buildDict entries) := by
  fun_cases buildDict entries <;> simp_all [Fault.isPlain]

theorem ArithOp.apply_plain (op : ArithOp) (loopText : Nat → List Char) (a b : Value) :
    Plain (op.apply loopText a b) := by
  cases op with
  | add => exact Value.add_plain a b
  | sub => exact Value.subtract_plain a b
  | mul => exact Value.multiply_plain a b
  | div => exact Value.divide_plain a b
  | mod => exact Value.modulo_plain loopText a b

theorem SignOp.apply_plain (op : SignOp) (v : Value) : Plain (op.apply v) := by
  cases op with
  | not => exact Except.plain_ok
  | neg => exact Value.negate_plain v
  | pos => exact Value.affirm_plain v

end Stencil
