import Stencil.Proofs.Html.Safe
import Stencil.Proofs.Step
import Stencil.Value.Format

namespace Stencil.Value

/-- Values in which all markup is safe, with no object that brings its own HTML text, no function of
the host and no generator, whose frame leads to such functions. -/
inductive Clean : Value → Prop
  | null : Clean .null
  | bool (b : Bool) : Clean (.bool b)
  | int (i : Int) : Clean (.int i)
  | float (f : Float) : Clean (.float f)
  | str (s : String) : Clean (.str s)
  | markup {s : String} : Html.Safe Html.filterTags s.toList → Clean (.markup s)
  | list {items : List Value} : (∀ v ∈ items, Clean v) → Clean (.list items)
  | tuple {items : List Value} : (∀ v ∈ items, Clean v) → Clean (.tuple items)
  | dict {entries : List (Value × Value)} : (∀ e ∈ entries, Clean e.1) →
      (∀ e ∈ entries, Clean e.2) → Clean (.dict entries)
  | undefined : Clean .undefined
  | date (d : Date) : Clean (.date d)
  | moment (m : Moment) : Clean (.moment m)
  | bytes (bs : List UInt8) : Clean (.bytes bs)
  | object {id : Nat} {type : String} {attrs : List (String × Value)}
      {items : Option (List (Value × Value))} : (∀ e ∈ attrs, Clean e.2) →
      (∀ entries ∈ items, ∀ e ∈ entries, Clean e.1) →
      (∀ entries ∈ items, ∀ e ∈ entries, Clean e.2) → Clean (.object id type attrs items)
  | method {self : Value} {name : String} : Clean self → Clean (.method self name)
  | view {kind : ViewKind} {entries : List (Value × Value)} : (∀ e ∈ entries, Clean e.1) →
      (∀ e ∈ entries, Clean e.2) → Clean (.view kind entries)
  | loop (id : Nat) : Clean (.loop id)

attribute [simp] Clean.null Clean.bool Clean.int Clean.float Clean.str Clean.undefined Clean.date
  Clean.moment Clean.bytes Clean.loop

def CleanEntries (entries : List (Value × Value)) : Prop :=
  ∀ e ∈ entries, Clean e.1 ∧ Clean e.2

def CleanNamed (named : List (String × Value)) : Prop := ∀ e ∈ named, Clean e.2

namespace Clean

@[simp] theorem markup_iff {s : String} :
    Clean (.markup s) ↔ Html.Safe Html.filterTags s.toList :=
  ⟨fun | .markup safe => safe, .markup⟩

@[simp] theorem list_iff {items : List Value} : Clean (.list items) ↔ ∀ v ∈ items, Clean v :=
  ⟨fun | .list all => all, .list⟩

@[simp] theorem tuple_iff {items : List Value} : Clean (.tuple items) ↔ ∀ v ∈ items, Clean v :=
  ⟨fun | .tuple all => all, .tuple⟩

@[simp] theorem dict_iff {entries : List (Value × Value)} :
    Clean (.dict entries) ↔ CleanEntries entries :=
  ⟨fun | .dict keys values => fun e member => ⟨keys e member, values e member⟩,
    fun all => .dict (fun e member => (all e member).1) fun e member => (all e member).2⟩

@[simp] theorem view_iff {kind : ViewKind} {entries : List (Value × Value)} :
    Clean (.view kind entries) ↔ CleanEntries entries :=
  ⟨fun | .view keys values => fun e member => ⟨keys e member, values e member⟩,
    fun all => .view (fun e member => (all e member).1) fun e member => (all e member).2⟩

@[simp] theorem method_iff {self : Value} {name : String} :
    Clean (.method self name) ↔ Clean self :=
  ⟨fun | .method clean => clean, .method⟩

@[simp] theorem object_iff {id : Nat} {type : String} {attrs : List (String × Value)}
    {items : Option (List (Value × Value))} :
    Clean (.object id type attrs items) ↔
      CleanNamed attrs ∧ ∀ entries ∈ items, CleanEntries entries := by
  constructor
  · intro clean
    cases clean with
    | object attributes keys values =>
        exact ⟨attributes, fun entries given e member =>
          ⟨keys entries given e member, values entries given e member⟩⟩
  · intro ⟨attributes, all⟩
    exact .object attributes (fun entries given e member => (all entries given e member).1)
      fun entries given e member => (all entries given e member).2

@[simp] theorem not_html {id : Nat} {text : String} : ¬ Clean (.html id text) := nofun

@[simp] theorem not_function {name : String} : ¬ Clean (.function name) := nofun

@[simp] theorem not_generator {id : Nat} : ¬ Clean (.generator id) := nofun

theorem safe_escape {v : Value} (clean : Clean v) (loopText : Nat → List Char) :
    Html.Safe Html.filterTags (Html.escape loopText v) := by
  unfold Html.escape
  cases clean with
  | markup safe => exact safe
  | undefined => exact .nil
  | _ => exact .escapeChars _

end Clean

open Clean

/-! Parts of clean values. -/

theorem CleanNamed.lookup {named : List (String × Value)} {name : String} {v : Value}
    (all : CleanNamed named) (found : named.lookup name = some v) : Clean v := by
  obtain ⟨before, after, rfl, _⟩ := List.lookup_eq_some_iff.mp found
  exact all (name, v) (List.mem_append_right _ List.mem_cons_self)

theorem CleanEntries.setEntry {key value : Value} {entries : List (Value × Value)}
    (hkey : Clean key) (hvalue : Clean value) (all : CleanEntries entries) :
    CleanEntries (setEntry key value entries) := by
  induction entries with
  | nil => simp [Value.setEntry, CleanEntries, hkey, hvalue]
  | cons entry rest ih =>
      obtain ⟨here, further⟩ := List.forall_mem_cons.mp all
      unfold Value.setEntry
      split
      · exact List.forall_mem_cons.mpr ⟨⟨here.1, hvalue⟩, further⟩
      · exact List.forall_mem_cons.mpr ⟨here, ih further⟩

theorem CleanEntries.valueAt? {key v : Value} {entries : List (Value × Value)}
    (all : CleanEntries entries) (found : valueAt? key entries = some v) : Clean v := by
  obtain ⟨e, hfind, rfl⟩ := Option.map_eq_some_iff.mp found
  exact (all e (List.mem_of_find?_eq_some hfind)).2

/-! The operators. Numbers are clean, so only texts and sequences need an argument. -/

section Operators

variable {a b : Value}

theorem floats_clean {x : Except Fault (Float × Float)} {f : Float × Float → Float} :
    Except.Gives Clean (x.map fun p => .float (f p)) :=
  (Except.gives_true x).map fun _ _ => .float _

theorem unsupported_clean (op : String) (a b : Value) :
    Except.Gives Clean (unsupported op a b) := Except.gives_error

theorem addNumbers_clean (a b : Worth) : Except.Gives Clean (addNumbers a b) := by
  unfold addNumbers
  split
  · exact Except.gives_ok.mpr (.int _)
  · exact floats_clean

theorem add_clean (ha : Clean a) (hb : Clean b) : Except.Gives Clean (add a b) := by
  unfold add
  split
  · simpa using (markup_iff.mp ha).append (markup_iff.mp hb)
  · simpa using (markup_iff.mp ha).append (.escapeChars _)
  · exact Except.gives_error
  · exact Except.gives_ok.mpr .undefined
  · exact Except.gives_ok.mpr .undefined
  · exact Except.gives_ok.mpr (.str _)
  · exact Except.gives_ok.mpr (.str _)
  · exact Except.gives_error
  · exact Except.gives_ok.mpr (.list (List.forall_mem_append.mpr ⟨list_iff.mp ha, list_iff.mp hb⟩))
  · exact Except.gives_error
  · exact Except.gives_ok.mpr
      (.tuple (List.forall_mem_append.mpr ⟨tuple_iff.mp ha, tuple_iff.mp hb⟩))
  · exact Except.gives_error
  · exact Except.gives_ok.mpr (.bytes _)
  · exact Except.gives_error
  · split
    · exact addNumbers_clean _ _
    · exact unsupported_clean "+" a b

theorem subtract_clean (a b : Value) : Except.Gives Clean (subtract a b) := by
  unfold subtract
  split
  · exact Except.gives_ok.mpr .undefined
  · exact Except.gives_ok.mpr .undefined
  · split
    · exact Except.gives_ok.mpr (.int _)
    · exact floats_clean
    · exact unsupported_clean "-" a b

theorem mem_of_mem_repeated {α : Type} {items : List α} {n : Int} {x : α}
    (member : x ∈ repeated items n) : x ∈ items := by
  obtain ⟨copy, isCopy, inCopy⟩ := List.mem_flatten.mp member
  rw [List.eq_of_mem_replicate isCopy] at inCopy
  exact inCopy

theorem repeat?_clean {n : Int} {v : Value} (ha : Clean a) (repeats : a.repeat? n = some v) :
    Clean v := by
  unfold repeat? at repeats
  split at repeats <;> cases repeats
  · exact .str _
  · exact .str _
  · exact .list fun v member => list_iff.mp ha v (mem_of_mem_repeated member)
  · exact .tuple fun v member => tuple_iff.mp ha v (mem_of_mem_repeated member)
  · exact .bytes _

theorem repeatBy_clean (ha : Clean a) (times : Value) : Except.Gives Clean (a.repeatBy times) := by
  unfold repeatBy
  split
  · exact Except.gives_error
  · split
    · exact Except.gives_error
    · split
      · next repeats => exact Except.gives_ok.mpr (repeat?_clean ha repeats)
      · exact Except.gives_error

theorem multiply_clean (ha : Clean a) (hb : Clean b) : Except.Gives Clean (multiply a b) := by
  unfold multiply
  split
  · exact Except.gives_ok.mpr .undefined
  · exact Except.gives_ok.mpr .undefined
  · split
    · exact Except.gives_ok.mpr (.int _)
    · exact floats_clean
    · split
      · exact repeatBy_clean ha b
      · split
        · exact repeatBy_clean hb a
        · exact unsupported_clean "*" a b

theorem divideNumbers_clean (a b : Worth) : Except.Gives Clean (divideNumbers a b) := by
  unfold divideNumbers
  split
  · split
    · exact Except.gives_error
    · split
      · exact Except.gives_ok.mpr (.float _)
      · exact Except.gives_error
  · refine (Except.gives_true _).bind fun p _ => ?_
    split
    split
    · exact Except.gives_error
    · exact Except.gives_ok.mpr (.float _)

theorem divide_clean (a b : Value) : Except.Gives Clean (divide a b) := by
  unfold divide
  split
  · exact Except.gives_ok.mpr .undefined
  · exact Except.gives_ok.mpr .undefined
  · split
    · exact divideNumbers_clean _ _
    · exact unsupported_clean "/" a b

theorem remainderOfNumbers_clean (a b : Worth) :
    Except.Gives Clean (remainderOfNumbers a b) := by
  unfold remainderOfNumbers
  split
  · split
    · exact Except.gives_error
    · exact Except.gives_ok.mpr (.int _)
  · refine (Except.gives_true _).bind fun p _ => ?_
    split
    split
    · exact Except.gives_error
    · exact Except.gives_ok.mpr (.float _)

/-- Markup that is filled in is no markup, and markup without conversions is what it was. -/
theorem modulo_clean (loopText : Nat → List Char) (ha : Clean a) (b : Value) :
    Except.Gives Clean (modulo loopText a b) := by
  unfold modulo
  split
  · exact (Except.gives_true _).map fun _ _ => .str _
  · refine (Except.gives_true _).map fun _ _ => ?_
    split
    · exact .str _
    · exact ha
  · exact Except.gives_ok.mpr .undefined
  · exact Except.gives_ok.mpr .undefined
  · split
    · exact remainderOfNumbers_clean _ _
    · exact unsupported_clean "%" a b

theorem negate_clean (a : Value) : Except.Gives Clean a.negate := by
  unfold negate
  split
  · exact Except.gives_ok.mpr .undefined
  · split
    · exact Except.gives_ok.mpr (.int _)
    · exact Except.gives_ok.mpr (.float _)
    · exact Except.gives_error

theorem affirm_clean (a : Value) : Except.Gives Clean a.affirm := by
  unfold affirm
  split
  · exact Except.gives_ok.mpr .undefined
  · split
    · exact Except.gives_ok.mpr (.int _)
    · exact Except.gives_ok.mpr (.float _)
    · exact Except.gives_error

theorem absolute_clean (a : Value) : Except.Gives Clean a.absolute := by
  unfold absolute
  split
  · exact Except.gives_ok.mpr .undefined
  · split
    · exact Except.gives_ok.mpr (.int _)
    · exact Except.gives_ok.mpr (.float _)
    · exact Except.gives_error

end Operators

end Stencil.Value
