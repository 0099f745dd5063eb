import Stencil.Proofs.Builtin.Clean
import Stencil.Proofs.Render.Parts
import Stencil.Render.Call

namespace Stencil

open Value (Clean CleanEntries CleanNamed)

structure Context.Clean (c : Context) : Prop where
  vars : CleanNamed c.vars
  others : CleanEntries c.others

/-- Whether all values that a template can reach are clean. -/
structure World.Clean (w : World) : Prop where
  context : w.context.Clean
  locals : CleanNamed w.locals
  loops : w.heap.All Value.Clean

def Registries.HostFree (r : Registries) : Prop :=
  ∀ table name c, (r.table table).lookup name = some c → c.value? = none

/-- Whether nothing of the host can be called by its name, and what else it offers for clean values
is clean. -/
structure Setting.Tame (s : Setting) : Prop where
  hostFree : s.registries.HostFree
  finds : s.host.Finds Value.Clean
  returns : s.host.Returns Value.Clean

theorem Registries.builtin_hostFree : Registries.builtin.HostFree := by
  intro table name c found
  obtain ⟨before, after, split, _⟩ := List.lookup_eq_some_iff.mp found
  have member : (name, c) ∈ Registries.builtin.table table := by simp [split]
  cases table with
  | filters =>
      obtain ⟨_, _, same⟩ := List.mem_map.mp member
      cases same
      rfl
  | functions =>
      cases List.mem_singleton.mp member
      rfl
  | tests =>
      obtain ⟨_, _, same⟩ := List.mem_map.mp member
      cases same
      rfl

theorem Value.CleanNamed.setNamed {named : List (String × Value)} {name : String} {v : Value}
    (all : CleanNamed named) (hv : Clean v) : CleanNamed (setNamed name v named) := by
  induction named with
  | nil => simpa [Stencil.setNamed, CleanNamed] using hv
  | cons entry rest ih =>
      obtain ⟨here, further⟩ := List.forall_mem_cons.mp all
      unfold Stencil.setNamed
      split
      · exact List.forall_mem_cons.mpr ⟨hv, further⟩
      · exact List.forall_mem_cons.mpr ⟨here, ih further⟩

/-! Accesses find nothing but clean values. -/

theorem Value.clean_deep : Value.Deep Value.Clean where
  null := .null
  bool := .bool
  int := .int
  str := .str
  list := Clean.list_iff
  tuple := Clean.tuple_iff.mp
  dict clean e member := (Clean.dict_iff.mp clean e member).2
  attrs clean := (Clean.object_iff.mp clean).1
  items clean e member := ((Clean.object_iff.mp clean).2 _ rfl e member).2
  dictMethod _ clean := .method clean
  loopMethod id _ := .method (.loop id)

theorem LoopState.cycle_clean (l : LoopState) {values : List Value}
    (clean : ∀ v ∈ values, v.Clean) : (l.cycle values).Clean := by
  unfold LoopState.cycle
  cases found : values[l.index % values.length]? with
  | none => exact .null
  | some v => exact clean v (List.mem_of_getElem? found)

/-! Changes of a world. -/

namespace World.Clean

variable {w : World}

theorem setLine (clean : w.Clean) (line : Nat) : World.Clean { w with line } :=
  ⟨clean.context, clean.locals, clean.loops⟩

theorem setQuiet (clean : w.Clean) (quiet : Nat) : World.Clean { w with quiet } :=
  ⟨clean.context, clean.locals, clean.loops⟩

theorem setReferences (clean : w.Clean) (references : List Reference) :
    World.Clean { w with references } :=
  ⟨clean.context, clean.locals, clean.loops⟩

theorem setLocals (clean : w.Clean) {locals : List (String × Value)} (all : CleanNamed locals) :
    World.Clean { w with locals } :=
  ⟨clean.context, all, clean.loops⟩

theorem setLocal (clean : w.Clean) (name : String) {v : Value} (hv : v.Clean) :
    (w.setLocal name v).Clean := clean.setLocals (clean.locals.setNamed hv)

theorem setVariable (clean : w.Clean) (name : String) {v : Value} (hv : v.Clean) :
    World.Clean { w with context := w.context.set name v } :=
  ⟨⟨clean.context.vars.setNamed hv, clean.context.others⟩, clean.locals, clean.loops⟩

theorem moveLoop (clean : w.Clean) (id index : Nat) : (w.moveLoop id index).Clean := by
  obtain ⟨loops, moved, all⟩ := World.moveLoop_all clean.loops id index
  rw [moved]
  exact ⟨clean.context, clean.locals, all⟩

theorem calls : World.Calls fun w u => w.Clean → u.Clean where
  refl _ clean := clean
  trans first second clean := second (first clean)
  notes _ _ clean := ⟨clean.context, clean.locals, clean.loops⟩
  generators _ _ clean := ⟨clean.context, clean.locals, clean.loops⟩
  moves _ id i clean := clean.moveLoop id i

theorem moveLoopUnless (clean : w.Clean) (p : Prop) [Decidable p] (id index : Nat) :
    World.Clean (if p then w else w.moveLoop id index) := by
  split
  · exact clean
  · exact clean.moveLoop id index

theorem pushLoop (clean : w.Clean) {l : LoopState} (hl : l.All Value.Clean) :
    World.Clean { w with loops := w.loops.push l } := by
  refine ⟨clean.context, clean.locals, fun id l' found => ?_⟩
  rw [World.heap, Array.getElem?_push] at found
  split at found
  · cases found
    exact hl
  · exact clean.loops id l' found

end World.Clean

theorem World.start_clean {context : Context} (hcontext : context.Clean)
    (generators : Array (List Value)) : (World.start context generators).Clean where
  context := hcontext
  locals := by simp [World.start, CleanNamed]
  loops id l found := by simp [World.start, World.heap] at found

/-! Computations of a render that begin and end in clean worlds, whether they succeed or not. -/

namespace Eval

variable {α β : Type} {P : α → Prop} {Q : β → Prop}

/-- A computation keeps the world clean, and what it gives has a property. -/
abbrev Keeps (P : α → Prop) (x : Eval α) : Prop := Step.Ensures World.Clean P x

abbrev KeepsAll (x : Eval (List Value)) : Prop := Keeps (fun values => ∀ v ∈ values, v.Clean) x

theorem keeps_of_follows {x : Eval α} (follows : Step.Follows (fun w u => w.Clean → u.Clean) x) :
    Keeps (fun _ => True) x :=
  fun w clean => ⟨follows w clean, fun _ _ => trivial⟩

theorem keeps_ofExcept {x : Except Fault α} (given : Except.Gives P x) : Keeps P (ofExcept x) :=
  .mk_pure given

theorem keeps_withLoopText {f : (Nat → List Char) → Except Fault α}
    (given : ∀ loopText, Except.Gives P (f loopText)) : Keeps P (withLoopText f) :=
  Step.Ensures.get.bind fun w _ => keeps_ofExcept (given w.loopText)

theorem keeps_quietly {x : Eval α} (keeps : Keeps P x) : Keeps P (quietly x) := by
  intro w clean
  obtain ⟨kept, given⟩ := keeps _ (clean.setQuiet (w.quiet + 1))
  exact ⟨kept.setQuiet _, given⟩

end Eval

open Eval

namespace Setting

variable {s : Setting}

theorem report_keeps (name message : String) : Keeps (fun _ => True) (s.report name message) := by
  apply Step.Ensures.get.bind
  intro w clean
  split
  · apply (Step.Ensures.set (clean.setReferences _)).bind
    intro _ _
    split
    · exact .throw _
    · exact .pure trivial
  · exact .pure trivial

theorem missing_keeps (name message : String) : Keeps Value.Clean (s.missing name message) :=
  (report_keeps name message).bind fun _ _ => .pure .undefined

end Setting

namespace Setting

variable {s : Setting}

theorem access_keeps (tame : s.Tame) {v : Value} (hv : v.Clean) (key : Value) :
    Keeps Value.Clean (s.access v key) := by
  unfold access
  split
  · exact .pure .undefined
  · apply Step.Ensures.get.bind
    intro w clean
    split
    · next found => exact .pure (Value.clean_deep.part? tame.finds clean.loops hv found)
    · exact missing_keeps _ _

theorem lookup_keeps (name : String) : Keeps Value.Clean (s.lookup name) := by
  apply Step.Ensures.get.bind
  intro w clean
  split
  · next found => exact .pure (clean.context.vars.lookup found)
  · exact missing_keeps _ _

theorem variableOf_keeps (name : String) : Keeps Value.Clean (s.variableOf name) := by
  apply Step.Ensures.get.bind
  intro w clean
  split
  · next found => exact .pure (clean.locals.lookup found)
  · exact lookup_keeps name

end Setting

theorem isSet_keeps (name : String) : Keeps (fun _ => True) (isSet name) :=
  Step.Ensures.get.bind fun _ _ => .pure trivial

/-! Going through values. -/

namespace Value

theorem iterate_keeps {v : Value} (hv : v.Clean) : KeepsAll v.iterate := by
  unfold iterate
  split
  · exact .pure (Clean.list_iff.mp hv)
  · exact .pure (Clean.tuple_iff.mp hv)
  · exact .pure (List.forall_mem_map.mpr fun _ _ => .str _)
  · exact .pure (List.forall_mem_map.mpr fun _ _ => .str _)
  · exact .pure (List.forall_mem_map.mpr fun _ _ => .int _)
  · exact .pure (List.forall_mem_map.mpr fun e member => (Clean.dict_iff.mp hv e member).1)
  · next kind entries =>
      refine .pure (List.forall_mem_map.mpr fun e member => ?_)
      obtain ⟨hkey, hvalue⟩ := Clean.view_iff.mp hv e member
      cases kind with
      | keys => exact hkey
      | values => exact hvalue
      | items => simp [hkey, hvalue]
  · exact .pure (by simp)
  · exact (Clean.not_generator hv).elim
  · next id =>
      apply Step.Ensures.get.bind
      intro w clean
      refine (Step.Ensures.set (clean.moveLoopUnless _ id _)).bind fun _ _ => .pure ?_
      split
      · next l isLoop => exact (clean.loops id l isLoop).items
      · simp
  · exact .throw _

theorem loopItems_keeps {v : Value} (hv : v.Clean) (pairs : Bool) :
    KeepsAll (v.loopItems pairs) := by
  unfold loopItems
  split
  · exact .pure (by simp)
  · refine .pure (List.forall_mem_map.mpr fun e member => ?_)
    obtain ⟨hkey, hvalue⟩ := Clean.dict_iff.mp hv e member
    cases pairs <;> simp [hkey, hvalue]
  · refine (iterate_keeps hv).bind fun items all => .pure ?_
    cases pairs with
    | false => exact all
    | true =>
        refine List.forall_mem_map.mpr fun e member => ?_
        have inItems : e.1 ∈ items := List.fst_mem_of_mem_zipIdx member
        simp [all e.1 inItems]

theorem holds_keeps (v item : Value) : Keeps (fun _ => True) (v.holds item) :=
  keeps_of_follows (v.holds_follows World.Clean.calls.toFrame item fun id _ w i =>
    World.Clean.calls.moves w id i)

end Value

/-! Calls. No function of the host is reached: none is registered, and no clean value is one. Its
methods are. -/

theorem dictMethod_clean {entries : List (Value × Value)} {name : String} {a : Arguments}
    (all : CleanEntries entries) (clean : a.Clean) :
    Except.Gives Value.Clean (dictMethod entries name a) := by
  have viewed : ∀ kind, Except.Gives Value.Clean (plainMethod kind name entries a) := by
    intro kind
    unfold plainMethod
    split
    · exact Except.gives_error
    · split
      · exact Except.gives_error
      · exact Except.gives_ok.mpr (Clean.view_iff.mpr all)
  have entry : ∀ key {default : Value}, default.Clean →
      Except.Gives Value.Clean (getEntry entries key default) := by
    intro key default hdefault
    unfold getEntry
    split
    · exact Except.gives_error
    · refine Except.gives_ok.mpr ?_
      cases found : Value.valueAt? key entries with
      | none => exact hdefault
      | some v => exact all.valueAt? found
  unfold dictMethod
  split
  · exact viewed .keys
  · exact viewed .values
  · exact viewed .items
  · split
    · exact Except.gives_error
    · split
      · exact Except.gives_error
      · exact entry _ .null
      · next given => exact entry _ (clean.positional _ (by simp [given]))
      · exact Except.gives_error

theorem cycleMethod_clean (l : LoopState) {a : Arguments} (clean : a.Clean) :
    Except.Gives Value.Clean (cycleMethod l a) := by
  unfold cycleMethod
  split
  · exact Except.gives_error
  · exact Except.gives_ok.mpr (l.cycle_clean clean.positional)

namespace Setting

variable {s : Setting} {a : Arguments}

theorem refuseNames_keeps (caller : String) (taken : List String) (named : List (String × Value)) :
    Keeps (fun _ => True) (refuseNames caller taken named) := by
  unfold refuseNames
  split
  · exact .throw _
  · exact .pure trivial

theorem callHost_keeps (tame : s.Tame) {f : Value} (hf : f.Clean) (clean : a.Clean) :
    Keeps Value.Clean (s.callHost f a) := by
  apply Step.Ensures.get.bind
  intro w around
  refine (Step.Ensures.set (World.Clean.calls.settle w _ around)).bind fun _ _ => ?_
  exact keeps_ofExcept fun v given =>
    tame.returns w.heap f a v around.loops hf clean.positional clean.named given

theorem callCycle_keeps (id : Nat) (clean : a.Clean) : Keeps Value.Clean (callCycle id a) := by
  apply Step.Ensures.get.bind
  intro w _
  split
  · exact keeps_ofExcept (cycleMethod_clean _ clean)
  · exact .pure .null

theorem callValue_keeps (tame : s.Tame) {f : Value} (hf : f.Clean) (clean : a.Clean) :
    Keeps Value.Clean (s.callValue f a) := by
  refine callValue_cases (P := fun call => Keeps Value.Clean (call s))
    (fun _ => callHost_keeps tame hf clean) (.pure .undefined) ?_
    (fun id => callCycle_keeps id clean) (.throw _)
  rintro entries name rfl
  exact keeps_ofExcept (dictMethod_clean (Clean.dict_iff.mp (Clean.method_iff.mp hf)) clean)

theorem callRegistered_keeps {c : Callable} (notHost : c.value? = none) (clean : a.Clean) :
    Keeps Value.Clean (s.callRegistered c a) := by
  cases c with
  | filter n => exact keeps_withLoopText fun _ => Filter.call_clean clean
  | test n => exact keeps_ofExcept (Test.call_clean n a)
  | range => exact keeps_ofExcept (Range.call_clean clean)
  | value v => cases notHost

theorem callNamed_keeps (tame : s.Tame) (kind : NameKind) (table : Table)
    (name : String) (clean : a.Clean) :
    Keeps Value.Clean (s.callNamed kind (s.registries.table table) name a) := by
  unfold callNamed
  split
  · next found => exact callRegistered_keeps (tame.hostFree table name _ found) clean
  · exact Step.Ensures.get.bind fun _ _ => .throw _

theorem callFilter_keeps (tame : s.Tame) (name : String) {v : Value}
    (hv : v.Clean) (clean : a.Clean) : Keeps Value.Clean (s.callFilter name v a) :=
  (refuseNames_keeps _ _ _).bind fun _ _ => callNamed_keeps tame .filter .filters name
    ⟨List.forall_mem_cons.mpr ⟨hv, clean.positional⟩, clean.named⟩

theorem callFunction_keeps (tame : s.Tame) (name : String) (clean : a.Clean) :
    Keeps Value.Clean (s.callFunction name a) :=
  (refuseNames_keeps _ _ _).bind fun _ _ =>
    callNamed_keeps tame .function .functions name clean

theorem callTest_keeps (tame : s.Tame) (name : String) {v : Value}
    {args : List Value} (hv : v.Clean) (hargs : ∀ w ∈ args, w.Clean) :
    Keeps (fun _ => True) (s.callTest name v args) := by
  have clean : Arguments.Clean ⟨v :: args, []⟩ :=
    ⟨List.forall_mem_cons.mpr ⟨hv, hargs⟩, by simp [CleanNamed]⟩
  exact (callNamed_keeps tame .test .tests name clean).bind fun _ _ => .pure trivial

end Setting

end Stencil
