import Stencil.Proofs.Render.Walk
import Stencil.Render.Access

namespace Stencil

namespace Value

/-- Whether a property passes from a value to what it holds, and holds of all that the simple values
hold. -/
structure Deep (P : Value → Prop) : Prop where
  null : P .null
  bool (b : Bool) : P (.bool b)
  int (i : Int) : P (.int i)
  str (s : String) : P (.str s)
  list {items : List Value} : P (.list items) ↔ ∀ v ∈ items, P v
  tuple {items : List Value} : P (.tuple items) → ∀ v ∈ items, P v
  dict {entries : List (Value × Value)} : P (.dict entries) → ∀ e ∈ entries, P e.2
  attrs {id : Nat} {type : String} {attrs : List (String × Value)}
    {items : Option (List (Value × Value))} : P (.object id type attrs items) → ∀ e ∈ attrs, P e.2
  items {id : Nat} {type : String} {attrs : List (String × Value)}
    {entries : List (Value × Value)} : P (.object id type attrs (some entries)) →
    ∀ e ∈ entries, P e.2
  dictMethod {entries : List (Value × Value)} (name : String) : P (.dict entries) →
    P (.method (.dict entries) name)
  loopMethod (id : Nat) (name : String) : P (.method (.loop id) name)

end Value

/-- Whether a property holds of all values that the metadata of a loop tells. -/
structure LoopState.All (P : Value → Prop) (l : LoopState) : Prop where
  items : ∀ v ∈ l.items, P v
  parent : P l.parent

/-- Whether a property holds of all values that the loops of a heap tell. -/
def Heap.All (P : Value → Prop) (h : Heap) : Prop :=
  ∀ (id : Nat) (l : LoopState), h.loops[id]? = some l → l.All P

/-- Whether a property passes to the attributes that the host finds in values. -/
def Host.Finds (host : Host) (P : Value → Prop) : Prop :=
  ∀ heap v name part, heap.All P → P v → host.attribute? heap v name = some part → P part

/-- Whether a property passes to what the host answers to calls of values. -/
def Host.Returns (host : Host) (P : Value → Prop) : Prop :=
  ∀ heap f a v, heap.All P → P f → (∀ v ∈ a.positional, P v) → (∀ e ∈ a.named, P e.2) →
    (host.call heap f a).result = .ok v → P v

theorem mem_of_itemAt? {α : Type} {items : List α} {i : Int} {a : α}
    (found : Value.itemAt? items i = some a) : a ∈ items := by
  unfold Value.itemAt? at found
  split at found
  · split at found
    · cases found
    · exact List.mem_of_getElem? found
  · exact List.mem_of_getElem? found

namespace Value.Deep

variable {P : Value → Prop} {v key part : Value} {host : Host} {heap : Heap}

theorem lookup {named : List (String × Value)} {name : String} (all : ∀ e ∈ named, P e.2)
    (found : named.lookup name = some v) : P v := by
  obtain ⟨before, after, rfl, _⟩ := List.lookup_eq_some_iff.mp found
  exact all (name, v) (List.mem_append_right _ List.mem_cons_self)

theorem valueAt? {entries : List (Value × Value)} (all : ∀ e ∈ entries, P e.2)
    (found : valueAt? key entries = some part) : P part := by
  obtain ⟨e, hfind, rfl⟩ := Option.map_eq_some_iff.mp found
  exact all e (List.mem_of_find?_eq_some hfind)

theorem neighbour (deep : Deep P) {l : LoopState} (all : l.All P) (i : Option Nat) :
    P (l.neighbour i) := by
  unfold LoopState.neighbour
  cases found : i.bind fun i => l.items[i]? with
  | none => exact deep.null
  | some v =>
      obtain ⟨_, _, atIndex⟩ := Option.bind_eq_some_iff.mp found
      exact all.items v (List.mem_of_getElem? atIndex)

theorem ofLoop (deep : Deep P) {l : LoopState} (all : l.All P) {id : Nat} {name : String}
    (found : l.attribute? id name = some part) : P part := by
  unfold LoopState.attribute? at found
  split at found <;> cases found
  · exact deep.int _
  · exact deep.int _
  · exact deep.bool _
  · exact deep.bool _
  · exact deep.int _
  · exact deep.int _
  · exact deep.int _
  · exact all.parent
  · exact deep.neighbour all _
  · exact deep.neighbour all _
  · exact deep.loopMethod id _
  · exact deep.int _
  · exact deep.int _
  · exact deep.list.mpr all.items
  · exact all.parent

theorem ofDate (deep : Deep P) {d : Date} {name : String} (found : d.attribute? name = some part) :
    P part := by
  unfold Date.attribute? at found
  split at found <;> cases found <;> exact deep.int _

theorem ofMoment (deep : Deep P) {m : Moment} {name : String}
    (found : m.attribute? name = some part) : P part := by
  unfold Moment.attribute? at found
  split at found
  · cases found
    exact deep.int _
  · cases found
    exact deep.int _
  · cases found
    exact deep.int _
  · cases found
    exact deep.int _
  · exact deep.ofDate found

theorem ownAttribute? (deep : Deep P) (all : heap.All P) (hv : P v) {name : String}
    (found : v.ownAttribute? heap.loops name = some part) : P part := by
  unfold Value.ownAttribute? at found
  split at found
  · split at found
    · cases found
      exact deep.dictMethod name hv
    · cases found
  · exact deep.ofDate found
  · exact deep.ofMoment found
  · exact lookup (deep.attrs hv) found
  · obtain ⟨l, isLoop, told⟩ := Option.bind_eq_some_iff.mp found
    exact deep.ofLoop (all _ l isLoop) told
  · cases found

theorem attribute? (deep : Deep P) (finds : host.Finds P) (all : heap.All P) (hv : P v)
    {name : String} (found : v.attribute? host heap name = some part) : P part := by
  rw [Value.attribute?, Option.orElse_eq_or] at found
  rcases Option.or_eq_some_iff.mp found with isOwn | ⟨_, isHosted⟩
  · exact deep.ownAttribute? all hv isOwn
  · exact finds heap v name part all hv isHosted

theorem subscript? (deep : Deep P) (hv : P v) (found : v.subscript? key = some part) :
    P part := by
  unfold Value.subscript? at found
  split at found
  · split at found
    · cases found
    · exact valueAt? (deep.dict hv) found
  · split at found
    · cases found
    · exact valueAt? (deep.items hv) found
  · exact deep.list.mp hv part (mem_of_itemAt? found)
  · exact deep.tuple hv part (mem_of_itemAt? found)
  · obtain ⟨_, _, rfl⟩ := Option.map_eq_some_iff.mp found
    exact deep.str _
  · obtain ⟨_, _, rfl⟩ := Option.map_eq_some_iff.mp found
    exact deep.str _
  · obtain ⟨_, _, rfl⟩ := Option.map_eq_some_iff.mp found
    exact deep.int _
  · cases found

theorem part? (deep : Deep P) (finds : host.Finds P) (all : heap.All P) (hv : P v)
    (found : v.part? host heap key = some part) : P part := by
  have ofName : ∀ {named : Value}, (key.text?.bind (v.attribute? host heap)) = some named →
      P named := by
    intro named isNamed
    obtain ⟨_, _, isAttribute⟩ := Option.bind_eq_some_iff.mp isNamed
    exact deep.attribute? finds all hv isAttribute
  unfold Value.part? at found
  simp only [Option.orElse_eq_or] at found
  split at found
  · cases found
  · rcases Option.or_eq_some_iff.mp found with isItem | ⟨_, isNamed⟩
    · exact deep.subscript? hv isItem
    · exact ofName isNamed
  · rcases Option.or_eq_some_iff.mp found with isNamed | ⟨_, isItem⟩
    · exact ofName isNamed
    · exact deep.subscript? hv isItem

end Value.Deep

namespace World

theorem moveLoop_all {P : Value → Prop} {w : World} (all : w.heap.All P) (id index : Nat) :
    ∃ loops, w.moveLoop id index = { w with loops } ∧ (World.heap { w with loops }).All P := by
  unfold World.moveLoop
  split
  · next l isLoop =>
      refine ⟨_, rfl, fun other l' found => ?_⟩
      rw [World.heap, Array.getElem?_setIfInBounds] at found
      have here := all id l isLoop
      split at found
      · split at found
        · cases found
          exact ⟨here.items, here.parent⟩
        · cases found
      · exact all other l' found
  · exact ⟨w.loops, rfl, all⟩

end World

namespace Value

/-- Whether a value has no parts of its own, and is not missing. -/
def isSimple : Value → Bool
  | list _ | tuple _ | dict _ | object _ _ _ _ | undefined => false
  | _ => true

/-- Whether nothing is missing in a value. The parts of a loop are those of its metadata. -/
inductive Whole : Value → Prop
  | simple {v : Value} : v.isSimple → Whole v
  | list {items : List Value} : (∀ v ∈ items, Whole v) → Whole (.list items)
  | tuple {items : List Value} : (∀ v ∈ items, Whole v) → Whole (.tuple items)
  | dict {entries : List (Value × Value)} : (∀ e ∈ entries, Whole e.2) → Whole (.dict entries)
  | object {id : Nat} {type : String} {attrs : List (String × Value)}
      {items : Option (List (Value × Value))} : (∀ e ∈ attrs, Whole e.2) →
      (∀ entries ∈ items, ∀ e ∈ entries, Whole e.2) → Whole (.object id type attrs items)

theorem Whole.ne_undefined {v : Value} (whole : v.Whole) : v ≠ .undefined := by
  rintro rfl
  cases whole with
  | simple isSimple => cases isSimple

end Value

theorem Value.whole_deep : Value.Deep Value.Whole where
  null := .simple rfl
  bool _ := .simple rfl
  int _ := .simple rfl
  str _ := .simple rfl
  list := by
    refine ⟨fun whole => ?_, .list⟩
    cases whole with
    | simple isSimple => cases isSimple
    | list items => exact items
  tuple whole := by
    cases whole with
    | simple isSimple => cases isSimple
    | tuple items => exact items
  dict whole := by
    cases whole with
    | simple isSimple => cases isSimple
    | dict values => exact values
  attrs whole := by
    cases whole with
    | simple isSimple => cases isSimple
    | object attrs _ => exact attrs
  items whole := by
    cases whole with
    | simple isSimple => cases isSimple
    | object _ items => exact items _ rfl
  dictMethod _ _ := .simple rfl
  loopMethod _ _ := .simple rfl

/-- Whether nothing is missing in the values that names stand for. -/
structure World.Whole (w : World) : Prop where
  context : ∀ e ∈ w.context.vars, e.2.Whole
  locals : ∀ e ∈ w.locals, e.2.Whole
  loops : w.heap.All Value.Whole

namespace World.Whole

theorem moveLoop {w : World} (whole : w.Whole) (id index : Nat) : (w.moveLoop id index).Whole := by
  obtain ⟨loops, moved, all⟩ := World.moveLoop_all whole.loops id index
  rw [moved]
  exact ⟨whole.context, whole.locals, all⟩

theorem walk : World.Walk fun w u => w.Whole → u.Whole where
  refl _ whole := whole
  trans first second whole := second (first whole)
  notes _ _ whole := ⟨whole.context, whole.locals, whole.loops⟩
  generators _ _ whole := ⟨whole.context, whole.locals, whole.loops⟩
  moves _ id i whole := whole.moveLoop id i
  report _ _ _ whole := ⟨whole.context, whole.locals, whole.loops⟩
  loud kept whole :=
    have after := kept ⟨whole.context, whole.locals, whole.loops⟩
    ⟨after.context, after.locals, after.loops⟩

end World.Whole

end Stencil
