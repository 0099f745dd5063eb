import Stencil.Render.Setting

namespace Stencil

def dictMethods : List String := ["keys", "values", "items", "get"]

def Date.attribute? (d : Date) (name : String) : Option Value :=
  match name with
  | "year" => some (.int d.year)
  | "month" => some (.int d.month)
  | "day" => some (.int d.day)
  | _ => none

def Moment.attribute? (m : Moment) (name : String) : Option Value :=
  match name with
  | "hour" => some (.int m.hour)
  | "minute" => some (.int m.minute)
  | "second" => some (.int m.second)
  | "microsecond" => some (.int m.micros)
  | _ => m.date.attribute? name

namespace Value

def ownAttribute? (loops : Array LoopState) (v : Value) (name : String) : Option Value :=
  match v with
  | .dict entries => if dictMethods.contains name then some (.method (.dict entries) name) else none
  | .date d => d.attribute? name
  | .moment m => m.attribute? name
  | .object _ _ attrs _ => attrs.lookup name
  | .loop id => loops[id]?.bind fun l => l.attribute? id name
  | _ => none

def attribute? (host : Host) (heap : Heap) (v : Value) (name : String) : Option Value :=
  (v.ownAttribute? heap.loops name).orElse fun _ => host.attribute? heap v name

/-- The item at an index; a negative one counts from the end. -/
def itemAt? {α : Type} (items : List α) (i : Int) : Option α :=
  if i < 0 then
    if (items.length : Int) + i < 0 then none else items[(items.length + i).toNat]?
  else items[i.toNat]?

def subscript? (v key : Value) : Option Value :=
  match v, key.int? with
  | .dict entries, _ => if key.unhashable?.isSome then none else valueAt? key entries
  | .object _ _ _ (some entries), _ =>
      if key.unhashable?.isSome then none else valueAt? key entries
  | .list items, some i | .tuple items, some i => itemAt? items i
  | .str s, some i | .markup s, some i =>
      (itemAt? s.toList i).map fun c => .str (String.singleton c)
  | .bytes bs, some i => (itemAt? bs i).map fun b => .int b.toNat
  | _, _ => none

/-- The part of a value behind a key: dictionaries are asked for the entry first, other values for
the attribute. Null is not asked. -/
def part? (host : Host) (heap : Heap) (v key : Value) : Option Value :=
  let named := key.text?.bind (v.attribute? host heap)
  match v with
  | .null => none
  | .dict _ => (v.subscript? key).orElse fun _ => named
  | _ => named.orElse fun _ => v.subscript? key

def missedPart (v : Value) (key : String) : String :=
  match v with
  | .null => "Cannot access '" ++ key ++ "' on null"
  | .dict _ => "Undefined key '" ++ key ++ "' on dict"
  | v => "Undefined attribute '" ++ key ++ "' on " ++ v.shortTypeName

end Value

namespace Setting

/-- The part of a value. A missing part is reported; nothing is reported for the parts of a missing
value. -/
def access (s : Setting) (v key : Value) : Eval Value := do
  match v with
  | .undefined => return .undefined
  | v =>
      let w ← get
      match v.part? s.host w.heap key with
      | some part => return part
      | none =>
          let name := String.ofList (key.plain w.loopText)
          s.missing name (v.missedPart name)

/-- A variable of the context; a missing one is reported. -/
def lookup (s : Setting) (name : String) : Eval Value := do
  match (← get).context.get? name with
  | some v => return v
  | none => s.missing name ("Undefined variable '" ++ name ++ "'")

/-- The value of a name: the nearest loop variable, or else the variable of the context. -/
def variableOf (s : Setting) (name : String) : Eval Value := do
  match (← get).locals.lookup name with
  | some v => return v
  | none => s.lookup name

end Setting

def isSet (name : String) : Eval Bool := do
  return ((← get).context.get? name).any Value.truthy

namespace Value

/-- The items of a value that is gone through. A generator gives each item once; a loop is moved to
its last item. -/
def iterate (v : Value) : Eval (List Value) := do
  match v with
  | .list items | .tuple items => return items
  | .str text | .markup text => return text.toList.map fun c => .str (String.singleton c)
  | .bytes bs => return bs.map fun b => .int b.toNat
  | .dict entries => return entries.map (·.1)
  | .view kind entries => return entries.map fun (k, v) =>
      match kind with
      | .keys => k
      | .values => v
      | .items => .tuple [k, v]
  | .undefined => return []
  | .generator id =>
      let w ← get
      set { w with generators := w.generators.setIfInBounds id [] }
      return (w.generators[id]?).getD []
  | .loop id =>
      let w ← get
      let items := match w.loops[id]? with
        | some l => l.items
        | none => []
      set (if items.isEmpty then w else w.moveLoop id (items.length - 1))
      return items
  | v => throw (.notIterable v.typeName)

/-- The items that a loop goes through. Of a dictionary a loop over single items takes the values,
a loop over pairs the entries; other items are paired with their positions. -/
def loopItems (v : Value) (pairs : Bool) : Eval (List Value) := do
  match v with
  | .null => return []
  | .dict entries => return entries.map fun (k, v) => if pairs then .tuple [k, v] else v
  | v =>
      let items ← v.iterate
      return if pairs then items.zipIdx.map fun (v, i) => .tuple [.int i, v] else items

/-- How far a search for an item goes: the items up to the one that is found, and whether one
is. -/
def searchItem (item : Value) : List Value → Nat × Bool
  | [] => (0, false)
  | v :: rest =>
      if beq v item then (1, true)
      else
        let (n, found) := searchItem item rest
        (n + 1, found)

/-- Whether an item is in a value. A search in a generator uses up what it goes over, and a search
in a loop moves it. What cannot hold items holds none. -/
def holds (v item : Value) : Eval Bool := do
  match v with
  | .list items | .tuple items => return items.any (beq · item)
  | .str text | .markup text =>
      return item.text?.any fun t => (Text.splitAt? t.toList text.toList).isSome
  | .dict entries | .view .keys entries =>
      return item.unhashable?.isNone && (valueAt? item entries).isSome
  | .view .values entries => return entries.any fun e => beq e.2 item
  | .view .items entries =>
      match item with
      | .tuple [k, v] =>
          return k.unhashable?.isNone && (valueAt? k entries).any (beq · v)
      | _ => return false
  | .bytes bs =>
      match item with
      | .bytes part => return (List.range (bs.length + 1)).any fun i => part.isPrefixOf (bs.drop i)
      | item =>
          match item.int? with
          | some i =>
              if 0 ≤ i ∧ i < 256 then return bs.any fun b => (b.toNat : Int) == i
              else throw (.badValue "byte must be in range(0, 256)")
          | none => return false
  | .generator id =>
      let w ← get
      let items := (w.generators[id]?).getD []
      let (n, found) := searchItem item items
      set { w with generators := w.generators.setIfInBounds id (items.drop n) }
      return found
  | .loop id =>
      let w ← get
      let items := match w.loops[id]? with
        | some l => l.items
        | none => []
      let (n, found) := searchItem item items
      set (if n = 0 then w else w.moveLoop id (n - 1))
      return found
  | _ => return false

end Value

end Stencil
