import Stencil.Decimal.Binary
import Stencil.Value.Basic

/-!
Equality of values, and of keys. Numbers are equal by value, whatever their type; strings by text.
A missing value equals null and itself, but as a key the two differ.
-/

namespace Stencil.Value

inductive Worth
  | int (i : Int)
  | float (f : Float)

def worth? : Value → Option Worth
  | .bool b => some (.int (if b then 1 else 0))
  | .int i => some (.int i)
  | .float f => some (.float f)
  | _ => none

/-- Whether two numbers are equal. A whole number is compared exactly. -/
def Worth.beq : Worth → Worth → Bool
  | .int a, .int b => a == b
  | .float a, .float b => a == b
  | .int a, .float b => Decimal.compareIntFloat a b == some .eq
  | .float a, .int b => Decimal.compareIntFloat b a == some .eq

def beqMoments (a b : Moment) : Bool :=
  match a.offset, b.offset with
  | none, none => a.localMicros == b.localMicros
  | some x, some y => a.localMicros - x == b.localMicros - y
  | _, _ => false

def sameNumber (a : Worth) (v : Value) : Bool :=
  match v.worth? with
  | some b => a.beq b
  | none => false

mutual

/-- Whether two values are equal. `alike` says whether null and a missing value are to be equal. -/
def same (alike : Bool) : Value → Value → Bool
  | .null, v =>
      match v with
      | .null => true
      | .undefined => alike
      | _ => false
  | .undefined, v =>
      match v with
      | .undefined => true
      | .null => alike
      | _ => false
  | .bool a, v => sameNumber (.int (if a then 1 else 0)) v
  | .int a, v => sameNumber (.int a) v
  | .float a, v => sameNumber (.float a) v
  | .str a, v => v.text? == some a
  | .markup a, v => v.text? == some a
  | .list as, v =>
      match v with
      | .list bs => sameAll alike as bs
      | _ => false
  | .tuple as, v =>
      match v with
      | .tuple bs => sameAll alike as bs
      | _ => false
  | .dict as, v =>
      match v with
      | .dict bs => as.length == bs.length && sameEntries alike as bs
      | _ => false
  | .date a, v =>
      match v with
      | .date b => a == b
      | _ => false
  | .moment a, v =>
      match v with
      | .moment b => beqMoments a b
      | _ => false
  | .bytes a, v =>
      match v with
      | .bytes b => a == b
      | _ => false
  | .object a _ _ _, v =>
      match v with
      | .object b _ _ _ => a == b
      | _ => false
  | .html a _, v =>
      match v with
      | .html b _ => a == b
      | _ => false
  | .function a, v =>
      match v with
      | .function b => a == b
      | _ => false
  | .method self a, v =>
      match v with
      | .method other b => a == b && same alike self other
      | _ => false
  | .view ka as, v =>
      match v with
      | .view kb bs =>
          ka == kb && as.length == bs.length &&
            match ka with
            | .keys => sameKeys as bs
            | .values => false
            | .items => sameEntries alike as bs
      | _ => false
  | .loop a, v =>
      match v with
      | .loop b => a == b
      | _ => false
  | .generator a, v =>
      match v with
      | .generator b => a == b
      | _ => false

def sameAll (alike : Bool) : List Value → List Value → Bool
  | [], [] => true
  | a :: as, b :: bs => same alike a b && sameAll alike as bs
  | _, _ => false

def sameEntries (alike : Bool) : List (Value × Value) → List (Value × Value) → Bool
  | [], _ => true
  | (k, v) :: rest, bs =>
      (bs.any fun (k', v') => same false k k' && same alike v v') && sameEntries alike rest bs

def sameKeys : List (Value × Value) → List (Value × Value) → Bool
  | [], _ => true
  | (k, _) :: rest, bs => (bs.any fun e => same false k e.1) && sameKeys rest bs

end

def beq (a b : Value) : Bool := same true a b

def sameKey (a b : Value) : Bool := same false a b

/-- The type of the first part of a value that keeps it from being a key, if there is one. -/
def unhashable? : Value → Option String
  | .list _ => some "list"
  | .dict _ => some "dict"
  | .view .keys _ => some "dict_keys"
  | .view .items _ => some "dict_items"
  | .tuple items => unhashableAmong? items
  | _ => none
where
  unhashableAmong? : List Value → Option String
    | [] => none
    | v :: rest =>
        match unhashable? v with
        | some type => some type
        | none => unhashableAmong? rest

def setEntry (key value : Value) : List (Value × Value) → List (Value × Value)
  | [] => [(key, value)]
  | (k, v) :: rest =>
      if sameKey k key then (k, value) :: rest else (k, v) :: setEntry key value rest

def valueAt? (key : Value) (entries : List (Value × Value)) : Option Value :=
  (entries.find? fun e => sameKey e.1 key).map (·.2)

end Stencil.Value
