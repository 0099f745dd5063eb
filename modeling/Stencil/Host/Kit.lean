import Stencil.Host.Basic
import Stencil.Text.Case
import Stencil.Value.Number
import Stencil.Value.Order

/-!
A small kit of host functions, with some of the attributes that built-in values have by themselves,
enough to try templates with.
-/

namespace Stencil.Kit

def needed (name : String) : Parameter := ⟨name, none⟩

def optional (name text : String) : Parameter := ⟨name, some (.str text)⟩

/-- Positional arguments in the form that containers show, then the named ones behind their
names. -/
def listing (loopText : Nat → List Char) (a : Arguments) : Value :=
  let named := a.named.map fun (name, v) => name.toList ++ '=' :: v.shown loopText
  .str (String.ofList
    (Value.joinTexts [','] (a.positional.map (Value.shown loopText) ++ named)))

def text (loopText : Nat → List Char) (v : Value) : String := String.ofList (v.plain loopText)

def tag (loopText : Nat → List Char) (name cls : Value) : Value :=
  .str ("<" ++ text loopText name ++ " class='" ++ text loopText cls ++ "'>")

def longerThan (v size : Value) : Except Fault Value :=
  match v.length with
  | .ok n => (Value.order .gt (.int n) size).map Value.bool
  | .error fault => .error fault

def parameters? (name : String) : Option (List Parameter) :=
  match name with
  | "double" | "inc" => some [needed "n"]
  | "wrap" => some [needed "value", optional "left" "[", optional "right" "]"]
  | "tag" => some [needed "name", optional "cls" ""]
  | "url" => some [optional "path" ""]
  | "markup" | "Markup" => some [needed "text"]
  | "fail" | "fail_key" | "fail_runtime" => some [needed "message"]
  | "none" => some []
  | "longer_than" => some [needed "value", needed "size"]
  | "same" | "trace" => some [needed "value"]
  | "type" => some [needed "object"]
  | _ => none

def run (loopText : Nat → List Char) (name : String) (args : List Value) : Except Fault Value :=
  match name, args with
  | "double", [n] => Value.multiply n (.int 2)
  | "inc", [n] => Value.add n (.int 1)
  | "wrap", [v, left, right] =>
      .ok (.str (text loopText left ++ text loopText v ++ text loopText right))
  | "tag", [name, cls] => .ok (tag loopText name cls)
  | "url", [path] => .ok (.str ("/app/" ++ text loopText path))
  | "markup", [v] | "Markup", [v] => .ok (.markup (text loopText v))
  | "fail", [message] => .error (.badValue (text loopText message))
  | "fail_key", [message] => .error (.missingKey (String.ofList (message.shown loopText)))
  | "fail_runtime", [message] => .error (.failure (text loopText message))
  | "longer_than", [v, size] => longerThan v size
  | "same", [v] | "trace", [v] => .ok v
  | "type", [v] => .ok (.function v.typeName)
  | _, _ => .ok .null

/-! Attributes of texts and of generators. -/

def changeText? (name : String) : Option (List Char → List Char) :=
  match name with
  | "upper" => some Text.upper
  | "lower" => some Text.lower
  | "title" => some Text.title
  | _ => none

/-- The frame of a generator, and among the names that its code can use the one that gives the type
of a value. -/
def frame (id : Nat) : Value :=
  .object id "frame" [("f_builtins", .dict [(.str "type", .function "type")])] none

def attribute? (heap : Heap) (v : Value) (name : String) : Option Value :=
  match v with
  | .str _ | .markup _ => (changeText? name).map fun _ => .method v name
  | .generator id =>
      if name = "gi_frame" then
        some (if ((heap.generators[id]?).getD []).isEmpty then .null else frame id)
      else none
  | _ => none

def callMethod (self : Value) (name : String) (a : Arguments) : Except Fault Value :=
  match self.text?, changeText? name with
  | some text, some change =>
      if !a.named.isEmpty then
        .error (.wrongArguments ("str." ++ name ++ "() takes no keyword arguments"))
      else if !a.positional.isEmpty then
        .error (.wrongArguments ("str." ++ name ++ "() takes no arguments (" ++
          toString a.positional.length ++ " given)"))
      else .ok (.str (String.ofList (change text.toList)))
  | _, _ => .error (.notCallable (Value.method self name).typeName)

def callFunction (loopText : Nat → List Char) (name : String) (a : Arguments) : HostAnswer :=
  if name = "args" then { result := .ok (listing loopText a) }
  else
    match parameters? name with
    | none => { result := .error (.notCallable "function") }
    | some parameters =>
        match Signature.bind ⟨name, parameters⟩ a with
        | .error fault => { result := .error fault }
        | .ok args =>
            { result := run loopText name args, notes := if name = "trace" then args else [] }

def call (heap : Heap) (callee : Value) (a : Arguments) : HostAnswer :=
  match callee with
  | .function name => callFunction heap.loopText name a
  | .method self name => { result := callMethod self name a }
  | v => { result := .error (.notCallable v.typeName) }

def host : Host where
  call := call
  attribute? := attribute?

end Stencil.Kit
