import Stencil.Render.Access

namespace Stencil

def plainMethod (kind : ViewKind) (name : String) (entries : List (Value × Value))
    (a : Arguments) : Except Fault Value :=
  if !a.named.isEmpty then
    .error (.wrongArguments ("dict." ++ name ++ "() takes no keyword arguments"))
  else if !a.positional.isEmpty then
    .error (.wrongArguments ("dict." ++ name ++ "() takes no arguments (" ++
      toString a.positional.length ++ " given)"))
  else .ok (.view kind entries)

def getEntry (entries : List (Value × Value)) (key default : Value) : Except Fault Value :=
  match key.unhashable? with
  | some type => .error (.notHashable type)
  | none => .ok ((Value.valueAt? key entries).getD default)

def dictMethod (entries : List (Value × Value)) (name : String) (a : Arguments) :
    Except Fault Value :=
  match name with
  | "keys" => plainMethod .keys name entries a
  | "values" => plainMethod .values name entries a
  | "items" => plainMethod .items name entries a
  | _ =>
      if !a.named.isEmpty then .error (.wrongArguments "dict.get() takes no keyword arguments")
      else
        match a.positional with
        | [] => .error (.wrongArguments "get expected at least 1 argument, got 0")
        | [key] => getEntry entries key .null
        | [key, default] => getEntry entries key default
        | args => .error (.wrongArguments
            ("get expected at most 2 arguments, got " ++ toString args.length))

def cycleMethod (l : LoopState) (a : Arguments) : Except Fault Value :=
  match a.named with
  | (name, _) :: _ => .error (.wrongArguments
      ("LoopContext.cycle() got an unexpected keyword argument '" ++ name ++ "'"))
  | [] => .ok (l.cycle a.positional)

def callCycle (id : Nat) (a : Arguments) : Eval Value := do
  match (← get).loops[id]? with
  | some l => Eval.ofExcept (cycleMethod l a)
  | none => return .null

def Value.isHosted : Value → Bool
  | .function _ => true
  | .method (.dict _) name => !dictMethods.contains name
  | .method (.loop _) name => name != "cycle"
  | .method _ _ => true
  | _ => false

namespace Setting

def callHost (s : Setting) (f : Value) (a : Arguments) : Eval Value := do
  let w ← get
  let answer := s.host.call w.heap f a
  set (w.settle answer)
  Eval.ofExcept answer.result

/-- Calls a value. A call of a missing value is missing. -/
def callValue (s : Setting) (f : Value) (a : Arguments) : Eval Value := do
  if f.isHosted then s.callHost f a
  else
    match f with
    | .undefined => return .undefined
    | .method (.dict entries) name => Eval.ofExcept (dictMethod entries name a)
    | .method (.loop id) _ => callCycle id a
    | f => throw (.notCallable f.typeName)

def callRegistered (s : Setting) (c : Callable) (a : Arguments) : Eval Value :=
  match c with
  | .filter n => Eval.withLoopText fun loopText => Filter.call loopText n a
  | .test n => Eval.ofExcept (Test.call n a)
  | .range => Eval.ofExcept (Range.call a)
  | .value v => s.callValue v a

def unknownName (s : Setting) (kind : NameKind) (name : String) (known : Registry) (line : Nat) :
    Fault :=
  .diagnostic (.unknownName ⟨kind, name, known.map (·.1), s.name, some line⟩)

def refuseNames (caller : String) (taken : List String) (named : List (String × Value)) :
    Eval Unit :=
  match named.find? fun e => taken.contains e.1 with
  | some (name, _) => throw (.wrongArguments ("Template.__init__.<locals>." ++ caller ++
      "() got multiple values for argument '" ++ name ++ "'"))
  | none => return ()

def callNamed (s : Setting) (kind : NameKind) (table : Registry) (name : String) (a : Arguments) :
    Eval Value := do
  match table.lookup name with
  | some c => s.callRegistered c a
  | none => throw (s.unknownName kind name table (← get).line)

def callFilter (s : Setting) (name : String) (v : Value) (a : Arguments) : Eval Value := do
  refuseNames "_filter" ["filter_name", "value"] a.named
  s.callNamed .filter s.registries.filters name { a with positional := v :: a.positional }

def callFunction (s : Setting) (name : String) (a : Arguments) : Eval Value := do
  refuseNames "_call_function" ["func_name"] a.named
  s.callNamed .function s.registries.functions name a

def callTest (s : Setting) (name : String) (v : Value) (args : List Value) : Eval Bool := do
  return (← s.callNamed .test s.registries.tests name ⟨v :: args, []⟩).truthy

end Setting

end Stencil
