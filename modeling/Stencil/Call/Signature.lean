import Stencil.Value.Basic
import Stencil.Value.Fault

namespace Stencil

structure Arguments where
  positional : List Value
  named : List (String × Value)

/-- A parameter of a function. One that has a default may be left out. -/
structure Parameter where
  name : String
  default : Option Value := none

structure Signature where
  name : String
  parameters : List Parameter

namespace Signature

def refuse (s : Signature) (reason : String) : Fault := .wrongArguments (s.name ++ "() " ++ reason)

def refusedName? (s : Signature) (a : Arguments) : Option Fault :=
  a.named.findSome? fun (name, _) =>
    match s.parameters.findIdx? (·.name == name) with
    | none => some (s.refuse ("got an unexpected keyword argument '" ++ name ++ "'"))
    | some i =>
        if i < a.positional.length then
          some (s.refuse ("got multiple values for argument '" ++ name ++ "'"))
        else none

def takes (s : Signature) : String :=
  let most := s.parameters.length
  let least := (s.parameters.filter (·.default.isNone)).length
  if least < most then
    "from " ++ toString least ++ " to " ++ toString most ++ " positional arguments"
  else if most = 1 then "1 positional argument"
  else toString most ++ " positional arguments"

def fill (named : List (String × Value)) :
    List Parameter → List Value → List (Parameter × Option Value)
  | [], _ => []
  | p :: ps, v :: vs => (p, some v) :: fill named ps vs
  | p :: ps, [] => (p, (named.lookup p.name).orElse fun _ => p.default) :: fill named ps []

def enumerated : List String → String
  | [] => ""
  | [a] => "'" ++ a ++ "'"
  | [a, b] => "'" ++ a ++ "' and '" ++ b ++ "'"
  | names =>
      let quoted := names.map fun n => "'" ++ n ++ "'"
      String.intercalate ", " quoted.dropLast ++ ", and " ++ quoted.getLastD ""

def bind (s : Signature) (a : Arguments) : Except Fault (List Value) :=
  match s.refusedName? a with
  | some fault => .error fault
  | none =>
      let given := a.positional.length
      if given > s.parameters.length then
        .error (s.refuse ("takes " ++ s.takes ++ " but " ++ toString given ++
          (if given = 1 then " was" else " were") ++ " given"))
      else
        let filled := fill a.named s.parameters a.positional
        match (filled.filter (·.2.isNone)).map (·.1.name) with
        | [] => .ok (filled.filterMap (·.2))
        | [name] => .error (s.refuse ("missing 1 required positional argument: '" ++ name ++ "'"))
        | names => .error (s.refuse ("missing " ++ toString names.length ++
            " required positional arguments: " ++ enumerated names))

end Signature

end Stencil
