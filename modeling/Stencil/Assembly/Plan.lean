import Stencil.Inheritance.Chain
import Stencil.Registry.Basic
import Stencil.Stmt.Source

namespace Stencil

structure Sheet where
  text : String
  filename : Option String
  deriving DecidableEq, Repr

/-- The limits of an environment: bytes in a source, open blocks in a template, and templates in a
chain of parents or includes. -/
structure Limits where
  size : Int := 5242880
  nesting : Int := 50
  depth : Int := 50
  deriving DecidableEq, Repr

/-- Sources by name. No path along includes meets more than `bound` different names that are
there. -/
structure Library where
  read : String → Except Fault Sheet
  bound : Nat

namespace Library

/-- The library of an environment that was given none. -/
def none : Library := ⟨fun _ => .error (.failure "No loader configured"), 0⟩

end Library

def Fault.isNotFound : Fault → Bool
  | .diagnostic (.notFound _) => true
  | _ => false

structure Plan where
  library : Library
  registries : Registries
  limits : Limits

namespace Plan

def sheet (p : Plan) (name : String) : Except Fault Sheet := do
  let sheet ← p.library.read name
  let size : Int := sheet.text.utf8ByteSize
  if size > p.limits.size then throw (.diagnostic (.tooLarge name size p.limits.size))
  return sheet

def parse (p : Plan) (s : Source) : Except Fault Template :=
  match s.template p.limits.nesting with
  | .ok t => .ok t
  | .error d => .error (.diagnostic d)

def found (p : Plan) (name : String) : Except Fault Found := do
  let sheet ← p.sheet name
  let template ← p.parse ⟨sheet.text, some name, sheet.filename⟩
  return ⟨template, sheet.filename⟩

def flatten (p : Plan) (t : Template) (name : String) : Except Fault (Template × List String) :=
  Chain.flatten p.found Fault.diagnostic p.limits.depth t name

/-- A template of the library with its parents and blocks expanded, and all of its files. -/
def flattened (p : Plan) (name : String) : Except Fault (Template × List String) := do
  let found ← p.found name
  let (template, files) ← p.flatten found.template name
  return (template, (found.filename.filter (· ≠ "")).toList ++ files)

end Plan

end Stencil
