import Stencil.Diagnostic.Basic
import Stencil.Host.Basic
import Stencil.Render.World

namespace Stencil

structure Setting where
  host : Host
  registries : Registries := .builtin
  name : Option String := none
  filename : Option String := none
  source : String := ""
  /-- Whether a reference to something missing ends the render. -/
  strict : Bool := false

namespace Setting

def placeOf (s : Setting) (line : Nat) : String :=
  firstGiven [s.filename, s.name] unnamed ++ ":" ++ toString line

def reachedLine (line : Nat) : Option Int := if line = 0 then none else some line

def snippetAt (s : Setting) (line : Nat) : Option Snippet :=
  if s.source = "" ∨ line = 0 then none else some (Snippet.ofSource s.source line 2 none)

def undefinedError (s : Setting) (r : Reference) : UndefinedReference where
  name := r.name
  template := s.name
  line := reachedLine r.line
  available := r.available
  snippet := s.snippetAt r.line
  detail := some r.message

/-- The text of a fault, with its kind where the text alone does not tell. -/
def faultText (f : Fault) : String :=
  let text := String.ofList (Text.strip f.message.toList)
  if text = "" then f.kind ++ " (no details available)"
  else if f.speaksForItself then text
  else f.kind ++ ": " ++ text

def renderError (s : Setting) (line : Nat) : Fault → Diagnostic
  | .diagnostic d => d
  | f => .render {
      message := faultText f
      expression := none
      values := []
      template := s.name
      line := reachedLine line
      suggestion := none
      snippet := s.snippetAt line }

/-- Reports a missing reference, unless it stands in a quiet operand. -/
def report (s : Setting) (name message : String) : Eval Unit := do
  let w ← get
  if w.quiet = 0 then
    let r : Reference := { name, message, line := w.line, available := w.names }
    set { w with references := w.references ++ [r] }
    if s.strict then throw (.diagnostic (.undefinedReference (s.undefinedError r)))

def missing (s : Setting) (name message : String) : Eval Value := do
  s.report name message
  return .undefined

end Setting

end Stencil
