import Stencil.Grammar.Calls
import Stencil.Grammar.Stmt
import Stencil.Value.Fault

namespace Stencil

structure Source where
  text : String
  name : Option String
  filename : Option String
  deriving DecidableEq, Repr

namespace Source

def error (s : Source) (stage : Stage) (message : String) (pos : Pos) (code : ErrorCode)
    (suggestion : Option String) : Diagnostic :=
  .source {
    stage, message
    line := some pos.line
    column := some pos.col
    name := s.name
    filename := s.filename
    source := some s.text
    code, suggestion }

def tokens (s : Source) : Except Diagnostic TokenStream :=
  match TokenStream.ofSource? s.text.toList with
  | .ok stream => .ok stream
  | .error (fault, pos) => .error (s.error .tokens fault.message pos fault.code none)

/-- The template that a source writes, when at most `limit` blocks may be open. -/
def template (s : Source) (limit : Int) : Except Diagnostic Template := do
  let stream ← s.tokens
  match Grammar.template limit stream.tokens with
  | .ok t => .ok t
  | .error fault =>
      let pos := match fault.token with
        | some t => t.pos
        | none => stream.stop
      .error (s.error .grammar fault.cause.message pos fault.cause.code fault.cause.suggestion?)

/-- The tokens that are read: all, or those before the one that does not fit. -/
def readTokens (limit : Int) (stream : TokenStream) : List Token :=
  match Grammar.template limit stream.tokens with
  | .ok _ => stream.tokens
  | .error fault => stream.tokens.takeWhile fun t => fault.token ≠ some t

def mostCalls (s : Source) (limit : Int) : Nat :=
  match s.tokens with
  | .error _ => 0
  | .ok stream => Grammar.mostCalls (readTokens limit stream)

/-- The template that a source writes, when only `room` calls of the reader may be open at once. -/
def templateWithin (s : Source) (room : Nat) (limit : Int) : Except Fault Template :=
  if s.mostCalls limit ≤ room then (s.template limit).mapError .diagnostic
  else .error .overflow

end Source

end Stencil
