import Stencil.Grammar.Fault

/-!
How many calls of the reader are open while a token list is read. The calls of an expression go
through fourteen levels: the expression, the choice, `or`, `and`, `not`, the comparison, the
concatenation, the sum, the product, the sign, the range, the filter, the suffix and the operand.
What stands inside brackets, behind a sign or `not` and in a choice is read by calls inside these.
-/

namespace Stencil.Grammar

/-- The open calls of an expression: those around it, and those of the `not`s and the signs that
wait for their operand. -/
structure OpenExpr where
  around : Nat
  nots : Nat
  signs : Nat
  deriving DecidableEq, Repr

namespace OpenExpr

def inside (calls : Nat) : OpenExpr := ⟨calls, 0, 0⟩

def calls (e : OpenExpr) : Nat := e.around + e.nots + e.signs

end OpenExpr

/-- Why an expression waits for another: for the end of brackets, for the colon of its choice, or
for the last part of it. -/
inductive Awaited
  | bracket
  | colon
  | last
  deriving DecidableEq, Repr

/-- What arguments in parentheses may follow. -/
inductive Callee
  | value
  | filter
  | test
  deriving DecidableEq, Repr

def Callee.argumentCalls : Callee → Nat
  | value => 14
  | filter => 13
  | test => 8

/-- What the reader looks for between two tokens. In a tag without an expression, or before it, that
is a heading; a list of expressions may end where one of them would start. -/
inductive Place
  | body
  | keyword
  | heading
  | target
  | afterTarget
  | start
  | operand (mayNegate : Bool)
  | suffix (callee : Callee)
  | member
  | filterName
  | testName (mayNegate : Bool)
  deriving DecidableEq, Repr

structure Reading where
  blocks : Nat
  inner : OpenExpr
  outer : List (Awaited × OpenExpr)
  place : Place
  deriving DecidableEq, Repr

namespace Reading

def initial : Reading := ⟨0, .inside 0, [], .body⟩

def at_ (r : Reading) (place : Place) : Reading := { r with place }

/-- Reads an expression inside the current one, `calls` further in. -/
def enter (r : Reading) (awaited : Awaited) (calls : Nat) (place : Place) : Reading :=
  { r with inner := .inside (r.inner.calls + calls), outer := (awaited, r.inner) :: r.outer, place }

def next (r : Reading) (place : Place) : Reading :=
  { r with inner := .inside r.inner.around, place }

/-- The operand of an operator that binds less tightly than signs. -/
def operandOf (r : Reading) (place : Place) : Reading :=
  { r with inner := { r.inner with signs := 0 }, place }

def endChoices (inner : OpenExpr) :
    List (Awaited × OpenExpr) → OpenExpr × List (Awaited × OpenExpr)
  | (.last, e) :: outer => endChoices e outer
  | outer => (inner, outer)

def afterChoices (r : Reading) : Reading :=
  let (inner, outer) := endChoices r.inner r.outer
  { r with inner, outer }

def colon (r : Reading) : Reading :=
  let ended := r.afterChoices
  match ended.outer with
  | (.colon, e) :: outer => { ended with inner := e, outer }.enter .last 2 (.operand true)
  | _ => ended.next (.operand true)

def closeWithin (inner : OpenExpr) :
    List (Awaited × OpenExpr) → OpenExpr × List (Awaited × OpenExpr)
  | (.bracket, e) :: outer => (e, outer)
  | (_, e) :: outer => closeWithin e outer
  | [] => (inner, [])

def close (r : Reading) : Reading :=
  let (inner, outer) := closeWithin r.inner r.outer
  { r with inner, outer, place := .suffix .value }

def symbol (r : Reading) : Symbol → Reading
  | .comma => r.afterChoices.next .start
  | .colon => r.colon
  | .assign => r.next (.operand true)
  | .rparen | .rbracket | .rbrace => r.close
  | .question => { r with inner := .inside r.inner.around }.enter .colon 2 (.operand true)
  | _ => r.operandOf (.operand false)

def word (r : Reading) : String → Reading
  | "and" | "or" => r.next (.operand true)
  | "in" | "with" => r.operandOf (.operand false)
  | "is" => r.operandOf (.testName true)
  | _ => r

def operandStep (r : Reading) (mayNegate : Bool) (t : Token) : Reading :=
  match t.kind with
  | .name =>
      if mayNegate && t.text == "not" then
        { r with inner := { r.inner with nots := r.inner.nots + 1 }, place := .operand true }
      else r.at_ (.suffix .value)
  | .symbol .sub | .symbol .add =>
      { r with inner := { r.inner with signs := r.inner.signs + 1 }, place := .operand false }
  | .symbol .lparen => r.enter .bracket 14 (.operand true)
  | .symbol .lbracket | .symbol .lbrace => r.enter .bracket 15 .start
  | .symbol s => r.symbol s
  | _ => r.at_ (.suffix .value)

def suffixStep (r : Reading) (callee : Callee) (t : Token) : Reading :=
  match t.kind with
  | .name => r.word t.text
  | .symbol .dot => r.at_ .member
  | .symbol .lbracket => r.enter .bracket 13 (.operand true)
  | .symbol .lparen => r.enter .bracket callee.argumentCalls .start
  | .symbol .pipe => r.at_ .filterName
  | .symbol .range => r.at_ (.operand false)
  | .symbol s => r.symbol s
  | _ => r

/-- An expression of a tag that stands in `blocks` blocks. -/
def tag (r : Reading) (blocks : Nat) (place : Place) : Reading :=
  { r with inner := .inside (3 * blocks + 4), outer := [], place }

/-- The keyword of a tag. The calls of a block are those that read its tag and its body. -/
def keywordStep (r : Reading) (keyword : String) : Reading :=
  if ["if", "while"].contains keyword then
    { r.tag r.blocks (.operand true) with blocks := r.blocks + 1 }
  else if keyword = "for" then { r.tag r.blocks .target with blocks := r.blocks + 1 }
  else if ["block", "spaceless", "autoescape"].contains keyword then
    { r.tag r.blocks .heading with blocks := r.blocks + 1 }
  else if ["elseif", "elif"].contains keyword then r.tag (r.blocks - 1) (.operand true)
  else if ["else", "empty"].contains keyword then r.tag (r.blocks - 1) .heading
  else if continuationKeywords.contains keyword then
    { r.tag (r.blocks - 1) .heading with blocks := r.blocks - 1 }
  else if keyword = "debug" then r.tag r.blocks .start
  else r.tag r.blocks .heading

def step (r : Reading) (t : Token) : Reading :=
  match t.kind with
  | .opening .statement => r.at_ .keyword
  | .opening _ =>
      { r with inner := .inside (3 * r.blocks + 3), outer := [], place := .operand true }
  | .closing _ => r.at_ .body
  | _ =>
      match r.place with
      | .body => r
      | .keyword => r.keywordStep t.text
      | .heading => if t.kind = .symbol .assign then r.next (.operand true) else r
      | .target => r.at_ .afterTarget
      | .afterTarget => r.at_ (if t.kind = .symbol .comma then .target else .operand true)
      | .start => r.operandStep true t
      | .operand mayNegate => r.operandStep mayNegate t
      | .suffix callee => r.suffixStep callee t
      | .member => r.at_ (.suffix .value)
      | .filterName => r.at_ (.suffix .filter)
      | .testName mayNegate =>
          if mayNegate && t.text == "not" then r.at_ (.testName false) else r.at_ (.suffix .test)

def endsList (t : Token) : Bool :=
  [TokenKind.symbol .rparen, .symbol .rbracket, .symbol .rbrace, .closing .statement].contains
    t.kind

/-- The calls that are open when the reader looks at the token to come. -/
def calls (r : Reading) (coming : Option Token) : Nat :=
  match r.place with
  | .body => 3 * r.blocks + 2
  | .keyword => 3 * r.blocks + 3
  | .heading | .target | .afterTarget => r.inner.around
  | .start => if coming.any endsList then r.inner.around else r.inner.calls + 14
  | .operand _ => r.inner.calls + 14
  | .suffix _ | .member | .filterName | .testName _ => r.inner.calls + 13

def mostCalls (r : Reading) : List Token → Nat
  | [] => r.calls none
  | t :: ts => max (r.calls (some t)) ((r.step t).mostCalls ts)

end Reading

/-- The most calls that are open at once while a token list is read. -/
def mostCalls (tokens : List Token) : Nat := Reading.initial.mostCalls tokens

end Stencil.Grammar
