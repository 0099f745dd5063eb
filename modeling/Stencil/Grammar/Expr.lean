import Stencil.Expr.Basic
import Stencil.Grammar.Reader

/-!
The grammar of expressions, from the tightest binding to the loosest: operands, accesses and calls,
filters, ranges, signs, products, sums, concatenations, comparisons and tests, `not`, `and`, `or`,
and the choice. Every level is a reader that is given a reader of whole expressions, for what stands
inside brackets.
-/

namespace Stencil.Grammar

open Reader

def constant? : String → Option Literal
  | "true" | "True" => some (.bool true)
  | "false" | "False" => some (.bool false)
  | "null" | "none" | "None" => some .null
  | _ => none

def natOfDigits (text : String) : Nat := Nat.ofDigitChars 10 text.toList 0

def decimalOfText (text : String) : Literal :=
  let digits := text.toList.filter (· ≠ '.')
  let places := (text.toList.dropWhile (· ≠ '.')).drop 1
  .decimal (Nat.ofDigitChars 10 digits 0) places.length

inductive Argument
  | positional (value : Expr)
  | keyword (name : String) (value : Expr)

/-- Sets a keyword argument: a name that is given again keeps its place and takes the new value. -/
def setKeyword (name : String) (value : Expr) : List (String × Expr) → List (String × Expr)
  | [] => [(name, value)]
  | (n, v) :: rest =>
      if n = name then (n, value) :: rest else (n, v) :: setKeyword name value rest

def Argument.isKeyword : Argument → Bool
  | .keyword _ _ => true
  | .positional _ => false

def splitArguments (arguments : List Argument) : List Expr × List (String × Expr) :=
  (arguments.filterMap fun
      | .positional e => some e
      | .keyword _ _ => none,
   arguments.foldl (fun kwargs argument =>
      match argument with
      | .positional _ => kwargs
      | .keyword name value => setKeyword name value kwargs) [])

def wordBefore? (s : Symbol) : Reader (Option Token) := do
  match ← peek, ← peekNext with
  | some word, some next =>
      if word.kind = .name ∧ next.kind = .symbol s then
        skip
        return some word
      else return none
  | _, _ => return none

/-- An argument; after a keyword argument all are keyword arguments. -/
def argument (whole : Reader Expr) (previous : List Argument) : Reader Argument := do
  match ← wordBefore? .assign with
  | some word =>
      skip
      return .keyword word.text (← whole)
  | none =>
      if previous.any Argument.isKeyword then fail .positionalAfterKeyword
      else return .positional (← whole)

def arguments (whole : Reader Expr) : Reader (List Expr × List (String × Expr)) := do
  let _ ← expect (.symbol .lparen)
  return splitArguments (← items .rparen (argument whole))

def optionalArguments (whole : Reader Expr) : Reader (List Expr × List (String × Expr)) := do
  match ← peek with
  | some t => if t.kind = .symbol .lparen then arguments whole else return ([], [])
  | none => return ([], [])

/-- An entry of a dictionary; a bare word before the colon is a string. -/
def entry (whole : Reader Expr) : Reader (Expr × Expr) := do
  let key ← match ← wordBefore? .colon with
    | some word => pure (Expr.const word.pos (.string word.text))
    | none => whole
  let _ ← expect (.symbol .colon)
  return (key, ← whole)

def operand (whole : Reader Expr) : Reader Expr := do
  match ← peek with
  | none => fail (.unexpectedOperand none)
  | some t =>
      match t.kind with
      | .string => do
          skip
          return .const t.pos (.string t.text)
      | .integer => do
          skip
          return .const t.pos (.nat (natOfDigits t.text))
      | .decimal => do
          skip
          return .const t.pos (decimalOfText t.text)
      | .name => do
          skip
          match constant? t.text with
          | some value => return .const t.pos value
          | none => return .name t.pos t.text
      | .symbol .lparen => do
          skip
          let e ← whole
          let _ ← expect (.symbol .rparen)
          return e
      | .symbol .lbracket => do
          skip
          return .list t.pos (← items .rbracket fun _ => whole)
      | .symbol .lbrace => do
          skip
          return .dict t.pos (← items .rbrace fun _ => entry whole)
      | _ => fail (.unexpectedOperand (some t))

inductive Suffix
  | attr (pos : Pos) (name : String)
  | item (pos : Pos) (key : Expr)
  | call (args : List Expr) (kwargs : List (String × Expr))

def Suffix.apply (e : Expr) : Suffix → Expr
  | .attr p name => .attr p e name
  | .item p key => .item p e key
  | .call args kwargs => .call e.pos e args kwargs

def member : Reader Suffix := do
  match ← peek with
  | some t =>
      if t.kind = .name then
        skip
        return .attr t.pos t.text
      else if t.kind = .integer then
        skip
        return .item t.pos (.const t.pos (.nat (natOfDigits t.text)))
      else fail .expectedAttribute
  | none => fail .expectedAttribute

def suffix? (whole : Reader Expr) : Reader (Option Suffix) := do
  match ← peek with
  | some t =>
      match t.kind with
      | .symbol .dot => do
          skip
          return some (← member)
      | .symbol .lbracket => do
          skip
          let key ← whole
          let _ ← expect (.symbol .rbracket)
          return some (.item t.pos key)
      | .symbol .lparen => do
          let (args, kwargs) ← arguments whole
          return some (.call args kwargs)
      | _ => return none
  | none => return none

def leftward {τ : Type} (first : Reader Expr) (next? : Reader (Option τ))
    (apply : Expr → τ → Expr) : Reader Expr := do
  let e ← first
  return (← many next?).foldl apply e

def accessed (whole : Reader Expr) : Reader Expr :=
  leftward (operand whole) (suffix? whole) Suffix.apply

structure Application where
  pos : Pos
  name : String
  args : List Expr
  kwargs : List (String × Expr)

def application? (whole : Reader Expr) : Reader (Option Application) := do
  if ← acceptSymbol .pipe then
    match ← accept .name with
    | none => fail .expectedFilterName
    | some t => do
        let (args, kwargs) ← optionalArguments whole
        return some ⟨t.pos, t.text, args, kwargs⟩
  else return none

def filtered (whole : Reader Expr) : Reader Expr :=
  leftward (accessed whole) (application? whole) fun e a => .filter a.pos e a.name a.args a.kwargs

def ranged (whole : Reader Expr) : Reader Expr := do
  let first ← filtered whole
  if ← acceptSymbol .range then return .range first.pos first (← filtered whole)
  else return first

def signToken? : Reader (Option (Pos × SignOp)) := do
  match ← peek with
  | some t =>
      match t.kind with
      | .symbol .sub => do
          skip
          return some (t.pos, .neg)
      | .symbol .add => do
          skip
          return some (t.pos, .pos)
      | _ => return none
  | none => return none

/-- Any number of signs before an operand. The one next to the operand is applied first. -/
def prefixed (sign? : Reader (Option (Pos × SignOp))) (operand : Reader Expr) : Reader Expr := do
  let signs ← many sign?
  let e ← operand
  return signs.foldr (fun (p, op) e => .sign p op e) e

def signed (whole : Reader Expr) : Reader Expr := prefixed signToken? (ranged whole)

def operation? (op? : Symbol → Option ArithOp) (operand : Reader Expr) :
    Reader (Option (ArithOp × Expr)) := do
  match ← peek with
  | some t =>
      match t.kind with
      | .symbol s =>
          match op? s with
          | some op => do
              skip
              return some (op, ← operand)
          | none => return none
      | _ => return none
  | none => return none

def productOp? : Symbol → Option ArithOp
  | .mul => some .mul
  | .div => some .div
  | .mod => some .mod
  | _ => none

def sumOp? : Symbol → Option ArithOp
  | .add => some .add
  | .sub => some .sub
  | _ => none

def applyArith (e : Expr) (o : ArithOp × Expr) : Expr := .arith e.pos o.1 e o.2

def product (whole : Reader Expr) : Reader Expr :=
  leftward (signed whole) (operation? productOp? (signed whole)) applyArith

def sum (whole : Reader Expr) : Reader Expr :=
  leftward (product whole) (operation? sumOp? (product whole)) applyArith

/-- Reads a list of at least one part, each but the first after a separator. One part stands for
itself, several are joined. -/
def joined (part : Reader Expr) (next? : Reader (Option Expr)) (join : Expr → List Expr → Expr) :
    Reader Expr := do
  let first ← part
  match ← many next? with
  | [] => return first
  | rest => return join first (first :: rest)

def after? (separator : Reader Bool) (part : Reader Expr) : Reader (Option Expr) := do
  if ← separator then return some (← part) else return none

def concatenated (whole : Reader Expr) : Reader Expr :=
  joined (sum whole) (after? (acceptSymbol .tilde) (sum whole)) fun first parts =>
    .concat first.pos parts

/-- What may follow an operand of a comparison: a link of the chain, or a test of all before it. -/
inductive Link
  | compare (op : CompareOp) (operand : Expr)
  | test (name : String) (args : List Expr) (negated : Bool)

def closeChain (first : Expr) : List (CompareOp × Expr) → Expr
  | [] => first
  | links => .compare first.pos first links

/-- Joins links to a first operand. A test closes the chain before it and becomes the first operand
of what follows. -/
def joinLinks (first : Expr) (open_ : List (CompareOp × Expr)) : List Link → Expr
  | [] => closeChain first open_.reverse
  | .compare op e :: rest => joinLinks first ((op, e) :: open_) rest
  | .test name args negated :: rest =>
      joinLinks (.test first.pos (closeChain first open_.reverse) name args negated) [] rest

def compareOp? : Symbol → Option CompareOp
  | .eq => some .eq
  | .ne => some .ne
  | .lt => some .lt
  | .gt => some .gt
  | .le => some .le
  | .ge => some .ge
  | _ => none

def comparison? (t : Token) (next : Option Token) : Option (Nat × CompareOp) :=
  match t.kind with
  | .symbol s => (compareOp? s).map fun op => (1, op)
  | .name =>
      let nextIs (word : String) : Bool := next.any (isWord [word])
      if t.text = "in" then some (1, .isIn)
      else if t.text = "not" ∧ nextIs "in" then some (2, .notIn)
      else if t.text = "starts" ∧ nextIs "with" then some (2, .startsWith)
      else if t.text = "ends" ∧ nextIs "with" then some (2, .endsWith)
      else none
  | _ => none

def testLink (whole : Reader Expr) : Reader Link := do
  let negated := (← acceptWord "not").isSome
  match ← accept .name with
  | none => fail .expectedTestName
  | some t => do
      let (args, kwargs) ← optionalArguments whole
      if kwargs.isEmpty then return .test t.text args negated
      else fail .testKeyword

def link? (whole : Reader Expr) : Reader (Option Link) := do
  match ← peek with
  | none => return none
  | some t =>
      match comparison? t (← peekNext) with
      | some (count, op) => do
          skip
          if count = 2 then skip
          return some (.compare op (← concatenated whole))
      | none =>
          if isWord ["is"] t then
            skip
            return some (← testLink whole)
          else return none

def compared (whole : Reader Expr) : Reader Expr := do
  let first ← concatenated whole
  return joinLinks first [] (← many (link? whole))

def notToken? : Reader (Option (Pos × SignOp)) := do
  return (← acceptWord "not").map fun t => (t.pos, .not)

def negated (whole : Reader Expr) : Reader Expr := prefixed notToken? (compared whole)

def wordSeparator (word : String) : Reader Bool := do return (← acceptWord word).isSome

def conjunction (whole : Reader Expr) : Reader Expr :=
  joined (negated whole) (after? (wordSeparator "and") (negated whole)) fun first parts =>
    .logic first.pos .and parts

def disjunction (whole : Reader Expr) : Reader Expr :=
  joined (conjunction whole) (after? (wordSeparator "or") (conjunction whole)) fun first parts =>
    .logic first.pos .or parts

def choice (whole : Reader Expr) : Reader Expr := do
  let condition ← disjunction whole
  if ← acceptSymbol .question then
    let ifTrue ← whole
    let _ ← expect (.symbol .colon)
    return .choice condition.pos condition ifTrue (← whole)
  else return condition

def exprWithin : (depth : Nat) → Reader Expr
  | 0 => fail .stuck
  | depth + 1 => choice (exprWithin depth)

/-- An expression. Every level of nesting takes a token, so the tokens bound the depth. -/
def expr : Reader Expr := fun ts => exprWithin (ts.length + 1) ts

end Stencil.Grammar
