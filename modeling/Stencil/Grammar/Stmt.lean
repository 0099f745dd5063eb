import Stencil.Grammar.Expr
import Stencil.Stmt.Basic
import Stencil.Text.Case

/-!
The grammar of templates. A reader of statements keeps the parent that the template has named so
far; how many more blocks may be opened is its depth, so reading ends by recursion on it.
-/

namespace Stencil.Grammar

/-- Reads a value off the front of a token list, and perhaps the parent of the template. -/
abbrev Parse (α : Type) := StateT (Option Parent) (StateT (List Token) (Except GrammarFault)) α

namespace Parse

variable {α : Type}

def read (r : Reader α) : Parse α := fun parent ts =>
  match r ts with
  | .error fault => .error fault
  | .ok (a, rest) => .ok ((a, parent), rest)

def fail (cause : GrammarCause) : Parse α := read (Reader.fail cause)

def failAt (token : Token) (cause : GrammarCause) : Parse α := read (Reader.failAt token cause)

/-- Reads while there is something to read, at most `rounds` times. -/
def manyWithin : (rounds : Nat) → Parse (Option α) → Parse (List α)
  | 0, _ => fail .stuck
  | rounds + 1, r => do
      match ← r with
      | none => return []
      | some a => return a :: (← manyWithin rounds r)

/-- Reads while there is something to read. Each round is to consume a token. -/
def many (r : Parse (Option α)) : Parse (List α) := fun parent ts =>
  manyWithin (ts.length + 1) r parent ts

end Parse

open Reader Parse

def atKeyword (keywords : List String) : Reader Bool := do
  match ← peek, ← peekNext with
  | some t, some keyword =>
      return t.kind == .opening .statement && isWord keywords keyword
  | _, _ => return false

def skipKeyword : Reader Unit := do
  skip
  skip

def expectClosing : Reader Unit := do
  let _ ← expect (.closing .statement)

/-- The end tag of a block that was opened at `line`. A block may be named again at its end. -/
def endTag (kind : BlockKind) (line : Nat) : Reader Unit := do
  match ← peek with
  | none => fail (.unclosedBlock kind line)
  | some _ =>
      if ← atKeyword ["end", kind.endKeyword] then
        skipKeyword
        if kind = .block then
          let _ ← accept .name
          expectClosing
        else expectClosing
      else
        match ← peekNext with
        | some keyword => failAt keyword (.wrongEnd kind line keyword.text)
        | none => fail (.wrongEnd kind line "")

def loopTarget : Reader Target := do
  let first ← expect .name
  let rest ← many do
    if ← acceptSymbol .comma then return some (← expect .name) else return none
  let binder (t : Token) : Binder := ⟨t.pos, t.text⟩
  match rest with
  | [] => return .one (binder first)
  | [second] => return .pair (binder first) (binder second)
  | _ => fail .tooManyTargets

/-- An output in double braces is escaped where escaping is on; any other is not. -/
def output (start : Token) (d : Delimiter) (escape : Bool) : Reader Stmt := do
  match ← peek with
  | some t =>
      if t.kind = .closing d then failAt start .emptyOutput
      else more
  | none => more
where
  more : Reader Stmt := do
    let value ← expr
    let _ ← expect (.closing d)
    return .output start.pos value (d == .escaped && escape)

def templateName (keyword : String) : Reader String := do
  match ← accept .string with
  | none => fail (.expectedTemplateName keyword)
  | some t =>
      if t.text = "" then failAt t .emptyTemplateName
      else
        expectClosing
        return t.text

def escapeMode? (mode : String) : Option Bool :=
  let word := String.ofList (Text.lower mode.toList)
  if ["false", "off", "no"].contains word then some false
  else if ["true", "on", "yes", "html"].contains word then some true
  else none

/-- The mode of an escaping block: on, unless a word or a string says otherwise. -/
def escapeMode : Reader Bool := do
  match ← acceptWhere fun t => t.kind == .name || t.kind == .string with
  | none => return true
  | some t =>
      match escapeMode? t.text with
      | some mode => return mode
      | none => failAt t (.unknownMode t.text)

def setStatement (keyword : Token) : Reader Stmt := do
  let target ← expect .name
  let _ ← expect (.symbol .assign)
  let value ← expr
  expectClosing
  return .set keyword.pos ⟨target.pos, target.text⟩ value

def debugStatement (keyword : Token) : Reader Stmt := do
  match ← accept (.closing .statement) with
  | some _ => return .debug keyword.pos none "all variables"
  | none =>
      let value ← expr
      expectClosing
      return .debug keyword.pos (some value) value.label

def extendsStatement (keyword : Token) (opened : Bool) : Parse Unit := do
  if opened then Parse.failAt keyword .parentInsideBlock
  else
    match ← get with
    | some parent => Parse.failAt keyword (.secondParent parent.template)
    | none =>
        let name ← Parse.read (templateName "extends")
        set (some ⟨keyword.pos, name⟩ : Option Parent)

/-- How the statements inside a block are read, given whether they are escaped; none if no more
blocks may be opened. -/
abbrev Inside := Option (Bool → Parse (List Stmt))

def openBlock {α : Type} (limit : Int) (inside : Inside) (keyword : Token)
    (block : (Bool → Parse (List Stmt)) → Parse α) : Parse α :=
  match inside with
  | none => Parse.failAt keyword (.nestingTooDeep limit)
  | some body => block body

def guarded (body : Parse (List Stmt)) : Parse (Expr × List Stmt) := do
  let condition ← Parse.read expr
  Parse.read expectClosing
  return (condition, ← body)

def continued (keywords : List String) (body : Parse (List Stmt)) : Parse (List Stmt) := do
  if ← Parse.read (atKeyword keywords) then
    Parse.read skipKeyword
    Parse.read expectClosing
    body
  else return []

def branchBlock (keyword : Token) (body : Parse (List Stmt)) : Parse Stmt := do
  let (condition, first) ← guarded body
  let others ← Parse.many do
    if ← Parse.read (atKeyword ["elseif", "elif"]) then
      Parse.read skipKeyword
      return some (← guarded body)
    else return none
  let otherwise ← continued ["else"] body
  Parse.read (endTag .branch keyword.pos.line)
  return .branch keyword.pos condition first others otherwise

def loopBlock (keyword : Token) (body : Parse (List Stmt)) : Parse Stmt := do
  let target ← Parse.read loopTarget
  match ← Parse.read (acceptWord "in") with
  | none => Parse.fail .expectedIn
  | some _ =>
      let items ← Parse.read expr
      Parse.read expectClosing
      let each ← body
      let empty ← continued ["else", "empty"] body
      Parse.read (endTag .loop keyword.pos.line)
      return .loop keyword.pos target items each empty

def whileBlock (keyword : Token) (body : Parse (List Stmt)) : Parse Stmt := do
  let (condition, each) ← guarded body
  Parse.read (endTag .while keyword.pos.line)
  return .while keyword.pos condition each

def namedBlock (keyword : Token) (body : Parse (List Stmt)) : Parse Stmt := do
  match ← Parse.read (accept .name) with
  | none => Parse.fail .expectedBlockName
  | some name =>
      Parse.read expectClosing
      let inner ← body
      Parse.read (endTag .block keyword.pos.line)
      return .block keyword.pos name.text inner

def spacelessBlock (keyword : Token) (body : Parse (List Stmt)) : Parse Stmt := do
  Parse.read expectClosing
  let inner ← body
  Parse.read (endTag .spaceless keyword.pos.line)
  return .spaceless keyword.pos inner

/-- The block leaves no trace but the way its outputs are written. -/
def autoescapeBlock (keyword : Token) (body : Bool → Parse (List Stmt)) : Parse (List Stmt) := do
  let mode ← Parse.read escapeMode
  Parse.read expectClosing
  let inner ← body mode
  Parse.read (endTag .autoescape keyword.pos.line)
  return inner

def statement (limit : Int) (inside : Inside) (opened escape : Bool) (keyword : Token) :
    Parse (List Stmt) := do
  let block (reader : Token → Parse (List Stmt) → Parse Stmt) : Parse (List Stmt) :=
    openBlock limit inside keyword fun body => return [← reader keyword (body escape)]
  match keyword.text with
  | "if" => block branchBlock
  | "for" => block loopBlock
  | "while" => block whileBlock
  | "block" => block namedBlock
  | "spaceless" => block spacelessBlock
  | "autoescape" => openBlock limit inside keyword (autoescapeBlock keyword)
  | "extends" => do
      extendsStatement keyword opened
      return []
  | "include" => return [.include keyword.pos (← Parse.read (templateName "include"))]
  | "set" => return [← Parse.read (setStatement keyword)]
  | "debug" => return [← Parse.read (debugStatement keyword)]
  | name => Parse.failAt keyword (.unknownTag name)

/-- The statements that the next tokens write; none at the end of the source and where a tag closes
or continues the block. -/
def piece? (limit : Int) (inside : Inside) (opened escape : Bool) :
    Parse (Option (List Stmt)) := do
  match ← Parse.read peek with
  | none => return none
  | some t =>
      match t.kind with
      | .data => do
          Parse.read skip
          return some [.text t.pos t.text]
      | .opening .statement => do
          match ← Parse.read peekNext with
          | none => do
              Parse.read skip
              Parse.fail .expectedKeyword
          | some keyword =>
              if isWord continuationKeywords keyword then
                if opened then return none
                else Parse.failAt keyword (.closesNothing keyword.text)
              else
                Parse.read skip
                if keyword.kind = .name then
                  Parse.read skip
                  return some (← statement limit inside opened escape keyword)
                else Parse.fail .expectedKeyword
      | .opening d => do
          Parse.read skip
          return some [← Parse.read (output t d escape)]
      | _ => Parse.fail (.unexpectedToken t.text)

def bodyWith (limit : Int) (inside : Inside) (opened escape : Bool) : Parse (List Stmt) := do
  return (← Parse.many (piece? limit inside opened escape)).flatten

/-- The statements up to the end of the source or of the block, when `room` more blocks may be
opened inside each other. -/
def body (limit : Int) : (room : Nat) → (opened escape : Bool) → Parse (List Stmt)
  | 0, opened, escape => bodyWith limit none opened escape
  | room + 1, opened, escape =>
      bodyWith limit (some fun inner => body limit room true inner) opened escape

/-- The template that a token list writes, when at most `limit` blocks may be open. -/
def template (limit : Int) (tokens : List Token) : Except GrammarFault Template :=
  match body limit limit.toNat false true none tokens with
  | .error fault => .error fault
  | .ok ((statements, parent), _) => .ok ⟨statements, parent⟩

end Stencil.Grammar
