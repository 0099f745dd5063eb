import Stencil.Grammar.Fault

/-!
Readers of token lists: a reader takes tokens from the front and gives a value, or stops at the
first token that does not fit.
-/

namespace Stencil

abbrev Reader (α : Type) := StateT (List Token) (Except GrammarFault) α

namespace Reader

variable {α : Type}

def fail (cause : GrammarCause) : Reader α := fun ts => .error ⟨cause, ts.head?⟩

def failAt (token : Token) (cause : GrammarCause) : Reader α := fun _ =>
  .error ⟨cause, some token⟩

/-- The current token, not consumed. -/
def peek : Reader (Option Token) := fun ts => .ok (ts.head?, ts)

/-- The token after the current one, not consumed. -/
def peekNext : Reader (Option Token) := fun ts => .ok (ts.tail.head?, ts)

def skip : Reader Unit := fun ts => .ok ((), ts.tail)

def acceptWhere (p : Token → Bool) : Reader (Option Token)
  | t :: ts => .ok (if p t then (some t, ts) else (none, t :: ts))
  | [] => .ok (none, [])

def accept (kind : TokenKind) : Reader (Option Token) := acceptWhere (·.kind == kind)

def acceptSymbol (s : Symbol) : Reader Bool := do
  return (← accept (.symbol s)).isSome

def isWord (words : List String) (t : Token) : Bool := t.kind == .name && words.contains t.text

def acceptWord (word : String) : Reader (Option Token) := acceptWhere (isWord [word])

def expect (kind : TokenKind) : Reader Token
  | t :: ts => if t.kind = kind then .ok (t, ts) else .error ⟨.expected kind (some t), some t⟩
  | [] => .error ⟨.expected kind none, none⟩

/-- Reads while there is something to read, at most `rounds` times. -/
def manyWithin : (rounds : Nat) → Reader (Option α) → Reader (List α)
  | 0, _ => fail .stuck
  | rounds + 1, r => do
      match ← r with
      | none => return []
      | some a => return a :: (← manyWithin rounds r)

/-- Reads while there is something to read. Each round is to consume a token. -/
def many (r : Reader (Option α)) : Reader (List α) := fun ts =>
  manyWithin (ts.length + 1) r ts

/-- Reads items up to a closing symbol that is not consumed. A comma follows each item but the last
one, which it may follow. An item may depend on the items before it, the nearest first. -/
def itemsWithin (close : Symbol) (item : List α → Reader α) :
    (rounds : Nat) → (previous : List α) → Reader (List α)
  | 0, _ => fail .stuck
  | rounds + 1, previous => do
      match ← peek with
      | some t =>
          if t.kind = .symbol close then return previous.reverse
          else more rounds previous
      | none => more rounds previous
where
  more (rounds : Nat) (previous : List α) : Reader (List α) := do
    let a ← item previous
    if ← acceptSymbol .comma then itemsWithin close item rounds (a :: previous)
    else return (a :: previous).reverse

def items (close : Symbol) (item : List α → Reader α) : Reader (List α) := do
  let found ← fun ts => itemsWithin close item (ts.length + 1) [] ts
  let _ ← expect (.symbol close)
  return found

end Reader

end Stencil
