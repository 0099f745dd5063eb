import Stencil.Expr.Basic
import Stencil.Proofs.Token.Lexeme

namespace Stencil

/-! Lexemes and the texts that are chosen for them. -/

namespace Lexeme

def word (text : String) : Lexeme := (.name, text)

def symbol (s : Symbol) : Lexeme := (.symbol s, String.ofList s.text)

def chars : Lexeme → List Char
  | (.string, value) => '"' :: (Scan.escaped '"' value.toList ++ ['"'])
  | (_, text) => text.toList

/-- A list of parts with `separator` between two of them. -/
def separated (separator : Lexeme) : List (List Lexeme) → List Lexeme
  | [] => []
  | first :: rest => first ++ rest.flatMap (separator :: ·)

def parenthesized (ls : List Lexeme) : List Lexeme :=
  symbol .lparen :: (ls ++ [symbol .rparen])

end Lexeme

open Lexeme

/-- How tightly forms bind, from the loosest. A chain of comparisons that ends in a test binds as a
test: it can be the first operand of another chain. -/
inductive Level
  | choice | disjunction | conjunction | negation | comparison | test | concatenation
  | sum | product | sign | range | filter | access | operand
  deriving DecidableEq, Repr

namespace Level

def rank : Level → Nat
  | choice => 0 | disjunction => 1 | conjunction => 2 | negation => 3 | comparison => 4
  | test => 5 | concatenation => 6 | sum => 7 | product => 8 | sign => 9 | range => 10
  | filter => 11 | access => 12 | operand => 13

end Level

namespace Literal

/-- The digits of a decimal, with zeros before them as far as the point needs some. -/
def padded (digits places : Nat) : List Char :=
  List.replicate (places + 1 - (Nat.toDigits 10 digits).length) '0' ++ Nat.toDigits 10 digits

def decimalChars (digits places : Nat) : List Char :=
  let shown := padded digits places
  shown.take (shown.length - places) ++ '.' :: shown.drop (shown.length - places)

def lexeme : Literal → Lexeme
  | null => word "null"
  | bool true => word "true"
  | bool false => word "false"
  | nat n => (.integer, toString n)
  | decimal digits places => (.decimal, String.ofList (decimalChars digits places))
  | string s => (.string, s)

end Literal

namespace ArithOp

def symbol : ArithOp → Symbol
  | add => .add | sub => .sub | mul => .mul | div => .div | mod => .mod

def level : ArithOp → Level
  | add | sub => .sum
  | mul | div | mod => .product

def rightLevel : ArithOp → Level
  | add | sub => .product
  | mul | div | mod => .sign

end ArithOp

namespace SignOp

def lexeme : SignOp → Lexeme
  | not => word "not"
  | neg => .symbol .sub
  | pos => .symbol .add

def level : SignOp → Level
  | not => .negation
  | neg | pos => .sign

end SignOp

namespace CompareOp

def lexemes : CompareOp → List Lexeme
  | eq => [symbol .eq] | ne => [symbol .ne] | lt => [symbol .lt] | gt => [symbol .gt]
  | le => [symbol .le] | ge => [symbol .ge] | isIn => [word "in"]
  | notIn => [word "not", word "in"] | startsWith => [word "starts", word "with"]
  | endsWith => [word "ends", word "with"]

end CompareOp

namespace LogicOp

def level : LogicOp → Level
  | and => .conjunction
  | or => .disjunction

def partLevel : LogicOp → Level
  | and => .negation
  | or => .conjunction

end LogicOp

namespace Expr

def level : Expr → Level
  | const _ _ | name _ _ | list _ _ | dict _ _ => .operand
  | attr _ _ _ | item _ _ _ | call _ _ _ _ => .access
  | filter _ _ _ _ _ => .filter
  | range _ _ _ => .range
  | sign _ op _ => op.level
  | arith _ op _ _ => op.level
  | concat _ _ => .concatenation
  | test _ _ _ _ _ => .test
  | compare _ _ _ => .comparison
  | logic _ op _ => op.level
  | choice _ _ _ _ => .choice

/-- A form at level `inner`, written where `outer` is asked for. -/
def enclosed (outer inner : Level) (ls : List Lexeme) : List Lexeme :=
  if outer.rank ≤ inner.rank then ls else parenthesized ls

/-- A key of a dictionary. A word alone would be read as a string. -/
def keyed : List Lexeme → List Lexeme
  | [(.name, text)] => parenthesized [word text]
  | ls => ls

/-- The arguments of a filter or a test, which may be left out. -/
def optionalArguments : List (List Lexeme) → List Lexeme
  | [] => []
  | parts => parenthesized (separated (symbol .comma) parts)

mutual

def lexemes : Expr → List Lexeme
  | const _ value => [value.lexeme]
  | name _ n => [word n]
  | list _ items =>
      symbol .lbracket :: (separated (symbol .comma) (parts .choice items) ++ [symbol .rbracket])
  | dict _ entries =>
      symbol .lbrace :: (separated (symbol .comma) (entryParts entries) ++ [symbol .rbrace])
  | attr _ object n => enclosed .access object.level (lexemes object) ++ [symbol .dot, word n]
  | item _ object key =>
      enclosed .access object.level (lexemes object) ++
        symbol .lbracket :: (lexemes key ++ [symbol .rbracket])
  | call _ callee args named =>
      enclosed .access callee.level (lexemes callee) ++
        parenthesized (separated (symbol .comma) (parts .choice args ++ namedParts named))
  | filter _ value n args named =>
      enclosed .filter value.level (lexemes value) ++
        symbol .pipe :: word n :: optionalArguments (parts .choice args ++ namedParts named)
  | test _ value n args negated =>
      enclosed .comparison value.level (lexemes value) ++
        word "is" :: ((if negated then [word "not"] else []) ++
          word n :: optionalArguments (parts .choice args))
  | arith _ op left right =>
      enclosed op.level left.level (lexemes left) ++
        symbol op.symbol :: enclosed op.rightLevel right.level (lexemes right)
  | sign _ op operand => op.lexeme :: enclosed op.level operand.level (lexemes operand)
  | compare _ first links =>
      enclosed .test first.level (lexemes first) ++ (linkParts links).flatten
  | logic _ op operands => separated (word op.text) (parts op.partLevel operands)
  | choice _ condition ifTrue ifFalse =>
      enclosed .disjunction condition.level (lexemes condition) ++
        symbol .question :: (lexemes ifTrue ++ symbol .colon :: lexemes ifFalse)
  | range _ first last =>
      enclosed .filter first.level (lexemes first) ++
        symbol .range :: enclosed .filter last.level (lexemes last)
  | concat _ operands => separated (symbol .tilde) (parts .sum operands)

def parts (outer : Level) : List Expr → List (List Lexeme)
  | [] => []
  | e :: rest => enclosed outer e.level (lexemes e) :: parts outer rest

def entryParts : List (Expr × Expr) → List (List Lexeme)
  | [] => []
  | (key, value) :: rest =>
      (keyed (lexemes key) ++ symbol .colon :: lexemes value) :: entryParts rest

def namedParts : List (String × Expr) → List (List Lexeme)
  | [] => []
  | (n, e) :: rest => (word n :: symbol .assign :: lexemes e) :: namedParts rest

def linkParts : List (CompareOp × Expr) → List (List Lexeme)
  | [] => []
  | (op, e) :: rest =>
      (op.lexemes ++ enclosed .concatenation e.level (lexemes e)) :: linkParts rest

end

/-- The lexemes of an expression where `outer` is asked for. -/
def lexemesAt (outer : Level) (e : Expr) : List Lexeme := enclosed outer e.level e.lexemes

def text (e : Expr) : String :=
  String.ofList ([' '].intercalate (e.lexemes.map Lexeme.chars))

/-! The lists of parts, as maps. -/

def entryLexemes (entry : Expr × Expr) : List Lexeme :=
  keyed entry.1.lexemes ++ symbol .colon :: entry.2.lexemes

def namedLexemes (argument : String × Expr) : List Lexeme :=
  word argument.1 :: symbol .assign :: argument.2.lexemes

def linkLexemes (link : CompareOp × Expr) : List Lexeme :=
  link.1.lexemes ++ link.2.lexemesAt .concatenation

@[simp] theorem parts_eq_map (outer : Level) (es : List Expr) :
    parts outer es = es.map (lexemesAt outer) := by
  induction es with
  | nil => rfl
  | cons e rest ih => rw [parts, ih, List.map_cons, lexemesAt]

@[simp] theorem entryParts_eq_map (entries : List (Expr × Expr)) :
    entryParts entries = entries.map entryLexemes := by
  induction entries with
  | nil => rfl
  | cons entry rest ih => rw [entryParts, ih, List.map_cons, entryLexemes]

@[simp] theorem namedParts_eq_map (named : List (String × Expr)) :
    namedParts named = named.map namedLexemes := by
  induction named with
  | nil => rfl
  | cons argument rest ih => rw [namedParts, ih, List.map_cons, namedLexemes]

@[simp] theorem linkParts_eq_map (links : List (CompareOp × Expr)) :
    linkParts links = links.map linkLexemes := by
  induction links with
  | nil => rfl
  | cons link rest ih => rw [linkParts, ih, List.map_cons, linkLexemes, lexemesAt]

@[simp] theorem lexemesAt_choice (e : Expr) : e.lexemesAt .choice = e.lexemes := by
  simp [lexemesAt, enclosed, Level.rank]

/-! Expressions without their places. -/

mutual

def erase : Expr → Expr
  | const _ value => const .start value
  | name _ n => name .start n
  | list _ items => list .start (eraseAll items)
  | dict _ entries => dict .start (eraseEntries entries)
  | attr _ object n => attr .start (erase object) n
  | item _ object key => item .start (erase object) (erase key)
  | call _ callee args named => call .start (erase callee) (eraseAll args) (eraseNamed named)
  | filter _ value n args named =>
      filter .start (erase value) n (eraseAll args) (eraseNamed named)
  | test _ value n args negated => test .start (erase value) n (eraseAll args) negated
  | arith _ op left right => arith .start op (erase left) (erase right)
  | sign _ op operand => sign .start op (erase operand)
  | compare _ first links => compare .start (erase first) (eraseLinks links)
  | logic _ op operands => logic .start op (eraseAll operands)
  | choice _ condition ifTrue ifFalse =>
      choice .start (erase condition) (erase ifTrue) (erase ifFalse)
  | range _ first last => range .start (erase first) (erase last)
  | concat _ operands => concat .start (eraseAll operands)

def eraseAll : List Expr → List Expr
  | [] => []
  | e :: rest => erase e :: eraseAll rest

def eraseEntries : List (Expr × Expr) → List (Expr × Expr)
  | [] => []
  | (key, value) :: rest => (erase key, erase value) :: eraseEntries rest

def eraseNamed : List (String × Expr) → List (String × Expr)
  | [] => []
  | (n, e) :: rest => (n, erase e) :: eraseNamed rest

def eraseLinks : List (CompareOp × Expr) → List (CompareOp × Expr)
  | [] => []
  | (op, e) :: rest => (op, erase e) :: eraseLinks rest

end

@[simp] theorem eraseAll_eq_map (es : List Expr) : eraseAll es = es.map erase := by
  induction es with
  | nil => rfl
  | cons e rest ih => rw [eraseAll, ih, List.map_cons]

@[simp] theorem eraseEntries_eq_map (entries : List (Expr × Expr)) :
    eraseEntries entries = entries.map fun entry => (entry.1.erase, entry.2.erase) := by
  induction entries with
  | nil => rfl
  | cons entry rest ih => rw [eraseEntries, ih, List.map_cons]

@[simp] theorem eraseNamed_eq_map (named : List (String × Expr)) :
    eraseNamed named = named.map fun argument => (argument.1, argument.2.erase) := by
  induction named with
  | nil => rfl
  | cons argument rest ih => rw [eraseNamed, ih, List.map_cons]

@[simp] theorem eraseLinks_eq_map (links : List (CompareOp × Expr)) :
    eraseLinks links = links.map fun link => (link.1, link.2.erase) := by
  induction links with
  | nil => rfl
  | cons link rest ih => rw [eraseLinks, ih, List.map_cons]

end Expr

/-! Expressions that a source can hold. -/

/-- Words that do not read as names: constants and the negation. -/
def reserved : List String := ["true", "True", "false", "False", "null", "none", "None", "not"]

def Literal.WellFormed : Literal → Prop
  | .decimal _ places => 0 < places
  | _ => True

inductive Expr.WellFormed : Expr → Prop
  | const {p : Pos} {value : Literal} (literal : value.WellFormed) : WellFormed (.const p value)
  | name {p : Pos} {n : String} (word : Scan.isWord n.toList = true) (free : n ∉ reserved) :
      WellFormed (.name p n)
  | list {p : Pos} {items : List Expr} (each : ∀ e ∈ items, WellFormed e) :
      WellFormed (.list p items)
  | dict {p : Pos} {entries : List (Expr × Expr)} (keys : ∀ x ∈ entries, WellFormed x.1)
      (values : ∀ x ∈ entries, WellFormed x.2) : WellFormed (.dict p entries)
  | attr {p : Pos} {object : Expr} {n : String} (inner : WellFormed object)
      (word : Scan.isWord n.toList = true) : WellFormed (.attr p object n)
  | item {p : Pos} {object key : Expr} (inner : WellFormed object) (index : WellFormed key) :
      WellFormed (.item p object key)
  | call {p : Pos} {callee : Expr} {args : List Expr} {named : List (String × Expr)}
      (inner : WellFormed callee) (positional : ∀ e ∈ args, WellFormed e)
      (words : ∀ x ∈ named, Scan.isWord x.1.toList = true)
      (values : ∀ x ∈ named, WellFormed x.2) (distinct : (named.map Prod.fst).Nodup) :
      WellFormed (.call p callee args named)
  | filter {p : Pos} {value : Expr} {n : String} {args : List Expr}
      {named : List (String × Expr)} (inner : WellFormed value)
      (word : Scan.isWord n.toList = true) (positional : ∀ e ∈ args, WellFormed e)
      (words : ∀ x ∈ named, Scan.isWord x.1.toList = true)
      (values : ∀ x ∈ named, WellFormed x.2) (distinct : (named.map Prod.fst).Nodup) :
      WellFormed (.filter p value n args named)
  | test {p : Pos} {value : Expr} {n : String} {args : List Expr} {negated : Bool}
      (inner : WellFormed value) (word : Scan.isWord n.toList = true) (free : n ≠ "not")
      (positional : ∀ e ∈ args, WellFormed e) : WellFormed (.test p value n args negated)
  | arith {p : Pos} {op : ArithOp} {left right : Expr} (first : WellFormed left)
      (second : WellFormed right) : WellFormed (.arith p op left right)
  | sign {p : Pos} {op : SignOp} {operand : Expr} (inner : WellFormed operand) :
      WellFormed (.sign p op operand)
  | compare {p : Pos} {first : Expr} {links : List (CompareOp × Expr)}
      (inner : WellFormed first) (linked : links ≠ []) (each : ∀ x ∈ links, WellFormed x.2) :
      WellFormed (.compare p first links)
  | logic {p : Pos} {op : LogicOp} {parts : List Expr} (several : 2 ≤ parts.length)
      (each : ∀ e ∈ parts, WellFormed e) : WellFormed (.logic p op parts)
  | choice {p : Pos} {condition ifTrue ifFalse : Expr} (first : WellFormed condition)
      (second : WellFormed ifTrue) (third : WellFormed ifFalse) :
      WellFormed (.choice p condition ifTrue ifFalse)
  | range {p : Pos} {low high : Expr} (first : WellFormed low) (second : WellFormed high) :
      WellFormed (.range p low high)
  | concat {p : Pos} {parts : List Expr} (several : 2 ≤ parts.length)
      (each : ∀ e ∈ parts, WellFormed e) : WellFormed (.concat p parts)

end Stencil
