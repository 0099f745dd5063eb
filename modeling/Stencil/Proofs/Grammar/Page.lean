import Stencil.Proofs.Token.Segment
import Stencil.Grammar.Stmt

namespace Stencil

open Lexeme

/-! What a form leaves open to its writer. -/

/-- How a block ends: by its own keyword, or by the one that ends every block. -/
inductive Ending
  | own
  | common
  deriving DecidableEq, Repr

def Ending.word (kind : BlockKind) : Ending → String
  | own => kind.endKeyword
  | common => "end"

/-- How a further condition of a branch begins. -/
inductive ElseIf
  | elseif
  | elif
  deriving DecidableEq, Repr

def ElseIf.word : ElseIf → String
  | elseif => "elseif"
  | elif => "elif"

/-- How the part of a loop begins that is for no items. -/
inductive ForEmpty
  | otherwise
  | empty
  deriving DecidableEq, Repr

def ForEmpty.word : ForEmpty → String
  | otherwise => "else"
  | empty => "empty"

inductive Form
  | text (value : String)
  | comment (content : String)
  | verbatim (kind : Verbatim) (content : String)
  | output (value : Expr) (raw : Bool)
  | branch (condition : Expr) (body : List Form) (others : List (ElseIf × Expr × List Form))
      (otherwise : Option (List Form)) (ending : Ending)
  | loop (target : Target) (items : Expr) (body : List Form) (word : ForEmpty)
      (empty : Option (List Form)) (ending : Ending)
  | while (condition : Expr) (body : List Form) (ending : Ending)
  | block (name : String) (body : List Form) (ending : Ending) (again : Option String)
  | include (template : String)
  | set (target : String) (value : Expr)
  | spaceless (body : List Form) (ending : Ending)
  | debug (value : Option Expr)
  | autoescape (mode : Option Lexeme) (body : List Form) (ending : Ending)

/-- A template as it is written: its forms, and the parent it names between two of them with what
follows. -/
structure Page where
  forms : List Form
  parent : Option (String × List Form)

/-! Texts. -/

def Target.lexemes : Target → List Lexeme
  | one item => [word item.name]
  | pair key value => [word key.name, symbol .comma, word value.name]

namespace Form

def tag (inside : List Lexeme) : Segment := .tag .statement inside

def endTag (kind : BlockKind) (ending : Ending) : Segment := tag [word (ending.word kind)]

mutual

def segments : Form → List Segment
  | text value => [.text value]
  | comment content => [.comment content]
  | verbatim kind content => [.verbatim kind content]
  | output value raw => [.tag (if raw then .raw else .escaped) value.lexemes]
  | branch condition body others otherwise ending =>
      tag (word "if" :: condition.lexemes) :: (segmentsAll body ++
        (segmentsOthers others ++ (segmentsElse "else" otherwise ++ [endTag .branch ending])))
  | loop target items body keyword empty ending =>
      tag (word "for" :: (target.lexemes ++ word "in" :: items.lexemes)) :: (segmentsAll body ++
        (segmentsElse keyword.word empty ++ [endTag .loop ending]))
  | .while condition body ending =>
      tag (word "while" :: condition.lexemes) :: (segmentsAll body ++ [endTag .while ending])
  | block name body ending again =>
      tag [word "block", word name] :: (segmentsAll body ++
        [tag (word (ending.word .block) :: again.toList.map word)])
  | .include template => [tag [word "include", (.string, template)]]
  | set target value => [tag (word "set" :: word target :: symbol .assign :: value.lexemes)]
  | spaceless body ending =>
      tag [word "spaceless"] :: (segmentsAll body ++ [endTag .spaceless ending])
  | debug value => [tag (word "debug" :: value.elim [] Expr.lexemes)]
  | autoescape mode body ending =>
      tag (word "autoescape" :: mode.toList) :: (segmentsAll body ++ [endTag .autoescape ending])

def segmentsAll : List Form → List Segment
  | [] => []
  | f :: rest => segments f ++ segmentsAll rest

def segmentsOthers : List (ElseIf × Expr × List Form) → List Segment
  | [] => []
  | (keyword, condition, body) :: rest =>
      tag (word keyword.word :: condition.lexemes) :: (segmentsAll body ++ segmentsOthers rest)

def segmentsElse (keyword : String) : Option (List Form) → List Segment
  | none => []
  | some body => tag [word keyword] :: segmentsAll body

end

/-! Meanings. -/

def escaping : Option Lexeme → Bool
  | none => true
  | some (_, mode) => Grammar.escapeMode? mode == some true

mutual

/-- The statements that a form stands for where outputs are escaped or not, without places. -/
def stmts (escape : Bool) : Form → List Stmt
  | text value => [.text .start value]
  | comment _ => []
  | verbatim _ content => if content = "" then [] else [.text .start content]
  | output value raw => [.output .start value (!raw && escape)]
  | branch condition body others otherwise _ =>
      [.branch .start condition (stmtsAll escape body) (stmtsOthers escape others)
        (stmtsElse escape otherwise)]
  | loop target items body _ empty _ =>
      [.loop .start target items (stmtsAll escape body) (stmtsElse escape empty)]
  | .while condition body _ => [.while .start condition (stmtsAll escape body)]
  | block name body _ _ => [.block .start name (stmtsAll escape body)]
  | .include template => [.include .start template]
  | set target value => [.set .start ⟨.start, target⟩ value]
  | spaceless body _ => [.spaceless .start (stmtsAll escape body)]
  | debug value => [.debug .start value ""]
  | autoescape mode body _ => stmtsAll (escaping mode) body

def stmtsAll (escape : Bool) : List Form → List Stmt
  | [] => []
  | f :: rest => stmts escape f ++ stmtsAll escape rest

def stmtsOthers (escape : Bool) :
    List (ElseIf × Expr × List Form) → List (Expr × List Stmt)
  | [] => []
  | (_, condition, body) :: rest =>
      (condition, stmtsAll escape body) :: stmtsOthers escape rest

def stmtsElse (escape : Bool) : Option (List Form) → List Stmt
  | none => []
  | some body => stmtsAll escape body

end

/-! The lists of forms, as maps. -/

def lexemes (f : Form) : List Lexeme := f.segments.flatMap Segment.lexemes

def lexemesAll (fs : List Form) : List Lexeme := (segmentsAll fs).flatMap Segment.lexemes

def lexemesOther (x : ElseIf × Expr × List Form) : List Lexeme :=
  Lexeme.tag .statement (word x.1.word :: x.2.1.lexemes) ++ lexemesAll x.2.2

theorem segmentsAll_eq_flatMap (fs : List Form) : segmentsAll fs = fs.flatMap segments := by
  induction fs with
  | nil => rfl
  | cons f rest ih => rw [segmentsAll, ih, List.flatMap_cons]

theorem lexemesAll_cons (f : Form) (rest : List Form) :
    lexemesAll (f :: rest) = f.lexemes ++ lexemesAll rest := by
  rw [lexemesAll, segmentsAll, List.flatMap_append]
  rfl

theorem lexemes_segmentsOthers (others : List (ElseIf × Expr × List Form)) :
    (segmentsOthers others).flatMap Segment.lexemes = others.flatMap lexemesOther := by
  induction others with
  | nil => rfl
  | cons x rest ih =>
      rw [segmentsOthers, List.flatMap_cons, List.flatMap_append, ih, List.flatMap_cons]
      exact (List.append_assoc _ _ _).symm

theorem stmtsOthers_eq_map (escape : Bool) (others : List (ElseIf × Expr × List Form)) :
    stmtsOthers escape others = others.map fun x => (x.2.1, stmtsAll escape x.2.2) := by
  induction others with
  | nil => rfl
  | cons x rest ih => rw [stmtsOthers, ih, List.map_cons]

end Form

namespace Page

def segments (page : Page) : List Segment :=
  Form.segmentsAll page.forms ++
    match page.parent with
    | none => []
    | some (template, after) =>
        Form.tag [word "extends", (.string, template)] :: Form.segmentsAll after

def text (page : Page) : String := String.ofList (page.segments.flatMap Segment.chars)

/-- The template that a page means. Outputs in double braces are escaped at first. -/
def template (page : Page) : Template where
  body :=
    Form.stmtsAll true page.forms ++ Form.stmtsAll true (page.parent.elim [] Prod.snd)
  parent := page.parent.map fun x => ⟨.start, x.1⟩

end Page

/-! Statements without their places and without the labels of debugging. -/

def Binder.erase (b : Binder) : Binder := { b with pos := .start }

def Target.erase : Target → Target
  | one item => .one item.erase
  | pair key value => .pair key.erase value.erase

namespace Stmt

mutual

def erase : Stmt → Stmt
  | text _ value => .text .start value
  | output _ value escape => .output .start value.erase escape
  | branch _ condition body others otherwise =>
      .branch .start condition.erase (eraseAll body) (eraseOthers others) (eraseAll otherwise)
  | loop _ target items body empty =>
      .loop .start target.erase items.erase (eraseAll body) (eraseAll empty)
  | .while _ condition body => .while .start condition.erase (eraseAll body)
  | block _ name body => .block .start name (eraseAll body)
  | .include _ template => .include .start template
  | set _ target value => .set .start target.erase value.erase
  | spaceless _ body => .spaceless .start (eraseAll body)
  | debug _ value _ => .debug .start (value.map Expr.erase) ""

def eraseAll : List Stmt → List Stmt
  | [] => []
  | s :: rest => erase s :: eraseAll rest

def eraseOthers : List (Expr × List Stmt) → List (Expr × List Stmt)
  | [] => []
  | (condition, body) :: rest => (condition.erase, eraseAll body) :: eraseOthers rest

end

theorem eraseAll_eq_map (ss : List Stmt) : eraseAll ss = ss.map erase := by
  induction ss with
  | nil => rfl
  | cons s rest ih => rw [eraseAll, ih, List.map_cons]

theorem eraseAll_append (ss ss' : List Stmt) :
    eraseAll (ss ++ ss') = eraseAll ss ++ eraseAll ss' := by
  simp only [eraseAll_eq_map, List.map_append]

theorem eraseOthers_eq_map (others : List (Expr × List Stmt)) :
    eraseOthers others = others.map fun x => (x.1.erase, eraseAll x.2) := by
  induction others with
  | nil => rfl
  | cons x rest ih => rw [eraseOthers, ih, List.map_cons]

end Stmt

def Template.erase (t : Template) : Template where
  body := Stmt.eraseAll t.body
  parent := t.parent.map fun parent => { parent with pos := .start }

/-! Pages that a source can hold. -/

open Scan (isWord)

/-- Forms with at most `room` blocks open inside each other. -/
inductive Form.WellFormed : (room : Nat) → Form → Prop
  | text {room : Nat} {value : String} (whole : (Segment.text value).WellFormed) :
      WellFormed room (.text value)
  | comment {room : Nat} {content : String} (whole : (Segment.comment content).WellFormed) :
      WellFormed room (.comment content)
  | verbatim {room : Nat} {kind : Verbatim} {content : String}
      (whole : (Segment.verbatim kind content).WellFormed) :
      WellFormed room (.verbatim kind content)
  | output {room : Nat} {value : Expr} {raw : Bool} (expr : value.WellFormed) :
      WellFormed room (.output value raw)
  | branch {room : Nat} {condition : Expr} {body : List Form}
      {others : List (ElseIf × Expr × List Form)} {otherwise : Option (List Form)}
      {ending : Ending} (first : condition.WellFormed) (inner : ∀ f ∈ body, WellFormed room f)
      (conditions : ∀ x ∈ others, x.2.1.WellFormed)
      (bodies : ∀ x ∈ others, ∀ f ∈ x.2.2, WellFormed room f)
      (last : ∀ fs ∈ otherwise, ∀ f ∈ fs, WellFormed room f) :
      WellFormed (room + 1) (.branch condition body others otherwise ending)
  | loop {room : Nat} {target : Target} {items : Expr} {body : List Form} {word : ForEmpty}
      {empty : Option (List Form)} {ending : Ending}
      (words : ∀ n ∈ target.names, isWord n.toList = true) (expr : items.WellFormed)
      (inner : ∀ f ∈ body, WellFormed room f)
      (last : ∀ fs ∈ empty, ∀ f ∈ fs, WellFormed room f) :
      WellFormed (room + 1) (.loop target items body word empty ending)
  | while {room : Nat} {condition : Expr} {body : List Form} {ending : Ending}
      (expr : condition.WellFormed) (inner : ∀ f ∈ body, WellFormed room f) :
      WellFormed (room + 1) (.while condition body ending)
  | block {room : Nat} {name : String} {body : List Form} {ending : Ending}
      {again : Option String} (word : isWord name.toList = true)
      (inner : ∀ f ∈ body, WellFormed room f) (words : ∀ n ∈ again, isWord n.toList = true) :
      WellFormed (room + 1) (.block name body ending again)
  | include {room : Nat} {template : String} (nonempty : template ≠ "") :
      WellFormed room (.include template)
  | set {room : Nat} {target : String} {value : Expr} (word : isWord target.toList = true)
      (expr : value.WellFormed) : WellFormed room (.set target value)
  | spaceless {room : Nat} {body : List Form} {ending : Ending}
      (inner : ∀ f ∈ body, WellFormed room f) : WellFormed (room + 1) (.spaceless body ending)
  | debug {room : Nat} {value : Option Expr} (expr : ∀ e ∈ value, e.WellFormed) :
      WellFormed room (.debug value)
  | autoescape {room : Nat} {mode : Option Lexeme} {body : List Form} {ending : Ending}
      (known : ∀ l ∈ mode, (l.1 = .string ∨ l.1 = .name ∧ isWord l.2.toList = true) ∧
        (Grammar.escapeMode? l.2).isSome = true)
      (inner : ∀ f ∈ body, WellFormed room f) :
      WellFormed (room + 1) (.autoescape mode body ending)

/-- A page with at most `room` blocks open inside each other. -/
structure Page.WellFormed (room : Nat) (page : Page) : Prop where
  forms : ∀ f ∈ page.forms, f.WellFormed room
  parent : ∀ x ∈ page.parent, x.1 ≠ "" ∧ ∀ f ∈ x.2, f.WellFormed room
  apart : page.segments.IsChain Segment.Apart

end Stencil
