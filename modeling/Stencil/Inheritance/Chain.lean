import Stencil.Diagnostic.Basic
import Stencil.Stmt.Basic

/-!
Blocks: the definitions that a template gives for its blocks, and the replacement of blocks by
their winning definitions. Templates are flattened along the chain of their parents: the body of the
last parent, with the blocks that the templates before it define.
-/

namespace Stencil

/-- Block names with the bodies that are given for them. The first entry of a name counts. -/
abbrev BlockTable := List (String × List Stmt)

namespace Stmt

mutual

/-- The blocks that a statement defines, inner ones after the block around them. Of a branch the
alternative conditions come last. -/
def blocks : Stmt → BlockTable
  | block _ name body => (name, body) :: blocksOf body
  | branch _ _ body others otherwise => blocksOf body ++ blocksOf otherwise ++ blocksOfOthers others
  | loop _ _ _ body empty => blocksOf body ++ blocksOf empty
  | .while _ _ body => blocksOf body
  | spaceless _ body => blocksOf body
  | text _ _ | output _ _ _ | .include _ _ | .set _ _ _ | debug _ _ _ => []

def blocksOf : List Stmt → BlockTable
  | [] => []
  | s :: rest => s.blocks ++ blocksOf rest

def blocksOfOthers : List (Expr × List Stmt) → BlockTable
  | [] => []
  | (_, body) :: rest => blocksOf body ++ blocksOfOthers rest

end

/-- The definitions of a template; of several for one name the last one counts. -/
def blockTable (body : List Stmt) : BlockTable := (blocksOf body).reverse

section Fill

/-! The bodies of the table are filled in by `replace`, which is given the names of the blocks
around them. -/

variable (table : BlockTable) (replace : List String → List Stmt → List Stmt)

mutual

/-- A statement with its blocks filled in. A block inside the expansion of a block of its own name
keeps its own body; any other gets the body of the table if there is one. -/
def fill (active : List String) : Stmt → List Stmt
  | block _ name body =>
      if active.contains name then fillAll active body
      else
        match table.lookup name with
        | some winner => replace (name :: active) winner
        | none => fillAll (name :: active) body
  | branch p condition body others otherwise =>
      [branch p condition (fillAll active body) (fillOthers active others)
        (fillAll active otherwise)]
  | loop p target items body empty =>
      [loop p target items (fillAll active body) (fillAll active empty)]
  | .while p condition body => [.while p condition (fillAll active body)]
  | spaceless p body => [spaceless p (fillAll active body)]
  | text p value => [text p value]
  | output p value escape => [output p value escape]
  | .include p name => [.include p name]
  | .set p target value => [.set p target value]
  | debug p value label => [debug p value label]

def fillAll (active : List String) : List Stmt → List Stmt
  | [] => []
  | s :: rest => fill active s ++ fillAll active rest

def fillOthers (active : List String) : List (Expr × List Stmt) → List (Expr × List Stmt)
  | [] => []
  | (condition, body) :: rest => (condition, fillAll active body) :: fillOthers active rest

end

end Fill

/-- Statements with their blocks filled in, when at most `rounds` bodies of the table are expanded
inside each other. -/
def fillWithin (table : BlockTable) :
    (rounds : Nat) → (active : List String) → List Stmt → List Stmt
  | 0 => fillAll table fun _ body => body
  | rounds + 1 => fillAll table (fillWithin table rounds)

/-- Statements with their blocks filled in. A name is expanded once on every path, so the table
bounds the rounds. -/
def fillBlocks (table : BlockTable) (body : List Stmt) : List Stmt :=
  fillWithin table table.length [] body

end Stmt

structure Found where
  template : Template
  filename : Option String

namespace Chain

/-- The end of a chain: its template, the blocks that the templates before it define, and the files
of the parents. -/
structure Root where
  template : Template
  table : BlockTable
  files : List String

section Follow

variable {ε : Type} (load : String → Except ε Found) (refuse : Diagnostic → ε) (maxDepth : Int)

/-- Follows the parents of a template to the last one. `names` leads to the template, the nearest
name first; `room` more parents may follow. -/
def follow : (room : Nat) → (names : List String) → (table : BlockTable) → (files : List String) →
    Template → Except ε Root
  | room, names, table, files, t =>
      match t.parent with
      | none => .ok ⟨t, table, files⟩
      | some parent =>
          let path := (parent.template :: names).reverse
          if names.contains parent.template then .error (refuse (.recursion path none))
          else
            match room with
            | 0 => .error (refuse (.recursion path (some maxDepth)))
            | room + 1 =>
                match load parent.template with
                | .error e => .error e
                | .ok found =>
                    follow room (parent.template :: names) (table ++ Stmt.blockTable t.body)
                      (files ++ (found.filename.filter (· ≠ "")).toList) found.template

def flatten (t : Template) (name : String) : Except ε (Template × List String) :=
  match follow load refuse maxDepth maxDepth.toNat [name] [] [] t with
  | .error e => .error e
  | .ok root =>
      .ok (⟨Stmt.fillBlocks root.table root.template.body, none⟩, root.files)

end Follow

end Chain

end Stencil
