import Stencil.Assembly.LoopUse
import Stencil.Assembly.Names
import Stencil.Render.Code

/-!
Templates assembled for rendering: parents and includes are expanded, names are checked, and the
files that were used are listed.
-/

namespace Stencil

/-- What is noted while a template is assembled: the files of its includes, and the includes that
are missing, in the order in which they were met. -/
structure Trail where
  files : List String := []
  missing : List String := []
  deriving DecidableEq, Repr

/-- A step of assembling. What it noted stays noted if it fails. -/
abbrev Assembly (α : Type) := ExceptT Fault (StateM Trail) α

namespace Assembly

variable {α : Type}

def ofExcept (x : Except Fault α) : Assembly α := ExceptT.mk (pure x)

def noteFiles (files : List String) : Assembly Unit :=
  modify fun t => { t with files := t.files ++ files }

def noteMissing (name : String) : Assembly Unit :=
  modify fun t => { t with missing := t.missing ++ [name] }

end Assembly

def missingIncludeText (name : String) : String := "Include template not found: " ++ name

section Assemble

variable (p : Plan) (template : Option String)

/-- Where statements stand: whether they are part of an include, and what an include at this place
expands to when some names are loop variables. -/
structure Place where
  included : Bool
  expand : (locals : List String) → (name : String) → Assembly (List Code)

/-- The mark of a statement's line. Statements of an include keep the line of the include. -/
def Place.mark (place : Place) (pos : Pos) : List Code :=
  if place.included then [] else [.mark pos.line]

variable (place : Place)

mutual

/-- The code of a statement, when `locals` are the loop variables around it. -/
def assemble (locals : List String) : Stmt → Assembly (List Code)
  | .text _ value => return if value = "" then [] else [.text value]
  | .output pos value escape => do
      Assembly.ofExcept (checkExpr p.registries template locals value)
      return place.mark pos ++ [.output value escape]
  | .branch pos condition body others otherwise => do
      let body ← assembleAll locals body
      let otherwise ← assembleAll locals otherwise
      Assembly.ofExcept (checkExpr p.registries template locals condition)
      let others ← assembleOthers locals others
      return place.mark pos ++ [.branch condition body others otherwise]
  | .loop pos target items body empty => do
      let tracked ← Assembly.ofExcept (p.bodyUsesLoop body)
      Assembly.ofExcept (checkExpr p.registries template locals items)
      let bound := target.names ++ (if tracked then ["loop"] else [])
      let body ← assembleAll (bound ++ locals) body
      let empty ← assembleAll locals empty
      return place.mark pos ++ [.loop target tracked items body empty]
  | .while pos condition body => do
      let body ← assembleAll locals body
      Assembly.ofExcept (checkExpr p.registries template locals condition)
      return place.mark pos ++ [.while condition body]
  | .block _ _ body => assembleAll locals body
  | .include pos name => return place.mark pos ++ (← place.expand locals name)
  | .set pos target value => do
      Assembly.ofExcept (checkExpr p.registries template locals value)
      return place.mark pos ++ [.set target.name value]
  | .spaceless _ body => return [.spaceless (← assembleAll locals body)]
  | .debug pos value label => do
      match value with
      | some e => Assembly.ofExcept (checkExpr p.registries template locals e)
      | none => pure ()
      return place.mark pos ++ [.debug value label]

def assembleAll (locals : List String) : List Stmt → Assembly (List Code)
  | [] => return []
  | s :: rest => do
      let code ← assemble locals s
      return code ++ (← assembleAll locals rest)

def assembleOthers (locals : List String) :
    List (Expr × List Stmt) → Assembly (List (Expr × List Code))
  | [] => return []
  | (condition, body) :: rest => do
      Assembly.ofExcept (checkExpr p.registries template locals condition)
      let body ← assembleAll locals body
      return (condition, body) :: (← assembleOthers locals rest)

end

end Assemble

/-- The code of an included template. `stack` holds the templates around it, the nearest first, and
`room` more includes may be nested. A missing template expands to nothing. -/
def expandInclude (p : Plan) (template : Option String) : (room : Nat) → (stack : List String) →
    (locals : List String) → (name : String) → Assembly (List Code)
  | room, stack, locals, name =>
      let chain := (name :: stack).reverse
      if stack.contains name then throw (.diagnostic (.recursion chain none))
      else
        match room with
        | 0 => throw (.diagnostic (.recursion chain (some p.limits.depth)))
        | room + 1 =>
            match p.flattened name with
            | .error fault =>
                if fault.isNotFound then do
                  Assembly.noteMissing name
                  return []
                else throw fault
            | .ok (t, files) => do
                Assembly.noteFiles files
                assembleAll p template ⟨true, expandInclude p template room (name :: stack)⟩ locals
                  t.body

namespace Code

mutual

def loopDepth : Code → Nat
  | .text _ | .mark _ | .output _ _ | .set _ _ | .debug _ _ => 0
  | .branch _ body others otherwise =>
      max (max (loopDepthAll body) (loopDepthAll otherwise)) (loopDepthOthers others)
  | .loop _ _ _ body empty => max (loopDepthAll body + 1) (loopDepthAll empty)
  | .while _ body => loopDepthAll body + 1
  | .spaceless body => loopDepthAll body

def loopDepthAll : List Code → Nat
  | [] => 0
  | c :: rest => max c.loopDepth (loopDepthAll rest)

def loopDepthOthers : List (Expr × List Code) → Nat
  | [] => 0
  | (_, body) :: rest => max (loopDepthAll body) (loopDepthOthers rest)

end

section Any

variable (q : Expr → Bool)

mutual

def anyExpr : Code → Bool
  | .text _ | .mark _ => false
  | .output value _ | .set _ value => q value
  | .branch condition body others otherwise =>
      q condition || anyExprAll body || anyExprOthers others || anyExprAll otherwise
  | .loop _ _ items body empty => q items || anyExprAll body || anyExprAll empty
  | .while condition body => q condition || anyExprAll body
  | .spaceless body => anyExprAll body
  | .debug value _ => value.any q

def anyExprAll : List Code → Bool
  | [] => false
  | c :: rest => anyExpr c || anyExprAll rest

def anyExprOthers : List (Expr × List Code) → Bool
  | [] => false
  | (condition, body) :: rest => q condition || anyExprAll body || anyExprOthers rest

end

end Any

end Code

/-- Loops may be nested so deep, in a template with all of its parents and includes. -/
def deepestLoops : Nat := 20

def fileTitle (path : String) : String :=
  String.ofList (path.toList.reverse.takeWhile (· ≠ '/')).reverse

def refuseCode (filename : Option String) (reason : String) : Fault :=
  .unsupported (reason ++ " (" ++ fileTitle (firstGiven [filename] unnamed) ++ ", line 1)")

/-- Refuses loops that are nested too deep, and an argument name that nothing may have. -/
def checkCode (filename : Option String) (code : List Code) : Except Fault Unit :=
  if Code.loopDepthAll code > deepestLoops then
    .error (refuseCode filename "too many statically nested blocks")
  else if Code.anyExprAll (Expr.namesArgument "__debug__") code then
    .error (refuseCode filename "cannot assign to __debug__")
  else .ok ()

/-- A template ready to be rendered: its code, the files besides its own that it was made from, and
whether all of its includes were found. -/
structure Assembled where
  code : List Code
  dependencies : List String
  complete : Bool

namespace Plan

def assemble (p : Plan) (s : Source) : Assembly Assembled := do
  let t ← Assembly.ofExcept (p.parse s)
  let (flat, parents) ← Assembly.ofExcept (p.flatten t (firstGiven [s.name] "<string>"))
  let expand := expandInclude p s.name p.limits.depth.toNat [firstGiven [s.name] unnamed]
  let code ← assembleAll p s.name ⟨false, expand⟩ [] flat.body
  Assembly.ofExcept (checkCode s.filename code)
  let trail ← get
  return ⟨code, (parents ++ trail.files).eraseDups, trail.missing.isEmpty⟩

end Plan

end Stencil
