import Stencil.Render.Code

/-!
Templates as functions. All loops of a template share the variables of one function. What a name
stands for is settled when the function is made: a variable of the function where a loop around
binds the name, and the context everywhere else. A loop that binds such a name again saves the
variable before it begins and restores it at its end.
-/

namespace Stencil

def localId (name : String) : String := "l_" ++ name

def itemsId (loop : Nat) : String := "_loop_items_" ++ toString loop

def savedId (loop : Nat) (name : String) : String := "_saved_" ++ toString loop ++ "_" ++ name

/-- A statement of the function. With its expressions stand the names that are variables of the
function in them. -/
inductive Instr
  /-- Text, a mark, an output or a dump. -/
  | write (names : List String) (c : Code)
  | branch (names : List String) (condition : Expr) (body : List Instr)
      (others : List (Expr × List Instr)) (otherwise : List Instr)
  | while (names : List String) (condition : Expr) (body : List Instr)
  | spaceless (body : List Instr)
  | setContext (names : List String) (name : String) (value : Expr)
  | setLocal (names : List String) (name : String) (value : Expr)
  | copy (source target : String)
  | findItems (names : List String) (loop : Nat) (items : Expr) (pairs : Bool)
  | ifItems (loop : Nat) (body empty : List Instr)
  | makeLoop (loop : Nat) (parent : Option String)
  | forItems (loop : Nat) (target : Target) (tracked : Bool) (body : List Instr)
  deriving Inhabited

section Compile

def boundNames (target : Target) (tracked : Bool) : List String :=
  target.names ++ if tracked then ["loop"] else []

def saves (loop : Nat) (shadowed : List String) : List Instr :=
  shadowed.map fun name => .copy (localId name) (savedId loop name)

def restores (loop : Nat) (shadowed : List String) : List Instr :=
  shadowed.map fun name => .copy (savedId loop name) (localId name)

def shadowedNames (names : List String) (target : Target) (tracked : Bool) : List String :=
  (boundNames target tracked).filter names.contains

/-- The metadata of a loop leads to that of the loop around, where it has been saved. -/
def makes (loop : Nat) (tracked : Bool) (shadowed : List String) : List Instr :=
  if tracked then
    [.makeLoop loop (if shadowed.contains "loop" then some (savedId loop "loop") else none)]
  else []

def roundInstrs (names : List String) (loop : Nat) (target : Target) (tracked : Bool)
    (body : List Instr) : List Instr :=
  makes loop tracked (shadowedNames names target tracked) ++
    .forItems loop target tracked body :: restores loop (shadowedNames names target tracked)

def loopInstrs (names : List String) (loop : Nat) (target : Target) (tracked : Bool) (items : Expr)
    (body empty : List Instr) : List Instr :=
  .findItems names loop items target.isPair :: saves loop (shadowedNames names target tracked) ++
    [.ifItems loop (roundInstrs names loop target tracked body) empty]

mutual

/-- The instructions of a statement where some names are variables of the function, and the number
of the next loop before and behind it. -/
def compile (names : List String) (next : Nat) : Code → List Instr × Nat
  | .text value => ([.write names (.text value)], next)
  | .mark line => ([.write names (.mark line)], next)
  | .output value escape => ([.write names (.output value escape)], next)
  | .debug value label => ([.write names (.debug value label)], next)
  | .branch condition body others otherwise =>
      let (body, next) := compileAll names next body
      let (otherwise, next) := compileAll names next otherwise
      let (others, next) := compileOthers names next others
      ([.branch names condition body others otherwise], next)
  | .loop target tracked items body empty =>
      let (body, after) := compileAll (boundNames target tracked ++ names) (next + 1) body
      let (empty, after) := compileAll names after empty
      (loopInstrs names next target tracked items body empty, after)
  | .while condition body =>
      let (body, next) := compileAll names next body
      ([.while names condition body], next)
  | .set name value =>
      ([if names.contains name then .setLocal names name value else .setContext names name value],
        next)
  | .spaceless body =>
      let (body, next) := compileAll names next body
      ([.spaceless body], next)

def compileAll (names : List String) (next : Nat) : List Code → List Instr × Nat
  | [] => ([], next)
  | c :: rest =>
      let (first, next) := compile names next c
      let (others, next) := compileAll names next rest
      (first ++ others, next)

def compileOthers (names : List String) (next : Nat) :
    List (Expr × List Code) → List (Expr × List Instr) × Nat
  | [] => ([], next)
  | (condition, body) :: rest =>
      let (body, next) := compileAll names next body
      let (others, next) := compileOthers names next rest
      ((condition, body) :: others, next)

end

def functionOf (code : List Code) : List Instr := (compileAll [] 1 code).1

end Compile

/-! Here the locals of a world are the variables of the function. -/

section Run

variable {α : Type} (s : Setting)

/-- What the names stand for that are variables of the function. -/
def visible (names : List String) (held : List (String × Value)) : List (String × Value) :=
  names.filterMap fun name => (held.lookup (localId name)).map fun v => (name, v)

def inScope (names : List String) (x : Eval α) : Eval α := ExceptT.mk fun w =>
  let (result, after) := x.run { w with locals := visible names w.locals }
  (result, { after with locals := w.locals })

def readVariable (id : String) : Eval Value := do
  match (← get).locals.lookup id with
  | some v => return v
  | none => throw (.unassigned id)

def setVariable (id : String) (v : Value) : Eval Unit := modify fun w => w.setLocal id v

def readItems (loop : Nat) : Eval (List Value) := do
  match ← readVariable (itemsId loop) with
  | .list items => return items
  | v => throw (.notIterable v.typeName)

def readParent : Option String → Eval Value
  | some id => readVariable id
  | none => return .null

def makeLoop (loop : Nat) (parent : Option String) : Eval Unit := do
  let items ← readItems loop
  let around ← readParent parent
  let w ← get
  set { w with loops := w.loops.push (.start items around) }
  setVariable (localId "loop") (.loop w.loops.size)

def readLoop (tracked : Bool) : Eval (Option Nat) := do
  if tracked then
    match ← readVariable (localId "loop") with
    | .loop id => return some id
    | v => throw (.notIterable v.typeName)
  else return none

def Target.variables : Target → Target
  | .one b => .one { b with name := localId b.name }
  | .pair k v => .pair { k with name := localId k.name } { v with name := localId v.name }

mutual

def Instr.run : Instr → Eval (List Fragment)
  | .write names c => inScope names (execute s c)
  | .branch names condition body others otherwise => do
      if ← inScope names (holds s condition) then runAll body
      else runOthers names others (runAll otherwise)
  | .while names condition body =>
      Eval.whileWithin (inScope names (holds s condition)) (runAll body) mostRounds []
  | .spaceless body => return [.compact (← runAll body)]
  | .setContext names name value => do
      let v ← inScope names (evaluate s value)
      modify fun w => { w with context := w.context.set name v }
      return []
  | .setLocal names name value => do
      setVariable (localId name) (← inScope names (evaluate s value))
      return []
  | .copy source target => do
      setVariable target (← readVariable source)
      return []
  | .findItems names loop items pairs => do
      let found ← inScope names (evaluate s items >>= fun v => v.loopItems pairs)
      setVariable (itemsId loop) (.list found)
      return []
  | .ifItems loop body empty => do
      if (← readItems loop).isEmpty then runAll empty else runAll body
  | .makeLoop loop parent => do
      makeLoop loop parent
      return []
  | .forItems loop target tracked body => do
      let items ← readItems loop
      let id ← readLoop tracked
      Eval.forEach
        (fun (item, index) => do
          atItem target.variables id item index
          runAll body)
        items.zipIdx []

def runAll : List Instr → Eval (List Fragment)
  | [] => return []
  | i :: rest => do
      let written ← i.run
      return written ++ (← runAll rest)

def runOthers (names : List String) :
    List (Expr × List Instr) → Eval (List Fragment) → Eval (List Fragment)
  | [], otherwise => otherwise
  | (condition, body) :: rest, otherwise => do
      if ← inScope names (holds s condition) then runAll body
      else runOthers names rest otherwise

end

end Run

end Stencil
