import Stencil.Html.Tags
import Stencil.Render.Evaluate
import Stencil.Stmt.Basic

/-!
Templates as they are rendered: statements in which parents and includes are expanded, with marks
for the lines that messages tell.
-/

namespace Stencil

inductive Code
  | text (value : String)
  /-- From here on the current line is `line`. -/
  | mark (line : Nat)
  | output (value : Expr) (escape : Bool)
  | branch (condition : Expr) (body : List Code) (others : List (Expr × List Code))
      (otherwise : List Code)
  /-- A loop that is `tracked` offers its metadata as `loop`. -/
  | loop (target : Target) (tracked : Bool) (items : Expr) (body empty : List Code)
  | while (condition : Expr) (body : List Code)
  | set (name : String) (value : Expr)
  | spaceless (body : List Code)
  | debug (value : Option Expr) (label : String)
  deriving Inhabited

inductive Fragment
  /-- Text of the template itself. -/
  | literal (text : String)
  /-- The value of an output tag, escaped or as it is. -/
  | value (text : String)
  /-- A dump for debugging. -/
  | dump (text : String)
  /-- Pieces whose blanks between tags are removed. -/
  | compact (parts : List Fragment)
  deriving Inhabited

namespace Fragment

mutual

def chars : Fragment → List Char
  | literal text | value text | dump text => text.toList
  | compact parts => Html.spaceless (charsOf parts)

def charsOf : List Fragment → List Char
  | [] => []
  | f :: rest => f.chars ++ charsOf rest

end

end Fragment

def debugDump (loopText : Nat → List Char) (v : Value) (label : String) : String :=
  String.ofList <|
    ("<div class=\"sprig-debug\" style=\"background:#f5f5f5;border:1px solid #ccc;" ++
      "padding:10px;margin:10px 0;font-family:monospace;font-size:12px;\">").toList ++
    "<strong>Debug: ".toList ++ Html.escapeChars label.toList ++ "</strong><pre>".toList ++
    Html.escapeChars (v.pretty loopText) ++ "</pre></div>".toList

/-- A `while` runs for so many rounds at most. -/
def mostRounds : Nat := 10000000

section Execute

variable (s : Setting)

/-- Whether a condition holds. A bare variable of the context is only asked whether it is set. -/
def holds (condition : Expr) : Eval Bool := do
  match condition with
  | .name _ name =>
      match (← get).locals.lookup name with
      | some v => return v.truthy
      | none => isSet name
  | e => return (← evaluate s e).truthy

def bindTarget (target : Target) (item : Value) (w : World) : World :=
  match target, item with
  | .one b, v => w.setLocal b.name v
  | .pair k v, .tuple [key, value] => (w.setLocal k.name key).setLocal v.name value
  | .pair _ _, _ => w

def loopBindings (target : Target) (loop : Option Value) : List (String × Value) :=
  let targets := match target with
    | .one b => [(b.name, Value.null)]
    | .pair k v => [(k.name, Value.null), (v.name, Value.null)]
  targets ++ (loop.map fun l => ("loop", l)).toList

/-- Enters a loop: its variables are bound, and its metadata is made if it is tracked. Gives the
metadata and the number of the new bindings. -/
def enterLoop (target : Target) (tracked : Bool) (items : List Value) :
    Eval (Option Nat × Nat) := do
  let w ← get
  if tracked then
    let id := w.loops.size
    let added := loopBindings target (some (.loop id))
    let around := (w.locals.lookup "loop").getD .null
    set { w with loops := w.loops.push (.start items around), locals := added ++ w.locals }
    return (some id, added.length)
  else
    let added := loopBindings target none
    set { w with locals := added ++ w.locals }
    return (none, added.length)

def atItem (target : Target) (id : Option Nat) (item : Value) (index : Nat) : Eval Unit :=
  modify fun w =>
    bindTarget target item <| match id with
      | some id => w.moveLoop id index
      | none => w

def leaveLoop (added : Nat) : Eval Unit := modify fun w => { w with locals := w.locals.drop added }

/-- Assigns a variable: the loop variable of that name if there is one, or else the variable of the
context. -/
def assign (name : String) (v : Value) : Eval Unit := modify fun w =>
  if (w.locals.lookup name).isSome then w.setLocal name v
  else { w with context := w.context.set name v }

mutual

def execute : Code → Eval (List Fragment)
  | .text value => return [.literal value]
  | .mark line => do
      modify fun w => { w with line }
      return []
  | .output value escape => do
      let v ← evaluate s value
      let w ← get
      let text := if escape then Html.escape w.loopText v else v.textOf w.loopText
      return [.value (String.ofList text)]
  | .branch condition body others otherwise => do
      if ← holds s condition then executeAll body else executeOthers others (executeAll otherwise)
  | .loop target tracked items body empty => do
      let found ← (← evaluate s items).loopItems target.isPair
      if found.isEmpty then executeAll empty
      else
        let (id, added) ← enterLoop target tracked found
        let written ← Eval.forEach
          (fun (item, index) => do
            atItem target id item index
            executeAll body)
          found.zipIdx []
        leaveLoop added
        return written
  | .while condition body => Eval.whileWithin (holds s condition) (executeAll body) mostRounds []
  | .set name value => do
      assign name (← evaluate s value)
      return []
  | .spaceless body => return [.compact (← executeAll body)]
  | .debug value label => do
      let v ← match value with
        | some e => evaluate s e
        | none => pure (← get).context.toDict
      return [.dump (debugDump (← get).loopText v label)]

def executeAll : List Code → Eval (List Fragment)
  | [] => return []
  | c :: rest => do
      let written ← execute c
      return written ++ (← executeAll rest)

/-- The first of several conditions that holds decides; if none does, the rest is written. -/
def executeOthers : List (Expr × List Code) → Eval (List Fragment) → Eval (List Fragment)
  | [], otherwise => otherwise
  | (condition, body) :: rest, otherwise => do
      if ← holds s condition then executeAll body else executeOthers rest otherwise

end

end Execute

end Stencil
