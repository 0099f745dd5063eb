import Stencil.Assembly.Plan

namespace Stencil.Expr

section Any

variable (p : Expr → Bool)

mutual

def any : Expr → Bool
  | e@(const _ _) | e@(name _ _) => p e
  | e@(list _ items) => p e || anyOf items
  | e@(dict _ entries) => p e || anyEntry entries
  | e@(attr _ object _) => p e || any object
  | e@(item _ object key) => p e || any object || any key
  | e@(call _ callee args named) => p e || any callee || anyOf args || anyNamed named
  | e@(filter _ value _ args named) => p e || any value || anyOf args || anyNamed named
  | e@(test _ value _ args _) => p e || any value || anyOf args
  | e@(arith _ _ left right) => p e || any left || any right
  | e@(sign _ _ operand) => p e || any operand
  | e@(compare _ first links) => p e || any first || anyLink links
  | e@(logic _ _ parts) => p e || anyOf parts
  | e@(choice _ condition ifTrue ifFalse) => p e || any condition || any ifTrue || any ifFalse
  | e@(range _ first last) => p e || any first || any last
  | e@(concat _ parts) => p e || anyOf parts

def anyOf : List Expr → Bool
  | [] => false
  | e :: rest => any e || anyOf rest

def anyNamed : List (String × Expr) → Bool
  | [] => false
  | (_, e) :: rest => any e || anyNamed rest

def anyEntry : List (Expr × Expr) → Bool
  | [] => false
  | (k, v) :: rest => any k || any v || anyEntry rest

def anyLink : List (CompareOp × Expr) → Bool
  | [] => false
  | (_, e) :: rest => any e || anyLink rest

end

end Any

def usesLoop (e : Expr) : Bool :=
  e.any fun
    | name _ n => n == "loop"
    | _ => false

def namesArgument (n : String) (e : Expr) : Bool :=
  e.any fun
    | call _ _ _ named => named.any (·.1 == n)
    | filter _ _ _ _ named => named.any (·.1 == n)
    | _ => false

end Stencil.Expr

namespace Stencil

/-- Whether the first or else the second search finds something; the second one is only made if
the first one finds nothing. -/
def orSearch (first : Except Fault Bool) (second : Unit → Except Fault Bool) : Except Fault Bool :=
  match first with
  | .ok false => second ()
  | answer => answer

section Search

variable (include? : String → Except Fault Bool)

mutual

/-- Whether a statement uses `loop`; `include?` answers for an included template. -/
def Stmt.usesLoop : Stmt → Except Fault Bool
  | .text _ _ => .ok false
  | .output _ value _ => .ok value.usesLoop
  | .branch _ condition body others otherwise =>
      orSearch (.ok condition.usesLoop) fun _ =>
        orSearch (Stmt.anyUsesLoop body) fun _ =>
          orSearch (Stmt.othersUseLoop others) fun _ => Stmt.anyUsesLoop otherwise
  | .loop _ target items body empty =>
      orSearch (.ok (target.names.contains "loop" || items.usesLoop)) fun _ =>
        orSearch (Stmt.anyUsesLoop body) fun _ => Stmt.anyUsesLoop empty
  | .while _ condition body =>
      orSearch (.ok condition.usesLoop) fun _ => Stmt.anyUsesLoop body
  | .block _ _ body => Stmt.anyUsesLoop body
  | .include _ template => include? template
  | .set _ target value => .ok (target.name == "loop" || value.usesLoop)
  | .spaceless _ body => Stmt.anyUsesLoop body
  | .debug _ value _ => .ok (value.any Expr.usesLoop)

def Stmt.anyUsesLoop : List Stmt → Except Fault Bool
  | [] => .ok false
  | s :: rest => orSearch (Stmt.usesLoop s) fun _ => Stmt.anyUsesLoop rest

def Stmt.othersUseLoop : List (Expr × List Stmt) → Except Fault Bool
  | [] => .ok false
  | (condition, body) :: rest =>
      orSearch (.ok condition.usesLoop) fun _ =>
        orSearch (Stmt.anyUsesLoop body) fun _ => Stmt.othersUseLoop rest

end

end Search

namespace Plan

/-- Whether an included template uses `loop`. A template that was met on the way to it is not
searched again, and a missing one uses nothing. -/
def includeUsesLoop (p : Plan) : (rounds : Nat) → (seen : List String) → (name : String) →
    Except Fault Bool
  | 0, seen, name => if seen.contains name then .ok false else .error .endless
  | rounds + 1, seen, name =>
      if seen.contains name then .ok false
      else
        match p.flattened name with
        | .error fault => if fault.isNotFound then .ok false else .error fault
        | .ok (t, _) => Stmt.anyUsesLoop (p.includeUsesLoop rounds (name :: seen)) t.body

/-- How many includes are searched inside each other at most: as many as a path meets in the
library, and never fewer than may be nested. -/
def searchRounds (p : Plan) : Nat := p.library.bound + p.limits.depth.toNat + 1

def bodyUsesLoop (p : Plan) (body : List Stmt) : Except Fault Bool :=
  Stmt.anyUsesLoop (p.includeUsesLoop p.searchRounds []) body

end Plan

end Stencil
