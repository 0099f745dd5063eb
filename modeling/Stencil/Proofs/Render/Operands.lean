import Stencil.Render.Evaluate

namespace Stencil

open Eval

/-- A computation that asks for the values of operands by their numbers, quietly or not, and acts
between the questions. -/
inductive Routine (α : Type) : Type 1
  | done (a : α)
  | act {β : Type} (x : Eval β) (next : β → Routine α)
  | ask (quiet : Bool) (i : Nat) (next : Value → Routine α)

namespace Routine

variable {α β : Type}

def andThen : Routine α → (α → Routine β) → Routine β
  | done a, f => f a
  | act x next, f => act x fun b => (next b).andThen f
  | ask quiet i next, f => ask quiet i fun v => (next v).andThen f

instance : Monad Routine where
  pure := done
  bind := andThen

theorem andThen_assoc {γ : Type} (x : Routine α) (f : α → Routine β) (g : β → Routine γ) :
    (x.andThen f).andThen g = x.andThen fun a => (f a).andThen g := by
  induction x with
  | done a => rfl
  | act x next ih => simp only [andThen, ih]
  | ask quiet i next ih => simp only [andThen, ih]

theorem andThen_done (x : Routine α) : x.andThen done = x := by
  induction x with
  | done a => rfl
  | act x next ih => simp only [andThen, ih]
  | ask quiet i next ih => simp only [andThen, ih]

instance : LawfulMonad Routine :=
  .mk' Routine andThen_done (fun _ _ => rfl) andThen_assoc

def operand (i : Nat) : Routine Value := ask false i done

def perform (x : Eval α) : Routine α := act x done

def values : (first count : Nat) → Routine (List Value)
  | _, 0 => return []
  | i, n + 1 => do
      let v ← operand i
      return v :: (← values (i + 1) n)

/-- The values of so many pairs of operands, from one operand on. -/
def entries : (first count : Nat) → Routine (List (Value × Value))
  | _, 0 => return []
  | i, n + 1 => do
      let k ← operand i
      let v ← operand (i + 1)
      return (k, v) :: (← entries (i + 2) n)

/-- The arguments of a call: so many operands by position, and one operand for each keyword. -/
def arguments (first args : Nat) (keywords : List String) : Routine Arguments := do
  let positional ← values first args
  return ⟨positional, keywords.zip (← values (first + args) keywords.length)⟩

def links (left : Value) (holds : Bool) : (next : Nat) → List CompareOp → Routine Value
  | _, [] => return .bool holds
  | i, op :: ops => do
      if holds then
        let right ← operand i
        links right (← perform (op.apply left right)) (i + 1) ops
      else return .bool false

def logic (op : LogicOp) : (first count : Nat) → Routine Value
  | _, 0 => return .null
  | i, 1 => operand i
  | i, n + 2 => do
      let v ← operand i
      if op.stopsAt v then return v else logic op (i + 1) (n + 1)

/-! Carrying out a routine. -/

section Eval

variable (operands : List (Eval Value))

/-- The answer to a question. There are operands for all questions of a head. -/
def answer (quiet : Bool) (i : Nat) : Eval Value :=
  let x := operands[i]?.getD (pure .null)
  if quiet then quietly x else x

def eval : Routine α → Eval α
  | done a => return a
  | act x next => do eval (next (← x))
  | ask quiet i next => do eval (next (← answer operands quiet i))

/-- The numbers of the operands that a routine asks for, in the order of the questions. -/
def asked : Routine α → World → List Nat
  | done _, _ => []
  | act x next, w =>
      match x.run w with
      | (.ok b, u) => (next b).asked u
      | (.error _, _) => []
  | ask quiet i next, w =>
      i :: match (answer operands quiet i).run w with
        | (.ok v, u) => (next v).asked u
        | (.error _, _) => []

theorem asked_operand (i : Nat) {v : Value} {w u : World} {f : Value → Routine α}
    (run : (answer operands false i).run w = (.ok v, u)) :
    (operand i >>= f).asked operands w = i :: (f v).asked operands u := by
  change (ask false i f).asked operands w = _
  rw [asked, run]

theorem asked_perform {x : Eval α} {a : α} {w u : World} {f : α → Routine β}
    (run : x.run w = (.ok a, u)) :
    (perform x >>= f).asked operands w = (f a).asked operands u := by
  change (act x f).asked operands w = _
  rw [asked, run]

@[simp] theorem eval_pure (a : α) : (pure a : Routine α).eval operands = pure a := rfl

@[simp] theorem eval_operand (i : Nat) : (operand i).eval operands = answer operands false i :=
  bind_pure (answer operands false i)

@[simp] theorem eval_perform (x : Eval α) : (perform x).eval operands = x := bind_pure x

@[simp] theorem eval_bind (x : Routine α) (f : α → Routine β) :
    (x >>= f).eval operands = x.eval operands >>= fun a => (f a).eval operands := by
  change (x.andThen f).eval operands = _
  induction x with
  | done a => simp only [andThen, eval, pure_bind]
  | act x next ih => simp only [andThen, eval, ih, bind_assoc]
  | ask quiet i next ih => simp only [andThen, eval, ih, bind_assoc]

@[simp] theorem eval_ite (p : Prop) [Decidable p] (x y : Routine α) :
    (if p then x else y).eval operands = if p then x.eval operands else y.eval operands := by
  split <;> rfl

end Eval

end Routine

/-- What stands in an expression besides its operands. -/
inductive Head
  | const (value : Literal)
  | name (name : String)
  | list (size : Nat)
  | dict (size : Nat)
  | attr (name : String)
  | item
  /-- A call of what a bare name stands for. -/
  | callName (name : String) (args : Nat) (keywords : List String)
  | call (args : Nat) (keywords : List String)
  | filter (name : String) (args : Nat) (keywords : List String)
  | test (name : String) (args : Nat) (negated : Bool)
  | arith (op : ArithOp)
  | sign (op : SignOp)
  | compare (ops : List CompareOp)
  | logic (op : LogicOp) (size : Nat)
  | choice
  | range
  | concat (size : Nat)

namespace Head

open Routine

def routine (s : Setting) : Head → Routine Value
  | const value => return value.value
  | name n => perform (s.variableOf n)
  | list n => return .list (← values 0 n)
  | dict n => do perform (Eval.ofExcept (buildDict (← entries 0 n)))
  | attr n => do perform (s.access (← operand 0) (.str n))
  | item => do
      let v ← operand 0
      perform (s.access v (← operand 1))
  | callName n args keywords => do
      match (← perform get).locals.lookup n with
      | some f => perform (s.callValue f (← arguments 0 args keywords))
      | none => perform (s.callFunction n (← arguments 0 args keywords))
  | call args keywords => do
      let f ← operand 0
      perform (s.callValue f (← arguments 1 args keywords))
  | filter n args keywords => do
      let v ← ask (quietFilters.contains n) 0 pure
      perform (s.callFilter n v (← arguments 1 args keywords))
  | test n args negated => do
      let v ← ask (quietTests.contains n) 0 pure
      let holds ← perform (s.callTest n v (← values 1 args))
      return .bool (holds != negated)
  | arith op => do
      let a ← operand 0
      let b ← operand 1
      perform (withLoopText fun loopText => op.apply loopText a b)
  | sign op => do perform (Eval.ofExcept (op.apply (← operand 0)))
  | compare [] => operand 0
  | compare (op :: ops) => do
      if op.isMembership then
        let b ← operand 1
        let a ← operand 0
        links b (← perform (op.apply a b)) 2 ops
      else
        let a ← operand 0
        let b ← operand 1
        links b (← perform (op.apply a b)) 2 ops
  | logic op n => Routine.logic op 0 n
  | choice => do if (← operand 0).truthy then operand 1 else operand 2
  | range => do
      let a ← operand 0
      let b ← operand 1
      return .list (← perform (Eval.ofExcept (Range.inclusive a b (.int 1))))
  | concat n => do
      let values ← values 0 n
      perform (withLoopText fun loopText =>
        .ok (.str (String.ofList (values.flatMap (Value.textOf loopText)))))

end Head

namespace Expr

def head : Expr → Head
  | const _ value => .const value
  | name _ n => .name n
  | list _ items => .list items.length
  | dict _ entries => .dict entries.length
  | attr _ _ n => .attr n
  | item _ _ _ => .item
  | call _ (name _ n) args named => .callName n args.length (named.map Prod.fst)
  | call _ _ args named => .call args.length (named.map Prod.fst)
  | filter _ _ n args named => .filter n args.length (named.map Prod.fst)
  | test _ _ n args negated => .test n args.length negated
  | arith _ op _ _ => .arith op
  | sign _ op _ => .sign op
  | compare _ _ links => .compare (links.map Prod.fst)
  | logic _ op parts => .logic op parts.length
  | choice _ _ _ _ => .choice
  | range _ _ _ => .range
  | concat _ parts => .concat parts.length

/-- The operands of an expression, in the order in which they are written. -/
def operands : Expr → List Expr
  | const _ _ | name _ _ => []
  | list _ parts | logic _ _ parts | concat _ parts => parts
  | dict _ entries => entries.flatMap fun (key, value) => [key, value]
  | attr _ object _ => [object]
  | item _ object key => [object, key]
  | call _ (name _ _) args named => args ++ named.map Prod.snd
  | call _ callee args named => callee :: (args ++ named.map Prod.snd)
  | filter _ value _ args named => value :: (args ++ named.map Prod.snd)
  | test _ value _ args _ => value :: args
  | arith _ _ left right => [left, right]
  | sign _ _ operand => [operand]
  | compare _ first links => first :: links.map Prod.snd
  | choice _ condition ifTrue ifFalse => [condition, ifTrue, ifFalse]
  | range _ first last => [first, last]

/-- The numbers of the operands that are evaluated when an expression is, in the order of time. -/
def evaluated (s : Setting) (e : Expr) (w : World) : List Nat :=
  (e.head.routine s).asked (e.operands.map (evaluate s)) w

/-! Operands are smaller than the expressions they belong to. -/

theorem sizeOf_mem_map_snd {α : Type} [SizeOf α] {named : List (α × Expr)} {e : Expr}
    (mem : e ∈ named.map Prod.snd) : sizeOf e < sizeOf named := by
  obtain ⟨argument, within, rfl⟩ := List.mem_map.mp mem
  have smaller := List.sizeOf_lt_of_mem within
  have parts : sizeOf argument = 1 + sizeOf argument.1 + sizeOf argument.2 := rfl
  omega

theorem sizeOf_given {args : List Expr} {named : List (String × Expr)} {e : Expr}
    (mem : e ∈ args ++ named.map Prod.snd) : sizeOf e < sizeOf args + sizeOf named := by
  rcases List.mem_append.mp mem with inArgs | inNamed
  · have := List.sizeOf_lt_of_mem inArgs
    omega
  · have := sizeOf_mem_map_snd inNamed
    omega

theorem sizeOf_operand {e o : Expr} (operand : o ∈ e.operands) : sizeOf o < sizeOf e := by
  cases e with
  | const | name => cases operand
  | list p parts | logic p op parts | concat p parts =>
      have smaller : sizeOf o < sizeOf parts := List.sizeOf_lt_of_mem operand
      grind
  | dict p entries =>
      obtain ⟨entry, within, either⟩ := List.mem_flatMap.mp operand
      have smaller := List.sizeOf_lt_of_mem within
      have parts : sizeOf entry = 1 + sizeOf entry.1 + sizeOf entry.2 := rfl
      grind
  | call p callee args named =>
      have either : o = callee ∨ o ∈ args ++ named.map Prod.snd := by
        cases callee <;> simp_all [operands]
      rcases either with rfl | given
      · grind
      · have := sizeOf_given given
        grind
  | filter p value n args named =>
      rcases List.mem_cons.mp operand with rfl | given
      · grind
      · have := sizeOf_given given
        grind
  | test p value n args negated =>
      rcases List.mem_cons.mp operand with rfl | inArgs
      · grind
      · have := List.sizeOf_lt_of_mem inArgs
        grind
  | compare p first links =>
      rcases List.mem_cons.mp operand with rfl | inLinks
      · grind
      · have := sizeOf_mem_map_snd inLinks
        grind
  | _ =>
      simp only [operands, List.mem_cons, List.not_mem_nil, or_false] at operand
      grind

/-- What holds of an expression if it holds of its operands, holds of all expressions. -/
theorem operandInduction {P : Expr → Prop} (step : ∀ e, (∀ o ∈ e.operands, P o) → P e) (e : Expr) :
    P e :=
  step e fun o _ => operandInduction step o
termination_by sizeOf e
decreasing_by exact sizeOf_operand ‹_›

end Expr

/-! An expression is evaluated by the routine of its head. -/

section Evaluate

open Routine

variable {s : Setting}

theorem answer_append (sofar further : List (Eval Value)) (x : Eval Value) :
    answer (sofar ++ x :: further) false sofar.length = x := by
  simp [answer]

theorem eval_values (sofar further : List (Eval Value)) (es : List Expr) :
    (values sofar.length es.length).eval (sofar ++ (es.map (evaluate s) ++ further)) =
      evaluateAll s es := by
  induction es generalizing sofar with
  | nil => rfl
  | cons e rest ih =>
      have rest := ih (sofar ++ [evaluate s e])
      simp only [List.length_append, List.length_singleton, List.append_assoc,
        List.singleton_append] at rest
      simp only [List.length_cons, values, eval_bind, eval_operand, eval_pure, List.map_cons,
        List.cons_append, answer_append, rest, evaluateAll]

theorem eval_entries (sofar : List (Eval Value)) (es : List (Expr × Expr)) :
    (Routine.entries sofar.length es.length).eval
        (sofar ++ (es.flatMap fun (key, value) => [key, value]).map (evaluate s)) =
      evaluateEntries s es := by
  induction es generalizing sofar with
  | nil => rfl
  | cons entry rest ih =>
      obtain ⟨key, value⟩ := entry
      have second := answer_append (sofar ++ [evaluate s key])
        ((rest.flatMap fun (key, value) => [key, value]).map (evaluate s)) (evaluate s value)
      have rest := ih (sofar ++ [evaluate s key, evaluate s value])
      simp only [List.length_append, List.length_cons, List.length_nil, List.append_assoc,
        List.cons_append, List.nil_append, Nat.zero_add, Nat.reduceAdd] at rest second
      simp only [List.length_cons, Routine.entries, eval_bind, eval_operand, eval_pure,
        List.flatMap_cons, List.map_cons, List.cons_append, List.nil_append, answer_append, second,
        rest, evaluateEntries]

theorem evaluateNamed_eq (named : List (String × Expr)) :
    evaluateNamed s named = do
      return (named.map Prod.fst).zip (← evaluateAll s (named.map Prod.snd)) := by
  induction named with
  | nil => rfl
  | cons argument rest ih =>
      simp only [evaluateNamed, ih, evaluateAll, List.map_cons, List.zip_cons_cons, bind_assoc,
        pure_bind]

theorem eval_arguments (sofar : List (Eval Value)) (args : List Expr)
    (named : List (String × Expr)) :
    (arguments sofar.length args.length (named.map Prod.fst)).eval
        (sofar ++ (args ++ named.map Prod.snd).map (evaluate s)) =
      (do
        let positional ← evaluateAll s args
        return ⟨positional, ← evaluateNamed s named⟩) := by
  have first := eval_values (s := s) sofar ((named.map Prod.snd).map (evaluate s)) args
  have second := eval_values (s := s) (sofar ++ args.map (evaluate s)) [] (named.map Prod.snd)
  simp only [List.length_append, List.length_map, List.append_nil, List.append_assoc] at second
  simp only [arguments, eval_bind, eval_pure, List.length_map, List.map_append, first, second,
    evaluateNamed_eq, bind_assoc, pure_bind]

theorem eval_links (sofar : List (Eval Value)) (left : Value) (holds : Bool)
    (links : List (CompareOp × Expr)) :
    (Routine.links left holds sofar.length (links.map Prod.fst)).eval
        (sofar ++ (links.map Prod.snd).map (evaluate s)) =
      evaluateLinks s left holds links := by
  induction links generalizing sofar left holds with
  | nil => rfl
  | cons link rest ih =>
      obtain ⟨op, e⟩ := link
      have rest := fun left holds => ih (sofar ++ [evaluate s e]) left holds
      simp only [List.length_append, List.length_singleton, List.append_assoc,
        List.singleton_append] at rest
      simp only [List.map_cons, Routine.links, eval_ite, eval_bind, eval_operand, eval_perform,
        eval_pure, answer_append, rest, evaluateLinks]

theorem eval_logic (sofar : List (Eval Value)) (op : LogicOp) (parts : List Expr) :
    (Routine.logic op sofar.length parts.length).eval (sofar ++ parts.map (evaluate s)) =
      evaluateLogic s op parts := by
  induction parts generalizing sofar with
  | nil => rfl
  | cons e rest ih =>
      cases rest with
      | nil =>
          simp only [List.length_singleton, Routine.logic, eval_operand, List.map_cons,
            answer_append, evaluateLogic]
      | cons next more =>
          have further := ih (sofar ++ [evaluate s e])
          simp only [List.length_append, List.length_singleton, List.append_assoc,
            List.singleton_append] at further
          simp only [List.length_cons, Routine.logic, eval_bind, eval_operand, eval_ite, eval_pure,
            List.map_cons, answer_append, evaluateLogic]
          simp only [List.length_cons, List.map_cons] at further
          simp only [further]

theorem eval_ask (operands : List (Eval Value)) (quiet : Bool) (i : Nat) :
    (ask quiet i pure : Routine Value).eval operands = answer operands quiet i :=
  bind_pure (answer operands quiet i)

theorem evaluate_call_value {callee : Expr} (value : ∀ q n, callee ≠ .name q n) (p : Pos)
    (args : List Expr) (named : List (String × Expr)) :
    evaluate s (.call p callee args named) = (do
      let f ← evaluate s callee
      let positional ← evaluateAll s args
      s.callValue f ⟨positional, ← evaluateNamed s named⟩) := by
  rw [evaluate]
  exact value

/-- To evaluate an expression is to carry out the routine of its head on its operands. -/
theorem evaluate_eq_eval (e : Expr) :
    evaluate s e = (e.head.routine s).eval (e.operands.map (evaluate s)) := by
  cases e with
  | const p value => rfl
  | name p n => exact (eval_perform _ _).symm
  | list p items =>
      have all := eval_values (s := s) [] [] items
      simp only [List.length_nil, List.append_nil, List.nil_append] at all
      simp only [evaluate, Expr.head, Expr.operands, Head.routine, eval_bind, all, eval_pure]
  | dict p entries =>
      have all := eval_entries (s := s) [] entries
      simp only [List.length_nil, List.nil_append] at all
      simp only [evaluate, Expr.head, Expr.operands, Head.routine, eval_bind, all, eval_perform]
  | call p callee args named =>
      have direct := eval_arguments (s := s) [] args named
      have other := eval_arguments (s := s) [evaluate s callee] args named
      simp only [List.length_nil, List.nil_append] at direct
      simp only [List.length_singleton, List.singleton_append] at other
      -- A bare name that is called is no operand: it is looked up, but not evaluated.
      cases callee with
      | name q n =>
          simp only [evaluate, Expr.head, Expr.operands, Head.routine, eval_bind, eval_perform]
          refine bind_congr fun w => ?_
          cases w.locals.lookup n with
          | none => simp only [eval_bind, eval_perform, direct, bind_assoc, pure_bind]
          | some f => simp only [eval_bind, eval_perform, direct, bind_assoc, pure_bind]
      | _ =>
          simp only [Expr.head, Expr.operands, Head.routine, eval_bind, eval_operand,
            eval_perform, List.map_cons, other, bind_assoc, pure_bind]
          rw [evaluate_call_value fun q n same => by cases same]
          rfl
  | filter p value n args named =>
      have given := eval_arguments (s := s) [evaluate s value] args named
      simp only [List.length_singleton, List.singleton_append] at given
      simp only [evaluate, Expr.head, Expr.operands, Head.routine, eval_bind, eval_ask,
        eval_perform, List.map_cons, given, bind_assoc, pure_bind]
      cases quietFilters.contains n <;> rfl
  | test p value n args negated =>
      have given := eval_values (s := s) [evaluate s value] [] args
      simp only [List.length_singleton, List.append_nil, List.singleton_append] at given
      simp only [evaluate, Expr.head, Expr.operands, Head.routine, eval_bind, eval_ask,
        eval_perform, eval_pure, List.map_cons, given]
      cases quietTests.contains n <;> rfl
  | compare p first links =>
      cases links with
      | nil => simp [evaluate, Expr.head, Expr.operands, Head.routine, answer]
      | cons link rest =>
          obtain ⟨op, second⟩ := link
          have further := fun left holds =>
            eval_links (s := s) [evaluate s first, evaluate s second] left holds rest
          simp only [List.length_cons, List.length_nil, List.cons_append, List.nil_append,
            Nat.zero_add, Nat.reduceAdd] at further
          simp only [evaluate, Expr.head, Expr.operands, Head.routine, List.map_cons, eval_ite,
            eval_bind, eval_operand, eval_perform, further]
          rfl
  | logic p op parts =>
      simpa [evaluate, Expr.head, Expr.operands, Head.routine] using
        (eval_logic (s := s) [] op parts).symm
  | concat p parts =>
      have all := eval_values (s := s) [] [] parts
      simp only [List.length_nil, List.append_nil, List.nil_append] at all
      simp only [evaluate, Expr.head, Expr.operands, Head.routine, eval_bind, all, eval_perform]
  | range p first last =>
      simp only [evaluate, Expr.head, Expr.operands, Head.routine, eval_bind, eval_operand,
        eval_perform, eval_pure]
      rfl
  | _ => simp [evaluate, Expr.head, Expr.operands, Head.routine, answer]

end Evaluate

end Stencil
