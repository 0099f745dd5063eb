import Stencil.Proofs.Render.Frame

namespace Stencil

open Eval

/-- Whether two worlds have the same variables and the same metadata of loops, except for the loops
that were asked for their items. -/
structure World.Stays (asked : Nat → Prop) (w u : World) : Prop where
  context : u.context = w.context
  locals : u.locals = w.locals
  size : u.loops.size = w.loops.size
  loops : ∀ id, ¬ asked id → u.loops[id]? = w.loops[id]?

namespace World

variable {asked : Nat → Prop} {w u : World}

@[simp] theorem moveLoop_locals (w : World) (id i : Nat) : (w.moveLoop id i).locals = w.locals := by
  unfold moveLoop
  split <;> rfl

@[simp] theorem moveLoop_context (w : World) (id i : Nat) :
    (w.moveLoop id i).context = w.context := by
  unfold moveLoop
  split <;> rfl

theorem moveLoop_loops (w : World) (id i : Nat) :
    (w.moveLoop id i).loops = w.loops.modify id fun l => { l with index := i } := by
  apply Array.ext_getElem?
  intro other
  rw [Array.getElem?_modify]
  unfold moveLoop
  split
  · next l found =>
      rw [Array.getElem?_setIfInBounds]
      split
      · next same =>
          subst same
          split
          · simp [found]
          · next outside => simp [Array.getElem?_eq_none (Nat.le_of_not_lt outside)] at found
      · rfl
  · next missing =>
      split
      · next same =>
          subst same
          simp [missing]
      · rfl

namespace Stays

theorem refl (asked : Nat → Prop) (w : World) : w.Stays asked w := ⟨rfl, rfl, rfl, fun _ _ => rfl⟩

theorem trans {v : World} (first : w.Stays asked u) (second : u.Stays asked v) :
    w.Stays asked v where
  context := second.context.trans first.context
  locals := second.locals.trans first.locals
  size := second.size.trans first.size
  loops id free := (second.loops id free).trans (first.loops id free)

theorem mono {more : Nat → Prop} (stays : w.Stays asked u) (weaker : ∀ id, asked id → more id) :
    w.Stays more u where
  context := stays.context
  locals := stays.locals
  size := stays.size
  loops id free := stays.loops id fun isAsked => free (weaker id isAsked)

theorem frame (asked : Nat → Prop) : World.Frame (World.Stays asked) where
  refl := refl asked
  trans := trans
  notes _ _ := ⟨rfl, rfl, rfl, fun _ _ => rfl⟩
  generators _ _ := ⟨rfl, rfl, rfl, fun _ _ => rfl⟩

theorem moveLoop (w : World) (id i : Nat) (isAsked : asked id) :
    w.Stays asked (w.moveLoop id i) where
  context := w.moveLoop_context id i
  locals := w.moveLoop_locals id i
  size := by rw [moveLoop_loops, Array.size_modify]
  loops other free := by
    have apart : id ≠ other := fun same => free (same ▸ isAsked)
    rw [moveLoop_loops, Array.getElem?_modify, if_neg apart]

end Stays

@[simp] theorem settle_locals (w : World) (answer : HostAnswer) :
    (w.settle answer).locals = w.locals :=
  ((Stays.frame fun _ => True).settle (fun u e _ => .moveLoop u e.1 e.2 trivial) w).locals

end World

/-- The loops that a computation asks for their items when it begins in a world. -/
abbrev Asking := World → Nat → Prop

namespace Asking

variable {α : Type}

def none : Asking := fun _ _ => False

/-- What is asked by a computation and then, if it succeeds, by one that uses what it gave. -/
def andThen (first : Asking) (x : Eval α) (next : α → Asking) : Asking := fun w id =>
  first w id ∨ ∃ a u, x.run w = (.ok a, u) ∧ next a u id

def quietly (asking : Asking) : Asking := fun w => asking { w with quiet := w.quiet + 1 }

end Asking

section Expressions

variable (s : Setting)

def CompareOp.asks (op : CompareOp) (container : Value) : Asking :=
  fun _ id => op.isMembership ∧ container = .loop id

namespace Setting

/-- The loops that the host goes through in the call of a value. -/
def valueAsks (f : Value) (a : Arguments) : Asking := fun w id =>
  f.isHosted ∧ ∃ index, (id, index) ∈ (s.host.call w.heap f a).moved

def namedAsks (table : Registry) (name : String) (a : Arguments) : Asking :=
  match table.lookup name with
  | some (.value f) => s.valueAsks f a
  | _ => .none

def functionAsks (name : String) (a : Arguments) : Asking :=
  Asking.none.andThen (refuseNames "_call_function" ["func_name"] a.named) fun _ =>
    s.namedAsks s.registries.functions name a

def filterAsks (name : String) (v : Value) (a : Arguments) : Asking :=
  Asking.none.andThen (refuseNames "_filter" ["filter_name", "value"] a.named) fun _ =>
    s.namedAsks s.registries.filters name { a with positional := v :: a.positional }

def testAsks (name : String) (v : Value) (args : List Value) : Asking :=
  s.namedAsks s.registries.tests name ⟨v :: args, []⟩

end Setting

/-- The loops that arguments ask, and then a call with their values. -/
def argumentsAsk (positional named : Asking) (args : List Expr) (keywords : List (String × Expr))
    (call : Arguments → Asking) : Asking :=
  positional.andThen (evaluateAll s args) fun p =>
    named.andThen (evaluateNamed s keywords) fun n => call ⟨p, n⟩

mutual

/-- The loops that are searched or gone through in the evaluation of an expression. -/
def asks : Expr → Asking
  | .const _ _ | .name _ _ => .none
  | .list _ items => asksAll items
  | .dict _ entries => asksEntries entries
  | .attr _ object _ => asks object
  | .item _ object key => (asks object).andThen (evaluate s object) fun _ => asks key
  | .call _ (.name _ name) args named => fun w =>
      argumentsAsk s (asksAll args) (asksNamed named) args named
        (match w.locals.lookup name with
          | some f => s.valueAsks f
          | none => s.functionAsks name) w
  | .call _ callee args named =>
      (asks callee).andThen (evaluate s callee) fun f =>
        argumentsAsk s (asksAll args) (asksNamed named) args named (s.valueAsks f)
  | .filter _ value name args named =>
      if quietFilters.contains name then
        (asks value).quietly.andThen (quietly (evaluate s value)) fun v =>
          argumentsAsk s (asksAll args) (asksNamed named) args named (s.filterAsks name v)
      else
        (asks value).andThen (evaluate s value) fun v =>
          argumentsAsk s (asksAll args) (asksNamed named) args named (s.filterAsks name v)
  | .test _ value name args _ =>
      if quietTests.contains name then
        (asks value).quietly.andThen (quietly (evaluate s value)) fun v =>
          (asksAll args).andThen (evaluateAll s args) (s.testAsks name v)
      else
        (asks value).andThen (evaluate s value) fun v =>
          (asksAll args).andThen (evaluateAll s args) (s.testAsks name v)
  | .arith _ _ left right => (asks left).andThen (evaluate s left) fun _ => asks right
  | .sign _ _ operand => asks operand
  | .compare _ first [] => asks first
  | .compare _ first ((op, e) :: rest) =>
      if op.isMembership then
        (asks e).andThen (evaluate s e) fun b =>
          (asks first).andThen (evaluate s first) fun a =>
            (op.asks b).andThen (op.apply a b) fun holds => asksLinks b holds rest
      else
        (asks first).andThen (evaluate s first) fun a =>
          (asks e).andThen (evaluate s e) fun b =>
            (op.asks b).andThen (op.apply a b) fun holds => asksLinks b holds rest
  | .logic _ op parts => asksLogic op parts
  | .choice _ condition ifTrue ifFalse =>
      (asks condition).andThen (evaluate s condition) fun v =>
        if v.truthy then asks ifTrue else asks ifFalse
  | .range _ first last => (asks first).andThen (evaluate s first) fun _ => asks last
  | .concat _ parts => asksAll parts

def asksAll : List Expr → Asking
  | [] => .none
  | e :: rest => (asks e).andThen (evaluate s e) fun _ => asksAll rest

def asksNamed : List (String × Expr) → Asking
  | [] => .none
  | (_, e) :: rest => (asks e).andThen (evaluate s e) fun _ => asksNamed rest

def asksEntries : List (Expr × Expr) → Asking
  | [] => .none
  | (key, e) :: rest =>
      (asks key).andThen (evaluate s key) fun _ =>
        (asks e).andThen (evaluate s e) fun _ => asksEntries rest

def asksLinks (left : Value) (holds : Bool) : List (CompareOp × Expr) → Asking
  | [] => .none
  | (op, e) :: rest =>
      if holds then
        (asks e).andThen (evaluate s e) fun right =>
          (op.asks right).andThen (op.apply left right) fun holds => asksLinks right holds rest
      else .none

def asksLogic (op : LogicOp) : List Expr → Asking
  | [] => .none
  | [e] => asks e
  | e :: rest =>
      (asks e).andThen (evaluate s e) fun v => if op.stopsAt v then .none else asksLogic op rest

end

end Expressions

namespace Eval

variable {α β : Type}

/-- A computation leaves the variables alone, and the loops that it does not ask. -/
def Spares (asking : Asking) (x : Eval α) : Prop :=
  ∀ w : World, w.Stays (asking w) (x.run w).2

abbrev Still (x : Eval α) : Prop := Step.Follows (World.Stays fun _ => False) x

theorem still : World.Frame (World.Stays fun _ => False) := World.Stays.frame _

namespace Spares

variable {asking : Asking}

theorem of_follows {asked : Nat → Prop} {x : Eval α} (follows : Step.Follows (World.Stays asked) x)
    (isAsked : ∀ w id, asked id → asking w id) : Spares asking x :=
  fun w => (follows w).mono (isAsked w)

theorem of_still {x : Eval α} (isStill : Still x) : Spares asking x :=
  of_follows isStill fun _ _ impossible => impossible.elim

theorem bind {x : Eval α} {f : α → Eval β} {next : α → Asking} (hx : Spares asking x)
    (hf : ∀ a, Spares (next a) (f a)) : Spares (asking.andThen x next) (x >>= f) := by
  intro w
  have first : World.Stays (asking.andThen x next w) w (x.run w).2 :=
    (hx w).mono fun id isAsked => .inl isAsked
  rw [Step.run_bind]
  cases run : x.run w with
  | mk result m =>
      rw [run] at first
      cases result with
      | error fault => exact first
      | ok a => exact first.trans ((hf a m).mono fun id isAsked => .inr ⟨a, m, run, isAsked⟩)

theorem bindStill {x : Eval α} {f : α → Eval β} (hx : Spares asking x)
    (hf : ∀ a, Still (f a)) : Spares asking (x >>= f) := by
  intro w
  have first := hx w
  rw [Step.run_bind]
  cases run : x.run w with
  | mk result m =>
      rw [run] at first
      cases result with
      | error fault => exact first
      | ok a => exact first.trans ((hf a m).mono fun id impossible => impossible.elim)

theorem getBind {f : World → Eval β} (hf : ∀ w, Spares asking (f w)) :
    Spares asking (MonadState.get >>= f) :=
  fun w => hf w w

theorem quietly {x : Eval α} (hx : Spares asking x) : Spares asking.quietly (quietly x) := by
  intro w
  have inside := hx { w with quiet := w.quiet + 1 }
  exact ⟨inside.context, inside.locals, inside.size, inside.loops⟩

end Spares

end Eval

open Eval

variable {s : Setting}

namespace Setting

theorem report_still (name message : String) : Still (s.report name message) := by
  intro w
  unfold report
  rw [Step.run_bind, Step.run_get]
  dsimp only
  split
  · rw [Step.run_bind, Step.run_set]
    dsimp only
    split <;> exact ⟨rfl, rfl, rfl, fun _ _ => rfl⟩
  · exact .refl _ w

theorem missing_still (name message : String) : Still (s.missing name message) :=
  still.bind (s.report_still name message) fun _ => still.pure _

theorem access_still (v key : Value) : Still (s.access v key) := by
  unfold access
  split
  · exact still.pure _
  · apply still.bind still.get
    intro w
    split
    · exact still.pure _
    · exact s.missing_still _ _

theorem lookup_still (name : String) : Still (s.lookup name) := by
  apply still.bind still.get
  intro w
  split
  · exact still.pure _
  · exact s.missing_still _ _

theorem variableOf_still (name : String) : Still (s.variableOf name) := by
  apply still.bind still.get
  intro w
  split
  · exact still.pure _
  · exact s.lookup_still _

end Setting

theorem CompareOp.apply_spares (op : CompareOp) (a b : Value) :
    Spares (op.asks b) (op.apply a b) := by
  have follows : Step.Follows (World.Stays fun id => op.isMembership ∧ b = .loop id)
      (op.apply a b) :=
    op.apply_follows (World.Stays.frame _) a
      fun id member same w i => .moveLoop w id i ⟨member, same⟩
  exact .of_follows follows fun _ _ isAsked => isAsked

namespace Setting

theorem callHost_spares {f : Value} (isHosted : f.isHosted) (a : Arguments) :
    Spares (s.valueAsks f a) (s.callHost f a) :=
  fun w => (World.Stays.frame _).settle
    (fun u e moved => .moveLoop u e.1 e.2 ⟨isHosted, e.2, moved⟩) w

theorem callValue_spares (f : Value) (a : Arguments) :
    Spares (s.valueAsks f a) (s.callValue f a) :=
  callValue_cases (P := fun call => Spares (s.valueAsks f a) (call s))
    (fun isHosted => callHost_spares isHosted a) (.of_still (still.pure _))
    (fun _ _ _ => .of_still (still.ofExcept _))
    (fun id => .of_still (callCycle_follows still id a)) (.of_still (still.throw _))

theorem callNamed_spares (kind : NameKind) (table : Registry) (name : String) (a : Arguments) :
    Spares (s.namedAsks table name a) (s.callNamed kind table name a) := by
  unfold callNamed namedAsks
  cases table.lookup name with
  | none => exact .of_still (still.bind still.get fun _ => still.throw _)
  | some c =>
      cases c with
      | filter => exact .of_still (still.withLoopText _)
      | test | range => exact .of_still (still.ofExcept _)
      | value f => exact s.callValue_spares f a

theorem callFunction_spares (name : String) (a : Arguments) :
    Spares (s.functionAsks name a) (s.callFunction name a) :=
  (Spares.of_still (refuseNames_follows still _ _ _)).bind fun _ => s.callNamed_spares _ _ _ _

theorem callFilter_spares (name : String) (v : Value) (a : Arguments) :
    Spares (s.filterAsks name v a) (s.callFilter name v a) :=
  (Spares.of_still (refuseNames_follows still _ _ _)).bind fun _ => s.callNamed_spares _ _ _ _

theorem callTest_spares (name : String) (v : Value) (args : List Value) :
    Spares (s.testAsks name v args) (s.callTest name v args) :=
  (s.callNamed_spares _ _ _ _).bindStill fun _ => still.pure _

end Setting

theorem called_spares {askedPositional askedNamed : Asking} {args : List Expr}
    {named : List (String × Expr)} {asked : Arguments → Asking} {call : Arguments → Eval Value}
    (hpositional : Spares askedPositional (evaluateAll s args))
    (hnamed : Spares askedNamed (evaluateNamed s named))
    (hcall : ∀ a, Spares (asked a) (call a)) :
    Spares (argumentsAsk s askedPositional askedNamed args named asked)
      (evaluateAll s args >>= fun p => evaluateNamed s named >>= fun n => call ⟨p, n⟩) := by
  apply hpositional.bind
  intro p
  exact hnamed.bind fun n => hcall ⟨p, n⟩

mutual

theorem evaluate_spares : (e : Expr) → Spares (asks s e) (evaluate s e)
  | .const _ value => .of_still (still.pure _)
  | .name _ name => .of_still (s.variableOf_still name)
  | .list _ items => (evaluateAll_spares items).bindStill fun _ => still.pure _
  | .dict _ entries => (evaluateEntries_spares entries).bindStill fun _ => still.ofExcept _
  | .attr _ object name => (evaluate_spares object).bindStill fun v => s.access_still v _
  | .item _ object key => by
      apply (evaluate_spares object).bind
      intro v
      exact (evaluate_spares key).bindStill fun k => s.access_still v k
  | .call _ callee args named => by
      have hargs := evaluateAll_spares args
      have hnamed := evaluateNamed_spares named
      have called := (evaluate_spares callee).bind fun f =>
        called_spares hargs hnamed (s.callValue_spares f)
      cases callee with
      | name _ name =>
          intro w
          rw [asks, evaluate, Step.run_bind, Step.run_get]
          dsimp only
          cases w.locals.lookup name with
          | some f => exact called_spares hargs hnamed (s.callValue_spares f) w
          | none => exact called_spares hargs hnamed (s.callFunction_spares name) w
      | _ => exact called
  | .filter _ value name args named => by
      have hvalue := evaluate_spares value
      have called := fun v : Value => called_spares (evaluateAll_spares args)
        (evaluateNamed_spares named) (s.callFilter_spares name v)
      rw [asks, evaluate]
      split
      · exact hvalue.quietly.bind called
      · exact hvalue.bind called
  | .test _ value name args negated => by
      have hvalue := evaluate_spares value
      have tested := fun v : Value => (evaluateAll_spares args).bind fun given =>
        (s.callTest_spares name v given).bindStill fun passes =>
          still.pure (Value.bool (passes != negated))
      rw [asks, evaluate]
      split
      · exact hvalue.quietly.bind tested
      · exact hvalue.bind tested
  | .arith _ op left right => by
      apply (evaluate_spares left).bind
      intro a
      exact (evaluate_spares right).bindStill fun b => still.withLoopText _
  | .sign _ op operand => (evaluate_spares operand).bindStill fun _ => still.ofExcept _
  | .compare _ first [] => evaluate_spares first
  | .compare _ first ((op, e) :: rest) => by
      have hfirst := evaluate_spares first
      have hsecond := evaluate_spares e
      have linked := fun a b : Value => (op.apply_spares a b).bind fun holds =>
        evaluateLinks_spares b holds rest
      rw [asks, evaluate]
      split
      · exact hsecond.bind fun b => hfirst.bind fun a => linked a b
      · exact hfirst.bind fun a => hsecond.bind fun b => linked a b
  | .logic _ op parts => evaluateLogic_spares op parts
  | .choice _ condition ifTrue ifFalse => by
      apply (evaluate_spares condition).bind
      intro v
      split
      · exact evaluate_spares ifTrue
      · exact evaluate_spares ifFalse
  | .range _ first last => by
      apply (evaluate_spares first).bind
      intro a
      apply (evaluate_spares last).bindStill
      intro b
      exact still.bind (still.ofExcept _) fun _ => still.pure _
  | .concat _ parts => (evaluateAll_spares parts).bindStill fun _ => still.withLoopText _

theorem evaluateAll_spares : (es : List Expr) → Spares (asksAll s es) (evaluateAll s es)
  | [] => .of_still (still.pure _)
  | e :: rest => by
      apply (evaluate_spares e).bind
      intro v
      exact (evaluateAll_spares rest).bindStill fun _ => still.pure _

theorem evaluateNamed_spares :
    (named : List (String × Expr)) → Spares (asksNamed s named) (evaluateNamed s named)
  | [] => .of_still (still.pure _)
  | (name, e) :: rest => by
      apply (evaluate_spares e).bind
      intro v
      exact (evaluateNamed_spares rest).bindStill fun _ => still.pure _

theorem evaluateEntries_spares :
    (entries : List (Expr × Expr)) → Spares (asksEntries s entries) (evaluateEntries s entries)
  | [] => .of_still (still.pure _)
  | (key, e) :: rest => by
      apply (evaluate_spares key).bind
      intro k
      apply (evaluate_spares e).bind
      intro v
      exact (evaluateEntries_spares rest).bindStill fun _ => still.pure _

theorem evaluateLinks_spares (left : Value) (holds : Bool) : (links : List (CompareOp × Expr)) →
    Spares (asksLinks s left holds links) (evaluateLinks s left holds links)
  | [] => .of_still (still.pure _)
  | (op, e) :: rest => by
      rw [asksLinks, evaluateLinks]
      split
      · apply (evaluate_spares e).bind
        intro right
        apply (op.apply_spares left right).bind
        intro holds
        exact evaluateLinks_spares right holds rest
      · exact .of_still (still.pure _)

theorem evaluateLogic_spares (op : LogicOp) :
    (parts : List Expr) → Spares (asksLogic s op parts) (evaluateLogic s op parts)
  | [] => .of_still (still.pure _)
  | [e] => evaluate_spares e
  | e :: next :: rest => by
      apply (evaluate_spares e).bind
      intro v
      split
      · exact .of_still (still.pure _)
      · exact evaluateLogic_spares op (next :: rest)

end

end Stencil
