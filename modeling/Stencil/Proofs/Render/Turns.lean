import Stencil.Proofs.Render.Blind
import Stencil.Proofs.Render.Operands
import Stencil.Proofs.Render.Strict

namespace Stencil

open Eval

/-! What can be heard of a computation. -/

def fault? {α : Type} : Except Fault α → Option Fault
  | .ok _ => none
  | .error fault => some fault

def World.heard (w : World) : List Reference × List Value := (w.references, w.notes)

theorem World.moveLoop_heard (p : Prop) [Decidable p] (w : World) (id i : Nat) :
    (if p then w else w.moveLoop id i).heard = w.heard := by
  unfold moveLoop
  split
  · rfl
  · split <;> rfl

def Silent {α : Type} (x : Eval α) : Prop := Step.Follows (fun w u => u.heard = w.heard) x

namespace Silent

variable {α β : Type}

theorem pure (a : α) : Silent (Pure.pure a : Eval α) := fun _ => rfl

theorem throw (fault : Fault) : Silent (MonadExcept.throw fault : Eval α) := fun _ => rfl

theorem get : Silent (MonadState.get : Eval World) := fun _ => rfl

theorem bind {x : Eval α} {f : α → Eval β} (hx : Silent x) (hf : ∀ a, Silent (f a)) :
    Silent (x >>= f) :=
  Step.Follows.bind (R := fun w u : World => u.heard = w.heard)
    (fun first second => second.trans first) hx hf

theorem ofExcept (x : Except Fault α) : Silent (Eval.ofExcept x) := fun _ => rfl

theorem withLoopText (f : (Nat → List Char) → Except Fault α) : Silent (Eval.withLoopText f) :=
  get.bind fun _ => ofExcept _

theorem update {f : World → World} {a : World → α} (unheard : ∀ w, (f w).heard = w.heard) :
    Silent (MonadState.get >>= fun w => MonadStateOf.set (f w) >>= fun _ => Pure.pure (a w)) :=
  unheard

end Silent

namespace Value

theorem holds_silent (v item : Value) : Silent (v.holds item) := by
  cases v with
  | generator id => exact .update fun _ => rfl
  | loop id => exact .update fun w => w.moveLoop_heard _ _ _
  | view kind entries =>
      cases kind with
      | keys | values => exact .pure _
      | items =>
          unfold holds
          dsimp only
          split
          · exact .pure _
          · exact .pure _
  | bytes bs =>
      unfold holds
      dsimp only
      split
      · exact .pure _
      · split
        · split
          · exact .pure _
          · exact .throw _
        · exact .pure _
  | _ => exact .pure _

end Value

theorem CompareOp.apply_silent (op : CompareOp) (a b : Value) : Silent (op.apply a b) := by
  cases op with
  | eq | ne => exact .pure _
  | lt | gt | le | ge => exact .ofExcept _
  | isIn => exact Value.holds_silent b a
  | notIn => exact (Value.holds_silent b a).bind fun _ => .pure _
  | startsWith | endsWith => exact .withLoopText _

namespace Head

/-- A chain that begins with a search for an item evaluates the container before the item. -/
def searchesFirst : Head → Bool
  | compare (op :: _) => op.isMembership
  | _ => false

def quiets : Head → Nat → Bool
  | filter n _ _, 0 => quietFilters.contains n
  | test n _ _, 0 => quietTests.contains n
  | _, _ => false

theorem quiets_eq_false (f : Head) {i : Nat} (later : 1 ≤ i) : f.quiets i = false := by
  obtain ⟨i, rfl⟩ := Nat.exists_eq_add_of_le' later
  cases f <;> rfl

/-- The turn in which an operand is evaluated. A search that comes first swaps the turns of its
operands, and the branches of a choice share one turn. -/
def turn : Head → Nat → Nat
  | compare (op :: _), i =>
      if op.isMembership then
        match i with
        | 0 => 1
        | 1 => 0
        | i => i
      else i
  | choice, 2 => 1
  | _, i => i

def turns : Head → Nat
  | const _ | name _ => 0
  | attr _ | sign _ => 1
  | item | arith _ | range | choice => 2
  | list n | logic _ n | concat n => n
  | dict n => 2 * n
  | callName _ args keywords => args + keywords.length
  | call args keywords | filter _ args keywords => 1 + args + keywords.length
  | test _ args _ => 1 + args
  | compare ops => 1 + ops.length

/-- Whether a head that comes to a value may do so before all turns are taken. -/
def endsWith : Head → Value → Bool
  | logic op _, v => op.stopsAt v
  | compare _, v => !v.truthy
  | _, _ => false

/-- The acts of a head itself that can be heard: look-ups, accesses and calls. -/
inductive Acts (s : Setting) : Head → {β : Type} → Eval β → Prop
  | looksUp {n : String} : Acts s (.name n) (s.variableOf n)
  | takesPart {n : String} {v : Value} : Acts s (.attr n) (s.access v (.str n))
  | takesItem {v key : Value} : Acts s .item (s.access v key)
  | callsLocal {n : String} {args : Nat} {keywords : List String} {f : Value} {a : Arguments} :
      Acts s (.callName n args keywords) (s.callValue f a)
  | callsFunction {n : String} {args : Nat} {keywords : List String} {a : Arguments} :
      Acts s (.callName n args keywords) (s.callFunction n a)
  | callsValue {args : Nat} {keywords : List String} {f : Value} {a : Arguments} :
      Acts s (.call args keywords) (s.callValue f a)
  | filters {n : String} {args : Nat} {keywords : List String} {v : Value} {a : Arguments} :
      Acts s (.filter n args keywords) (s.callFilter n v a)
  | tests {n : String} {args : Nat} {negated : Bool} {v : Value} {given : List Value} :
      Acts s (.test n args negated) (s.callTest n v given)

end Head

/-! A strict setting hears at most one report of an act, and the act fails at it. -/

section Strict

variable {s : Setting} {α β : Type}

def FailsAtReport (s : Setting) (x : Eval α) : Prop :=
  ∀ w, (x.run w).2.references = w.references ∨
    ∃ r, (x.run w).2.references = w.references ++ [r] ∧
      fault? (x.run w).1 = some (s.undefinedFault r)

namespace FailsAtReport

theorem of_follows {x : Eval α} (follows : Step.Follows SameReferences x) : FailsAtReport s x :=
  fun w => .inl (follows w)

theorem pure (a : α) : FailsAtReport s (Pure.pure a : Eval α) := fun _ => .inl rfl

theorem getBind {f : World → Eval β} (hf : ∀ w, FailsAtReport s (f w)) :
    FailsAtReport s (MonadState.get >>= f) :=
  fun w => hf w w

end FailsAtReport

namespace Setting

theorem missing_failsAtReport (strict : s.strict) (name message : String) :
    FailsAtReport s (s.missing name message) := by
  intro w
  by_cases loud : w.quiet = 0
  · right
    simp [missing, report, Step.run_bind, loud, strict, fault?, undefinedFault]
  · left
    simp [missing, report, Step.run_bind, loud]

theorem access_failsAtReport (strict : s.strict) (v key : Value) :
    FailsAtReport s (s.access v key) := by
  unfold access
  split
  · exact .pure _
  · apply FailsAtReport.getBind
    intro w
    split
    · exact .pure _
    · exact missing_failsAtReport strict _ _

theorem variableOf_failsAtReport (strict : s.strict) (name : String) :
    FailsAtReport s (s.variableOf name) := by
  apply FailsAtReport.getBind
  intro w
  split
  · exact .pure _
  · apply FailsAtReport.getBind
    intro u
    split
    · exact .pure _
    · exact missing_failsAtReport strict _ _

end Setting

theorem Head.Acts.failsAtReport {f : Head} {x : Eval β} (acts : f.Acts s x) (strict : s.strict) :
    FailsAtReport s x := by
  cases acts with
  | looksUp => exact s.variableOf_failsAtReport strict _
  | takesPart | takesItem => exact s.access_failsAtReport strict _ _
  | callsLocal | callsValue => exact .of_follows (s.callValue_follows SameReferences.calls _ _)
  | callsFunction => exact .of_follows (s.callFunction_follows SameReferences.calls _ _)
  | filters => exact .of_follows (s.callFilter_follows SameReferences.calls _ _ _)
  | tests => exact .of_follows (s.callTest_follows SameReferences.calls _ _ _)

end Strict

/-- Whether a routine asks for the operands of a head turn by turn, from some turn on, acts in
silence before and between the questions, and ends with an act of the head, if it can be heard.
Between the questions it makes no difference what is suppressed, and of the variables of loops only
what their names stand for does. -/
inductive Orderly (s : Setting) (f : Head) : Nat → Routine Value → Prop
  | done {k : Nat} {v : Value} : k = f.turns ∨ f.endsWith v → Orderly s f k (.done v)
  | silent {k : Nat} {β : Type} {x : Eval β} {next : β → Routine Value} :
      Silent x → Blind x → (∀ b, Orderly s f k (next b)) → Orderly s f k (.act x next)
  | look {k : Nat} {next : World → Routine Value} :
      (∀ (w : World) quiet references locals,
        (∀ name, locals.lookup name = w.locals.lookup name) →
          next { w with quiet, references, locals } = next w) →
      (∀ w, Orderly s f k (next w)) → Orderly s f k (.act get next)
  | own {k : Nat} {β : Type} {x : Eval β} (value : β → Value) :
      f.Acts s x → k = f.turns → Orderly s f k (.act x fun b => .done (value b))
  | ask {k : Nat} {quiet : Bool} {i : Nat} {next : Value → Routine Value} :
      f.turn i = k → quiet = f.quiets i → k < f.turns → (∀ v, Orderly s f (k + 1) (next v)) →
      Orderly s f k (.ask quiet i next)

namespace Orderly

open Routine

variable {s : Setting} {f : Head}

theorem values {i n : Nat} (plain : ∀ j, f.turn j = j) (loud : ∀ j, i ≤ j → f.quiets j = false)
    (within : i + n ≤ f.turns) {g : List Value → Routine Value}
    (hg : ∀ vs, Orderly s f (i + n) (g vs)) :
    Orderly s f i (Routine.values i n >>= g) := by
  induction n generalizing i g with
  | zero => exact hg []
  | succ n ih =>
      simp only [Routine.values, bind_assoc, pure_bind]
      refine .ask (plain i) (loud i i.le_refl).symm (by omega) fun v =>
        ih (fun j later => loud j (by omega)) (by omega) fun vs => ?_
      have ends := hg (v :: vs)
      rwa [show i + (n + 1) = i + 1 + n by omega] at ends

theorem entries {i n : Nat} (plain : ∀ j, f.turn j = j) (loud : ∀ j, i ≤ j → f.quiets j = false)
    (within : i + 2 * n ≤ f.turns)
    {g : List (Value × Value) → Routine Value} (hg : ∀ vs, Orderly s f (i + 2 * n) (g vs)) :
    Orderly s f i (Routine.entries i n >>= g) := by
  induction n generalizing i g with
  | zero => exact hg []
  | succ n ih =>
      simp only [Routine.entries, bind_assoc, pure_bind]
      refine .ask (plain i) (loud i i.le_refl).symm (by omega) fun k =>
        .ask (plain (i + 1)) (loud _ i.le_succ).symm (by omega) fun v =>
          ih (fun j later => loud j (by omega)) (by omega) fun vs => ?_
      have ends := hg ((k, v) :: vs)
      rwa [show i + 2 * (n + 1) = i + 2 + 2 * n by omega] at ends

theorem arguments {i args : Nat} {keywords : List String} (plain : ∀ j, f.turn j = j)
    (loud : ∀ j, i ≤ j → f.quiets j = false) (all : i + args + keywords.length = f.turns)
    {x : Arguments → Eval Value} (acts : ∀ a, f.Acts s (x a)) :
    Orderly s f i (Routine.arguments i args keywords >>= fun a => perform (x a)) := by
  simp only [Routine.arguments, bind_assoc, pure_bind]
  refine values plain loud (by omega) fun positional =>
    values plain (fun j later => loud j (by omega)) (by omega) fun named => ?_
  exact .own id (acts _) all

theorem links {ops : List CompareOp} {i : Nat} (plain : ∀ j, i ≤ j → (Head.compare ops).turn j = j)
    {rest : List CompareOp} (all : i + rest.length = (Head.compare ops).turns) (left : Value)
    (holds : Bool) : Orderly s (.compare ops) i (Routine.links left holds i rest) := by
  induction rest generalizing i left holds with
  | nil => exact .done (.inl (by simpa using all))
  | cons op rest ih =>
      rw [Routine.links]
      rw [List.length_cons] at all
      split
      · refine .ask (plain i (Nat.le_refl i)) rfl (by omega) fun right => ?_
        refine .silent (op.apply_silent left right) (op.apply_blind left right) fun holds => ?_
        exact ih (fun j later => plain j (by omega)) (by omega) right holds
      · exact .done (.inr rfl)

theorem logic {op : LogicOp} {size i n : Nat} (all : i + n = size) :
    Orderly s (.logic op size) i (Routine.logic op i n) := by
  induction n generalizing i with
  | zero => exact .done (.inl all)
  | succ n ih =>
      cases n with
      | zero => exact .ask rfl rfl (by simp only [Head.turns]; omega) fun v => .done (.inl all)
      | succ n =>
          refine .ask rfl rfl (by simp only [Head.turns]; omega) fun v => ?_
          change Orderly s _ _
            (if op.stopsAt v then Routine.done v else Routine.logic op (i + 1) (n + 1))
          split
          · next stops => exact .done (.inr stops)
          · exact ih (by omega)

end Orderly

theorem Head.routine_orderly (s : Setting) (f : Head) : Orderly s f 0 (f.routine s) := by
  cases f with
  | const value => exact .done (.inl rfl)
  | name n => exact .own id .looksUp rfl
  | list n =>
      refine .values (fun _ => rfl) (fun _ _ => rfl) (by simp [turns]) fun vs => ?_
      exact .done (.inl (by simp [turns]))
  | dict n =>
      refine .entries (fun _ => rfl) (fun _ _ => rfl) (by simp [turns]) fun vs => ?_
      exact .silent (.ofExcept _) (.ofExcept _) fun v => .done (.inl (by simp [turns]))
  | attr n => exact .ask rfl rfl (by simp [turns]) fun v => .own id .takesPart rfl
  | item =>
      exact .ask rfl rfl (by simp [turns]) fun v =>
        .ask rfl rfl (by simp [turns]) fun key => .own id .takesItem rfl
  | callName n args keywords =>
      refine .look (fun w quiet references locals same => ?_) fun w => ?_
      · simp only [Routine.andThen, same]
      · simp only [Routine.andThen]
        split
        · exact .arguments (fun _ => rfl) (fun _ _ => rfl) (by simp [turns]) fun a => .callsLocal
        · exact .arguments (fun _ => rfl) (fun _ _ => rfl) (by simp [turns]) fun a =>
            .callsFunction
  | call args keywords =>
      refine .ask rfl rfl (by simp only [turns]; omega) fun v => ?_
      exact .arguments (fun _ => rfl) (fun _ _ => rfl) (by simp [turns]) fun a => .callsValue
  | filter n args keywords =>
      refine .ask rfl rfl (by simp only [turns]; omega) fun v => ?_
      exact .arguments (fun _ => rfl) (fun _ => quiets_eq_false _) (by simp [turns]) fun a =>
        .filters
  | test n args negated =>
      refine .ask rfl rfl (by simp only [turns]; omega) fun v => ?_
      refine .values (fun _ => rfl) (fun _ => quiets_eq_false _) (by simp [turns]) fun given => ?_
      exact .own _ .tests (by simp [turns])
  | arith op =>
      refine .ask rfl rfl (by simp [turns]) fun a => .ask rfl rfl (by simp [turns]) fun b => ?_
      exact .silent (.withLoopText _) (.withLoopText _) fun v => .done (.inl rfl)
  | sign op =>
      refine .ask rfl rfl (by simp [turns]) fun v => ?_
      exact .silent (.ofExcept _) (.ofExcept _) fun u => .done (.inl rfl)
  | compare ops =>
      cases ops with
      | nil => exact .ask rfl rfl (by simp [turns]) fun v => .done (.inl rfl)
      | cons op ops =>
          rw [routine]
          -- Only the turns of the first pair depend on its operator.
          have later : ∀ j, 2 ≤ j → (compare (op :: ops)).turn j = j := by
            intro j later
            unfold turn
            grind
          have all : 2 + ops.length = (compare (op :: ops)).turns := by simp [turns]; omega
          split
          · next searches =>
              refine .ask (by simp [turn, searches]) rfl (by omega) fun b =>
                .ask (by simp [turn, searches]) rfl (by omega) fun a => ?_
              exact .silent (op.apply_silent a b) (op.apply_blind a b) fun holds =>
                .links later all b holds
          · next native =>
              refine .ask (by simp [turn, native]) rfl (by omega) fun a =>
                .ask (by simp [turn, native]) rfl (by omega) fun b => ?_
              exact .silent (op.apply_silent a b) (op.apply_blind a b) fun holds =>
                .links later all b holds
  | logic op n => exact .logic (by simp)
  | choice =>
      refine .ask rfl rfl (by simp [turns]) fun v => ?_
      simp only [Routine.andThen]
      split
      · exact .ask rfl rfl (by simp [turns]) fun u => .done (.inl rfl)
      · exact .ask rfl rfl (by simp [turns]) fun u => .done (.inl rfl)
  | range =>
      refine .ask rfl rfl (by simp [turns]) fun a => .ask rfl rfl (by simp [turns]) fun b => ?_
      exact .silent (.ofExcept _) (.ofExcept _) fun vs => .done (.inl rfl)
  | concat n =>
      refine .values (fun _ => rfl) (fun _ _ => rfl) (by simp [turns]) fun vs => ?_
      exact .silent (.withLoopText _) (.withLoopText _) fun v => .done (.inl (by simp [turns]))

namespace Orderly

variable {s : Setting} {f : Head} {k : Nat} {r : Routine Value}

theorem asked_turns (orderly : Orderly s f k r) (operands : List (Eval Value)) (w : World) :
    (r.asked operands w).map f.turn <+: List.range' k (f.turns - k) := by
  induction orderly generalizing w with
  | done _ => simp [Routine.asked]
  | silent _ _ _ ih =>
      unfold Routine.asked
      split
      · exact ih _ _
      · simp
  | look _ _ ih => exact ih w w
  | own _ _ _ =>
      unfold Routine.asked
      split
      · simp [Routine.asked]
      · simp
  | @ask k quiet i next same _ more _ ih =>
      have turns : f.turns - k = f.turns - (k + 1) + 1 := by omega
      rw [Routine.asked, List.map_cons, same, turns, List.range'_succ, List.cons_prefix_cons]
      refine ⟨rfl, ?_⟩
      split
      · exact ih _ _
      · simp

theorem asked_all (orderly : Orderly s f k r) {operands : List (Eval Value)} {w u : World}
    {v : Value} (run : (r.eval operands).run w = (.ok v, u)) :
    (r.asked operands w).map f.turn = List.range' k (f.turns - k) ∨ f.endsWith v := by
  induction orderly generalizing w with
  | done ends =>
      cases run
      exact ends.imp_left fun whole => by simp [Routine.asked, whole]
  | silent _ _ _ ih =>
      obtain ⟨b, m, first, rest⟩ := Step.run_bind_ok run
      simp only [Routine.asked, first]
      exact ih b rest
  | look _ _ ih => exact ih w run
  | own _ _ whole =>
      obtain ⟨b, m, first, rest⟩ := Step.run_bind_ok run
      simp [Routine.asked, first, whole]
  | @ask k quiet i next same _ more _ ih =>
      obtain ⟨b, m, first, rest⟩ := Step.run_bind_ok run
      have turns : f.turns - k = f.turns - (k + 1) + 1 := by omega
      simp only [Routine.asked, first, List.map_cons, same, turns, List.range'_succ]
      exact (ih b rest).imp_left fun all => by rw [all]

end Orderly

/-! The turns of an expression. -/

theorem Expr.evaluated_turns (s : Setting) (e : Expr) (w : World) :
    (e.evaluated s w).map e.head.turn <+: List.range e.head.turns := by
  rw [List.range_eq_range']
  exact (e.head.routine_orderly s).asked_turns _ w

theorem Expr.evaluated_all {s : Setting} {e : Expr} {w u : World} {v : Value}
    (run : (evaluate s e).run w = (.ok v, u)) :
    (e.evaluated s w).map e.head.turn = List.range e.head.turns ∨ e.head.endsWith v := by
  rw [evaluate_eq_eval] at run
  rw [List.range_eq_range']
  exact (e.head.routine_orderly s).asked_all run

end Stencil
