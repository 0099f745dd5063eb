import Mathlib.Data.List.Nodup
import Stencil.Proofs.Render.Turns

/-!
Comparison chains. A chain evaluates the operands of its first pair, and each further operand once
as long as all pairs before it hold; the value of an operand stands in both of its pairs. The same
comes out if the chain is written as a conjunction of pairs that keeps the operands in the middle
in temporaries.
-/

namespace Stencil

open Eval Routine

/-- The values of both operands of a pair; a search evaluates the container before the item. -/
def firstPair (s : Setting) (op : CompareOp) (left right : Expr) : Eval (Value × Value) :=
  if op.isMembership then do
    let b ← evaluate s right
    return (← evaluate s left, b)
  else do
    let a ← evaluate s left
    return (a, ← evaluate s right)

/-- How a chain goes on behind an operand: whether the pairs that are looked at hold. A further
operand is evaluated and compared if the pair before it holds. -/
inductive Compares (s : Setting) :
    Value → Bool → List (CompareOp × Expr) → World → List Bool → World → Prop
  | finished {left : Value} {w : World} : Compares s left true [] w [] w
  | stops {left : Value} {links : List (CompareOp × Expr)} {w : World} :
      Compares s left false links w [] w
  | goesOn {left right : Value} {op : CompareOp} {e : Expr} {rest : List (CompareOp × Expr)}
      {w m n u : World} {holds : Bool} {outcomes : List Bool} :
      (evaluate s e).run w = (.ok right, m) → (op.apply left right).run m = (.ok holds, n) →
      Compares s right holds rest n outcomes u →
      Compares s left true ((op, e) :: rest) w (holds :: outcomes) u

/-- How a chain goes: its first pair, and what follows. -/
inductive Chained (s : Setting) (first : Expr) (op : CompareOp) (second : Expr)
    (rest : List (CompareOp × Expr)) (w : World) : List Bool → World → Prop
  | intro {a b : Value} {m n u : World} {holds : Bool} {outcomes : List Bool} :
      (firstPair s op first second).run w = (.ok (a, b), m) →
      (op.apply a b).run m = (.ok holds, n) → Compares s b holds rest n outcomes u →
      Chained s first op second rest w (holds :: outcomes) u

section Chains

variable {s : Setting}

/-! The value of a chain is that of the last pair that is looked at. -/

namespace Compares

variable {left : Value} {holds : Bool} {links : List (CompareOp × Expr)} {w u : World}
  {outcomes : List Bool}

theorem run (compares : Compares s left holds links w outcomes u) :
    (evaluateLinks s left holds links).run w = (.ok (.bool (outcomes.getLastD holds)), u) := by
  induction compares with
  | finished => rfl
  | @stops left links w =>
      cases links with
      | nil => rfl
      | cons link rest => rfl
  | goesOn evaluated compared _ ih =>
      rw [evaluateLinks, if_pos rfl, Step.run_bind, evaluated]
      dsimp only
      rw [Step.run_bind, compared]
      dsimp only
      rw [ih, List.getLastD_cons]

theorem of_run {v : Value} (run : (evaluateLinks s left holds links).run w = (.ok v, u)) :
    ∃ outcomes, Compares s left holds links w outcomes u := by
  induction links generalizing left holds w with
  | nil =>
      cases holds with
      | false => cases run; exact ⟨[], .stops⟩
      | true => cases run; exact ⟨[], .finished⟩
  | cons link rest ih =>
      obtain ⟨op, e⟩ := link
      cases holds with
      | false => cases run; exact ⟨[], .stops⟩
      | true =>
          rw [evaluateLinks, if_pos rfl] at run
          obtain ⟨right, m, evaluated, run⟩ := Step.run_bind_ok run
          obtain ⟨holds, n, compared, run⟩ := Step.run_bind_ok run
          obtain ⟨outcomes, further⟩ := ih run
          exact ⟨holds :: outcomes, .goesOn evaluated compared further⟩

theorem holds_dropLast (compares : Compares s left holds links w outcomes u) :
    ∀ b ∈ (holds :: outcomes).dropLast, b = true := by
  induction compares with
  | finished => simp
  | stops => simp
  | goesOn _ _ _ ih => simpa using ih

theorem complete (compares : Compares s left holds links w outcomes u) :
    outcomes.length = links.length ∨ outcomes.getLastD holds = false := by
  induction compares with
  | finished => exact .inl rfl
  | stops => exact .inr rfl
  | goesOn _ _ _ ih =>
      rw [List.length_cons, List.length_cons, Nat.add_right_cancel_iff, List.getLastD_cons]
      exact ih

/-- The operands behind the first pair are evaluated in order, one for each pair. -/
theorem asked (compares : Compares s left holds links w outcomes u) (sofar : List (Eval Value)) :
    (Routine.links left holds sofar.length (links.map Prod.fst)).asked
        (sofar ++ (links.map Prod.snd).map (evaluate s)) w =
      List.range' sofar.length outcomes.length := by
  induction compares generalizing sofar with
  | finished => rfl
  | @stops left links w =>
      cases links with
      | nil => rfl
      | cons link rest => rfl
  | @goesOn left right op e rest w m n u holds outcomes evaluated compared _ ih =>
      have further := ih (sofar ++ [evaluate s e])
      simp only [List.length_append, List.length_singleton, List.append_assoc,
        List.singleton_append] at further
      have operand : (answer (sofar ++ evaluate s e :: (rest.map Prod.snd).map (evaluate s)) false
          sofar.length).run w = (.ok right, m) := by rw [answer_append, evaluated]
      rw [List.map_cons, List.map_cons, List.map_cons, Routine.links, if_pos rfl,
        asked_operand _ _ operand, asked_perform _ compared, further, List.length_cons,
        List.range'_succ]

end Compares

namespace Chained

variable {first second : Expr} {op : CompareOp} {rest : List (CompareOp × Expr)} {w u : World}
  {outcomes : List Bool}

theorem run_pair (p : Pos) (first : Expr) (op : CompareOp) (second : Expr)
    (rest : List (CompareOp × Expr)) :
    evaluate s (.compare p first ((op, second) :: rest)) = (do
      let (a, b) ← firstPair s op first second
      evaluateLinks s b (← op.apply a b) rest) := by
  rw [evaluate, firstPair]
  split <;> simp only [bind_assoc, pure_bind]

theorem run (chained : Chained s first op second rest w outcomes u) (p : Pos) :
    (evaluate s (.compare p first ((op, second) :: rest))).run w =
      (.ok (.bool (outcomes.getLastD true)), u) := by
  obtain ⟨evaluated, compared, further⟩ := chained
  rw [run_pair, Step.run_bind, evaluated]
  dsimp only
  rw [Step.run_bind, compared]
  dsimp only
  rw [further.run, List.getLastD_cons]

theorem of_run {p : Pos} {v : Value}
    (run : (evaluate s (.compare p first ((op, second) :: rest))).run w = (.ok v, u)) :
    ∃ outcomes, Chained s first op second rest w outcomes u := by
  rw [run_pair] at run
  obtain ⟨⟨a, b⟩, m, evaluated, run⟩ := Step.run_bind_ok run
  obtain ⟨holds, n, compared, run⟩ := Step.run_bind_ok run
  obtain ⟨outcomes, further⟩ := Compares.of_run run
  exact ⟨_, .intro evaluated compared further⟩

/-- The operands of the first pair are evaluated in the order of the operator, the others in
order. -/
theorem evaluated_eq (chained : Chained s first op second rest w outcomes u) (p : Pos) :
    (Expr.compare p first ((op, second) :: rest)).evaluated s w =
      (if op.isMembership then [1, 0] else [0, 1]) ++ List.range' 2 (outcomes.length - 1) := by
  obtain @⟨a, b, m, n, _, holds, outcomes, pair, compared, further⟩ := chained
  have later := further.asked [evaluate s first, evaluate s second]
  simp only [List.length_cons, List.length_nil, List.cons_append, List.nil_append] at later
  rw [Expr.evaluated, Expr.head, Expr.operands, List.map_cons, List.map_cons, List.map_cons,
    List.map_cons, Head.routine]
  cases searches : op.isMembership with
  | true =>
      rw [firstPair, searches, if_pos rfl] at pair
      obtain ⟨_, _, container, pair⟩ := Step.run_bind_ok pair
      obtain ⟨_, _, item, pair⟩ := Step.run_bind_ok pair
      cases pair
      rw [if_pos rfl, asked_operand (_ :: _ :: _) 1 container,
        asked_operand (_ :: _ :: _) 0 item, asked_perform _ compared]
      exact congrArg (1 :: 0 :: ·) later
  | false =>
      rw [firstPair, searches, if_neg Bool.false_ne_true] at pair
      obtain ⟨_, _, left, pair⟩ := Step.run_bind_ok pair
      obtain ⟨_, _, right, pair⟩ := Step.run_bind_ok pair
      cases pair
      rw [if_neg Bool.false_ne_true, asked_operand (_ :: _ :: _) 0 left,
        asked_operand (_ :: _ :: _) 1 right, asked_perform _ compared]
      exact congrArg (0 :: 1 :: ·) later

theorem evaluated_perm (chained : Chained s first op second rest w outcomes u) (p : Pos) :
    ((Expr.compare p first ((op, second) :: rest)).evaluated s w).Perm
      (List.range (outcomes.length + 1)) := by
  have order := chained.evaluated_eq p
  obtain @⟨a, b, m, n, _, holds, outcomes, _, _, _⟩ := chained
  have numbers : List.range (outcomes.length + 2) = 0 :: 1 :: List.range' 2 outcomes.length := by
    rw [List.range_eq_range', List.range'_succ, List.range'_succ]
  rw [order, List.length_cons, numbers, Nat.add_sub_cancel]
  split
  · exact .swap 0 1 _
  · exact .refl _

end Chained

end Chains

/-! A chain as a conjunction of pairs. -/

/-- The values that were kept, by the numbers of their temporaries, the latest first. -/
abbrev Temporaries := List (Nat × Value)

/-- An operand of a pair: an expression, one whose value is kept, or the value that was kept. -/
inductive PairOperand
  | fresh (e : Expr)
  | kept (temporary : Nat) (e : Expr)
  | recalled (temporary : Nat)

structure Pair where
  op : CompareOp
  left : PairOperand
  right : PairOperand

/-- The pairs of a chain from an operand on. The right operand of each pair but the last one is
kept, and is the left operand of the pair that follows. -/
def pairsOf (left : PairOperand) (temporary : Nat) : List (CompareOp × Expr) → List Pair
  | [] => []
  | [(op, e)] => [⟨op, left, .fresh e⟩]
  | (op, e) :: rest =>
      ⟨op, left, .kept temporary e⟩ :: pairsOf (.recalled temporary) (temporary + 1) rest

section Conjunction

variable (s : Setting)

def PairOperand.value : PairOperand → Temporaries → Eval (Value × Temporaries)
  | fresh e, temps => do return (← evaluate s e, temps)
  | kept n e, temps => do
      let v ← evaluate s e
      return (v, (n, v) :: temps)
  | recalled n, temps => return ((temps.lookup n).getD .null, temps)

def Pair.holds (p : Pair) (temps : Temporaries) : Eval (Bool × Temporaries) :=
  if p.op.isMembership then do
    let (b, temps) ← p.right.value s temps
    let (a, temps) ← p.left.value s temps
    return (← p.op.apply a b, temps)
  else do
    let (a, temps) ← p.left.value s temps
    let (b, temps) ← p.right.value s temps
    return (← p.op.apply a b, temps)

def allHold : List Pair → Temporaries → Eval Bool
  | [], _ => return true
  | p :: rest, temps => do
      let (holds, temps) ← p.holds s temps
      if holds then allHold rest temps else return false

def evaluateConjoined (first : Expr) (links : List (CompareOp × Expr)) (n : Nat)
    (temps : Temporaries) : Eval Value := do
  return .bool (← allHold s (pairsOf (.fresh first) n links) temps)

variable {s}

theorem Pair.holds_fresh (op : CompareOp) (first second : Expr) (temps : Temporaries) :
    (⟨op, .fresh first, .fresh second⟩ : Pair).holds s temps = (do
      let (a, b) ← firstPair s op first second
      return (← op.apply a b, temps)) := by
  rw [Pair.holds, firstPair]
  split <;> simp only [PairOperand.value, bind_assoc, pure_bind]

theorem Pair.holds_kept (op : CompareOp) (first second : Expr) (n : Nat) (temps : Temporaries) :
    (⟨op, .fresh first, .kept n second⟩ : Pair).holds s temps = (do
      let (a, b) ← firstPair s op first second
      return (← op.apply a b, (n, b) :: temps)) := by
  rw [Pair.holds, firstPair]
  split <;> simp only [PairOperand.value, bind_assoc, pure_bind]

theorem allHold_recalled (links : List (CompareOp × Expr)) {n : Nat} {temps : Temporaries}
    {left : Value} (found : temps.lookup n = some left) :
    (do return .bool (← allHold s (pairsOf (.recalled n) (n + 1) links) temps)) =
      evaluateLinks s left true links := by
  induction links generalizing n temps left with
  | nil => rfl
  | cons link rest ih =>
      obtain ⟨op, e⟩ := link
      cases rest with
      | nil =>
          simp only [pairsOf, allHold, Pair.holds, PairOperand.value, found, Option.getD_some,
            ite_self, bind_assoc, pure_bind, evaluateLinks, if_true]
          refine bind_congr fun right => bind_congr fun holds => ?_
          cases holds <;> rfl
      | cons next more =>
          -- A search keeps its right operand first, and the left one is still found behind it.
          have before : ∀ v : Value, ((n + 1, v) :: temps).lookup n = some left := by
            intro v
            rw [List.lookup_cons, beq_false_of_ne (Nat.ne_of_lt n.lt_succ_self), found]
          simp only [pairsOf, allHold, Pair.holds, PairOperand.value, found, before,
            Option.getD_some, ite_self, bind_assoc, pure_bind]
          rw [evaluateLinks, if_pos rfl]
          refine bind_congr fun right => bind_congr fun holds => ?_
          cases holds with
          | false =>
              rw [evaluateLinks]
              rfl
          | true => exact ih List.lookup_cons_self

theorem evaluate_conjunction (p : Pos) (first : Expr) (link : CompareOp × Expr)
    (rest : List (CompareOp × Expr)) (n : Nat) (temps : Temporaries) :
    evaluate s (.compare p first (link :: rest)) =
      evaluateConjoined s first (link :: rest) n temps := by
  obtain ⟨op, second⟩ := link
  rw [Chained.run_pair, evaluateConjoined]
  cases rest with
  | nil =>
      simp only [pairsOf, allHold, Pair.holds_fresh, bind_assoc, pure_bind]
      refine bind_congr fun values => bind_congr fun holds => ?_
      cases holds <;> rfl
  | cons next more =>
      simp only [pairsOf, allHold, Pair.holds_kept, bind_assoc, pure_bind]
      refine bind_congr fun values => bind_congr fun holds => ?_
      cases holds with
      | false =>
          rw [evaluateLinks]
          rfl
      | true => exact (allHold_recalled (next :: more) List.lookup_cons_self).symm

end Conjunction

/-- A chain evaluates no operand twice. It has a value exactly when its pairs can be gone through:
the operands of the first pair and one more for each further pair that is looked at are evaluated
then, and no others; all pairs that are looked at hold but the last one, which gives the value; and
pairs are left out only behind one that does not hold. The conjunction of its pairs does the
same. -/
theorem chain_evaluates_once (s : Setting) (p : Pos) (first : Expr) (op : CompareOp) (second : Expr)
    (rest : List (CompareOp × Expr)) (w : World) :
    ((Expr.compare p first ((op, second) :: rest)).evaluated s w).Nodup ∧
    (∀ v u, (evaluate s (.compare p first ((op, second) :: rest))).run w = (.ok v, u) ↔
      ∃ outcomes, Chained s first op second rest w outcomes u ∧
        v = .bool (outcomes.getLastD true)) ∧
    (∀ outcomes u, Chained s first op second rest w outcomes u →
      0 < outcomes.length ∧
      ((Expr.compare p first ((op, second) :: rest)).evaluated s w).Perm
        (List.range (outcomes.length + 1)) ∧
      (∀ holds ∈ outcomes.dropLast, holds = true) ∧
      (outcomes.length = rest.length + 1 ∨ outcomes.getLastD true = false)) ∧
    ∀ n temps, evaluate s (.compare p first ((op, second) :: rest)) =
      evaluateConjoined s first ((op, second) :: rest) n temps := by
  refine ⟨?_, fun v u => ⟨fun run => ?_, ?_⟩, fun outcomes u chained => ?_,
    evaluate_conjunction p first (op, second) rest⟩
  · have turns := (Expr.compare p first ((op, second) :: rest)).evaluated_turns s w
    exact List.Nodup.of_map _ (List.nodup_range.sublist turns.sublist)
  · obtain ⟨outcomes, chained⟩ := Chained.of_run run
    refine ⟨outcomes, chained, ?_⟩
    cases run.symm.trans (chained.run p)
    rfl
  · rintro ⟨outcomes, chained, rfl⟩
    exact chained.run p
  · refine ⟨?_, chained.evaluated_perm p, ?_⟩
    · cases chained
      exact Nat.succ_pos _
    · obtain ⟨_, _, further⟩ := chained
      refine ⟨further.holds_dropLast, ?_⟩
      rw [List.length_cons, Nat.add_right_cancel_iff, List.getLastD_cons]
      exact further.complete

end Stencil
