import Stencil.Proofs.Render.Clean
import Stencil.Render.Evaluate

namespace Stencil

open Value (Clean CleanEntries CleanNamed)
open Eval

theorem Literal.value_clean (l : Literal) : l.value.Clean := by
  cases l with
  | null => exact .null
  | bool b => exact .bool b
  | nat n => exact .int n
  | decimal digits places => exact .float _
  | string s => exact .str s

theorem buildDict_clean {entries : List (Value × Value)} (all : CleanEntries entries) :
    Except.Gives Value.Clean (buildDict entries) := by
  have built : ∀ (rest sofar : List (Value × Value)), CleanEntries rest → CleanEntries sofar →
      CleanEntries (rest.foldl (fun acc e => Value.setEntry e.1 e.2 acc) sofar) := by
    intro rest
    induction rest with
    | nil => exact fun sofar _ clean => clean
    | cons e rest ih =>
        intro sofar further clean
        obtain ⟨here, further⟩ := List.forall_mem_cons.mp further
        exact ih _ further (clean.setEntry here.1 here.2)
  unfold buildDict
  split
  · exact Except.gives_error
  · exact Except.gives_ok.mpr (Clean.dict_iff.mpr (built entries [] all (by simp [CleanEntries])))

theorem ArithOp.apply_clean (op : ArithOp) (loopText : Nat → List Char) {a b : Value}
    (ha : a.Clean) (hb : b.Clean) : Except.Gives Value.Clean (op.apply loopText a b) := by
  cases op with
  | add => exact Value.add_clean ha hb
  | sub => exact Value.subtract_clean a b
  | mul => exact Value.multiply_clean ha hb
  | div => exact Value.divide_clean a b
  | mod => exact Value.modulo_clean loopText ha b

theorem SignOp.apply_clean (op : SignOp) (v : Value) :
    Except.Gives Value.Clean (op.apply v) := by
  cases op with
  | not => exact Except.gives_ok.mpr (.bool _)
  | neg => exact Value.negate_clean v
  | pos => exact Value.affirm_clean v

theorem CompareOp.apply_keeps (op : CompareOp) (a b : Value) :
    Keeps (fun _ => True) (op.apply a b) := by
  cases op with
  | eq | ne => exact .pure trivial
  | lt | gt | le | ge => exact keeps_ofExcept (Except.gives_true _)
  | isIn => exact Value.holds_keeps b a
  | notIn => exact (Value.holds_keeps b a).bind fun _ _ => .pure trivial
  | startsWith | endsWith => exact keeps_withLoopText fun _ => Except.gives_true _

theorem keeps_bindQuietly {α β : Type} {P : α → Prop} {Q : β → Prop} {x : Eval α}
    {f : α → Eval β} (quiet : Bool) (keeps : Keeps P x) (hf : ∀ a, P a → Keeps Q (f a)) :
    Keeps Q (if quiet then quietly x >>= f else x >>= f) := by
  cases quiet with
  | false => exact keeps.bind hf
  | true => exact (keeps_quietly keeps).bind hf

theorem keeps_called {positional : Eval (List Value)} {named : Eval (List (String × Value))}
    {call : Arguments → Eval Value} (hpositional : KeepsAll positional)
    (hnamed : Keeps CleanNamed named)
    (hcall : ∀ a : Arguments, a.Clean → Keeps Value.Clean (call a)) :
    Keeps Value.Clean (positional >>= fun p => named >>= fun n => call ⟨p, n⟩) := by
  apply hpositional.bind
  intro p hp
  apply hnamed.bind
  intro n hn
  exact hcall ⟨p, n⟩ ⟨hp, hn⟩

section Evaluate

variable {s : Setting}

mutual

theorem evaluate_keeps (tame : s.Tame) :
    (e : Expr) → Keeps Value.Clean (evaluate s e)
  | .const _ value => .pure value.value_clean
  | .name _ name => s.variableOf_keeps name
  | .list _ items => by
      apply (evaluateAll_keeps tame items).bind
      intro values all
      exact .pure (.list all)
  | .dict _ entries => by
      apply (evaluateEntries_keeps tame entries).bind
      intro values all
      exact keeps_ofExcept (buildDict_clean all)
  | .attr _ object name => by
      apply (evaluate_keeps tame object).bind
      intro v hv
      exact s.access_keeps tame hv (.str name)
  | .item _ object key => by
      apply (evaluate_keeps tame object).bind
      intro v hv
      apply (evaluate_keeps tame key).bind
      intro k _
      exact s.access_keeps tame hv k
  | .call _ callee args named => by
      have hargs := evaluateAll_keeps tame args
      have hnamed := evaluateNamed_keeps tame named
      have called : Keeps Value.Clean (evaluate s callee >>= fun f => evaluateAll s args >>=
          fun p => evaluateNamed s named >>= fun n => s.callValue f ⟨p, n⟩) := by
        apply (evaluate_keeps tame callee).bind
        intro f hf
        exact keeps_called hargs hnamed fun a clean => s.callValue_keeps tame hf clean
      cases callee with
      | name _ name =>
          apply Step.Ensures.get.bind
          intro w clean
          split
          · next f found =>
              apply keeps_called hargs hnamed
              intro a ha
              exact s.callValue_keeps tame (clean.locals.lookup found) ha
          · apply keeps_called hargs hnamed
            intro a ha
            exact s.callFunction_keeps tame name ha
      | _ => exact called
  | .filter _ value name args named => by
      apply keeps_bindQuietly _ (evaluate_keeps tame value)
      intro v hv
      apply keeps_called (evaluateAll_keeps tame args) (evaluateNamed_keeps tame named)
      intro a clean
      exact s.callFilter_keeps tame name hv clean
  | .test _ value name args negated => by
      apply keeps_bindQuietly _ (evaluate_keeps tame value)
      intro v hv
      apply (evaluateAll_keeps tame args).bind
      intro given all
      apply (s.callTest_keeps tame name hv all).bind
      intro passes _
      exact .pure (.bool _)
  | .arith _ op left right => by
      apply (evaluate_keeps tame left).bind
      intro a ha
      apply (evaluate_keeps tame right).bind
      intro b hb
      exact keeps_withLoopText fun loopText => op.apply_clean loopText ha hb
  | .sign _ op operand => by
      apply (evaluate_keeps tame operand).bind
      intro v _
      exact keeps_ofExcept (op.apply_clean v)
  | .compare _ first [] => evaluate_keeps tame first
  | .compare _ first ((op, e) :: rest) => by
      have hfirst := evaluate_keeps tame first
      have hsecond := evaluate_keeps tame e
      have linked : ∀ a b : Value, Keeps Value.Clean
          (op.apply a b >>= fun holds => evaluateLinks s b holds rest) := by
        intro a b
        apply (op.apply_keeps a b).bind
        intro holds _
        exact evaluateLinks_keeps tame b holds rest
      rw [evaluate]
      split
      · exact hsecond.bind fun b _ => hfirst.bind fun a _ => linked a b
      · exact hfirst.bind fun a _ => hsecond.bind fun b _ => linked a b
  | .logic _ op parts => evaluateLogic_keeps tame op parts
  | .choice _ condition ifTrue ifFalse => by
      apply (evaluate_keeps tame condition).bind
      intro v _
      split
      · exact evaluate_keeps tame ifTrue
      · exact evaluate_keeps tame ifFalse
  | .range _ first last => by
      apply (evaluate_keeps tame first).bind
      intro a ha
      apply (evaluate_keeps tame last).bind
      intro b _
      apply (keeps_ofExcept (Range.inclusive_clean b ha (.int 1))).bind
      intro values all
      exact .pure (.list all)
  | .concat _ parts => by
      apply (evaluateAll_keeps tame parts).bind
      intro values _
      exact keeps_withLoopText fun _ => Except.gives_ok.mpr (.str _)

theorem evaluateAll_keeps (tame : s.Tame) :
    (es : List Expr) → KeepsAll (evaluateAll s es)
  | [] => .pure (by simp)
  | e :: rest => by
      apply (evaluate_keeps tame e).bind
      intro v hv
      apply (evaluateAll_keeps tame rest).bind
      intro values all
      exact .pure (List.forall_mem_cons.mpr ⟨hv, all⟩)

theorem evaluateNamed_keeps (tame : s.Tame) :
    (named : List (String × Expr)) → Keeps CleanNamed (evaluateNamed s named)
  | [] => .pure (by simp [CleanNamed])
  | (name, e) :: rest => by
      apply (evaluate_keeps tame e).bind
      intro v hv
      apply (evaluateNamed_keeps tame rest).bind
      intro values all
      exact .pure (List.forall_mem_cons.mpr ⟨hv, all⟩)

theorem evaluateEntries_keeps (tame : s.Tame) :
    (entries : List (Expr × Expr)) → Keeps CleanEntries (evaluateEntries s entries)
  | [] => .pure (by simp [CleanEntries])
  | (key, e) :: rest => by
      apply (evaluate_keeps tame key).bind
      intro k hk
      apply (evaluate_keeps tame e).bind
      intro v hv
      apply (evaluateEntries_keeps tame rest).bind
      intro entries all
      exact .pure (List.forall_mem_cons.mpr ⟨⟨hk, hv⟩, all⟩)

theorem evaluateLinks_keeps (tame : s.Tame) (left : Value) (holds : Bool) :
    (links : List (CompareOp × Expr)) → Keeps Value.Clean (evaluateLinks s left holds links)
  | [] => .pure (.bool holds)
  | (op, e) :: rest => by
      rw [evaluateLinks]
      split
      · apply (evaluate_keeps tame e).bind
        intro right _
        apply (op.apply_keeps left right).bind
        intro holds _
        exact evaluateLinks_keeps tame right holds rest
      · exact .pure (.bool false)

theorem evaluateLogic_keeps (tame : s.Tame) (op : LogicOp) :
    (parts : List Expr) → Keeps Value.Clean (evaluateLogic s op parts)
  | [] => .pure .null
  | [e] => evaluate_keeps tame e
  | e :: next :: rest => by
      apply (evaluate_keeps tame e).bind
      intro v hv
      split
      · exact .pure hv
      · exact evaluateLogic_keeps tame op (next :: rest)

end

end Evaluate

end Stencil
