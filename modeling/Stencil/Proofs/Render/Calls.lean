import Stencil.Environment.Render
import Stencil.Proofs.Grammar.RoundTrip
import Stencil.Proofs.Render.Operands
import Stencil.Proofs.Render.Walk
import Stencil.Host.Kit

/-!
Calls of what is registered. A function is called with the values of its arguments, a filter with
the value before it in front of them, and what the host answers is what the expression comes to. On
the way some keywords are caught: those that are parameters of the callers themselves.
-/

namespace Stencil

open Eval

variable {s : Setting}

/-! Places do not matter. -/

@[simp] theorem Expr.head_erase (e : Expr) : e.erase.head = e.head := by
  cases e with
  | call p callee args named => cases callee <;> simp [erase, head, Function.comp_def]
  | _ => simp [erase, head, Function.comp_def]

@[simp] theorem Expr.operands_erase (e : Expr) : e.erase.operands = e.operands.map erase := by
  cases e with
  | call p callee args named => cases callee <;> simp [erase, operands, Function.comp_def]
  | dict p entries =>
      simp [erase, operands, List.flatMap_map, List.map_flatMap]
  | _ => simp [erase, operands, Function.comp_def]

theorem evaluate_erased (e : Expr) : evaluate s e.erase = evaluate s e := by
  induction e using Expr.operandInduction with
  | step e ih =>
      rw [evaluate_eq_eval, evaluate_eq_eval, Expr.head_erase, Expr.operands_erase, List.map_map]
      have same : e.operands.map (evaluate s ∘ Expr.erase) = e.operands.map (evaluate s) :=
        List.map_congr_left ih
      rw [same]

theorem evaluate_of_erase {e value : Expr} (alike : value.erase = e.erase) :
    evaluate s value = evaluate s e := by
  rw [← evaluate_erased value, alike, evaluate_erased]

/-- The text of an output is read as an output of an expression that evaluates alike. -/
theorem template_evaluates {e : Expr} (wf : e.WellFormed) (name filename : Option String)
    (limit : Int) :
    ∃ p value, (Source.ofExpr e name filename).template limit =
        .ok ⟨[.output p value true], none⟩ ∧ ∀ s, evaluate s value = evaluate s e := by
  obtain ⟨stream, tokens, written⟩ := Source.tokens_ofExpr wf name filename
  obtain ⟨p, value, read, alike⟩ := Source.output_of_lexemes wf tokens written limit
  exact ⟨p, value, read, fun s => evaluate_of_erase alike⟩

/-! What a call comes to. -/

theorem evaluateAll_eq_mapM (es : List Expr) : evaluateAll s es = es.mapM (evaluate s) := by
  induction es with
  | nil => rfl
  | cons e rest ih => rw [evaluateAll, ih, List.mapM_cons]

/-- The values of arguments, in order, the named ones behind their names. -/
def given (s : Setting) (args : List Expr) (named : List (String × Expr)) : Eval Arguments := do
  let positional ← args.mapM (evaluate s)
  let values ← (named.map Prod.snd).mapM (evaluate s)
  return ⟨positional, (named.map Prod.fst).zip values⟩

def filtered (s : Setting) (n : String) (value : Expr) : Eval Value :=
  if quietFilters.contains n then quietly (evaluate s value) else evaluate s value

theorem arguments_given {args : List Expr} {named : List (String × Expr)}
    {call reached : Arguments → Eval Value}
    (reaches : ∀ positional values,
      call ⟨positional, (named.map Prod.fst).zip values⟩ =
        reached ⟨positional, (named.map Prod.fst).zip values⟩) :
    (do
      let positional ← evaluateAll s args
      call ⟨positional, ← evaluateNamed s named⟩) = given s args named >>= reached := by
  simp only [given, evaluateNamed_eq, evaluateAll_eq_mapM, bind_assoc, pure_bind, reaches]

namespace Setting

theorem refuseNames_free {caller : String} {taken names : List String}
    (free : ∀ n ∈ taken, n ∉ names) (values : List Value) :
    refuseNames caller taken (names.zip values) = pure () := by
  have unseen : (names.zip values).find? (fun e => taken.contains e.1) = none := by
    refine List.find?_eq_none.mpr fun (n, v) mem caught => ?_
    exact free n (List.contains_iff_mem.mp caught) (List.of_mem_zip mem).1
  rw [refuseNames, unseen]

theorem callNamed_registered {kind : NameKind} {table : Registry} {n : String} {c : Callable}
    (found : table.lookup n = some c) (a : Arguments) :
    s.callNamed kind table n a = s.callRegistered c a := by
  rw [callNamed, found]

theorem callHost_run (h : String) (a : Arguments) (w : World) :
    (s.callHost (.function h) a).run w = ((s.host.call w.heap (.function h) a).result,
      w.settle (s.host.call w.heap (.function h) a)) := rfl

end Setting

theorem call_reaches {n : String} {c : Callable} {named : List (String × Expr)} {w : World}
    (found : s.registries.functions.lookup n = some c) (unbound : w.locals.lookup n = none)
    (free : "func_name" ∉ named.map Prod.fst) (p q : Pos) (args : List Expr) :
    (evaluate s (.call p (.name q n) args named)).run w =
      (given s args named >>= s.callRegistered c).run w := by
  rw [evaluate, Step.run_bind, Step.run_get]
  simp only [unbound]
  rw [arguments_given fun positional values => ?_]
  rw [Setting.callFunction, Setting.refuseNames_free (by simpa using free), pure_bind,
    Setting.callNamed_registered found]

theorem filter_reaches {n : String} {c : Callable} {named : List (String × Expr)}
    (found : s.registries.filters.lookup n = some c) (free : "filter_name" ∉ named.map Prod.fst)
    (free' : "value" ∉ named.map Prod.fst) (p : Pos) (value : Expr) (args : List Expr) :
    evaluate s (.filter p value n args named) = (do
      let v ← filtered s n value
      let a ← given s args named
      s.callRegistered c { a with positional := v :: a.positional }) := by
  have reaches : ∀ v, (do
      let positional ← evaluateAll s args
      s.callFilter n v ⟨positional, ← evaluateNamed s named⟩) = (do
      let a ← given s args named
      s.callRegistered c { a with positional := v :: a.positional }) := by
    intro v
    refine arguments_given fun positional values => ?_
    have both : ∀ k ∈ ["filter_name", "value"], k ∉ named.map Prod.fst := by simp_all
    rw [Setting.callFilter, Setting.refuseNames_free both, pure_bind,
      Setting.callNamed_registered found]
  rw [evaluate, filtered]
  simp only [reaches]
  split <;> rfl

/-! What is written for an expression. -/

def World.startAt (line : Nat) (context : Context) (generators : Array (List Value)) : World :=
  { World.start context generators with line }

/-- What a page with one output comes to: the text of the value, or the fault told for its line. -/
def outcomeOf (s : Setting) (line : Nat) (escape : Bool) :
    Except Fault Value × World → Except Diagnostic (List Fragment)
  | (.ok v, u) =>
      let text := if escape then Html.escape u.loopText v else v.textOf u.loopText
      .ok [.value (String.ofList text)]
  | (.error fault, _) => .error (s.renderError line fault)

theorem renderCode_output (s : Setting) (e : Expr) (line : Nat) (escape : Bool)
    (context : Context) (generators : Array (List Value)) :
    (renderCode s [.mark line, .output e escape] context generators).outcome =
      outcomeOf s line escape ((evaluate s e).run (.startAt line context generators)) := by
  have marked : (executeAll s [.mark line, .output e escape]).run (.start context generators) =
      (executeAll s [.output e escape]).run (.startAt line context generators) := by
    rw [executeAll, execute, Step.run_bind, Step.run_bind, Step.run_modify]
    dsimp only
    rw [Step.run_pure]
    dsimp only
    rw [Step.run_bind, ← World.startAt]
    cases (executeAll s [.output e escape]).run (.startAt line context generators) with
    | mk result u => cases result <;> rfl
  rw [renderCode, marked, executeAll, execute]
  simp only [executeAll, Step.run_bind, Step.run_get, Step.run_pure]
  cases run : (evaluate s e).run (.startAt line context generators) with
  | mk result u =>
      have here : u.line = line := (evaluate_atLine run).line
      cases result with
      | error fault => simp only [outcomeOf, here]
      | ok v => rfl

/-- A call of a registered function reaches it with the values of the arguments, and a filter
reaches it with the value before it in front of these, unless a keyword is a parameter of the
caller; a function of the host answers both, and what it answers, a value or a fault, is what the
expression comes to; an output of the expression is written, or fails, accordingly. The text of an
expression is read as an expression that evaluates alike. -/
theorem registered_reaches (s : Setting) (n : String) (c : Callable) (p q : Pos) (args : List Expr)
    (named : List (String × Expr)) :
    (s.registries.functions.lookup n = some c → "func_name" ∉ named.map Prod.fst →
      ∀ w, w.locals.lookup n = none →
        (evaluate s (.call p (.name q n) args named)).run w =
          (given s args named >>= s.callRegistered c).run w) ∧
    (s.registries.filters.lookup n = some c → "filter_name" ∉ named.map Prod.fst →
      "value" ∉ named.map Prod.fst → ∀ value,
        evaluate s (.filter p value n args named) = (do
          let v ← filtered s n value
          let a ← given s args named
          s.callRegistered c { a with positional := v :: a.positional })) ∧
    (∀ h a w, (s.callRegistered (.value (.function h)) a).run w =
      ((s.host.call w.heap (.function h) a).result,
        w.settle (s.host.call w.heap (.function h) a))) ∧
    (∀ e line escape context generators,
      (renderCode s [.mark line, .output e escape] context generators).outcome =
        outcomeOf s line escape ((evaluate s e).run (.startAt line context generators))) ∧
    ∀ e : Expr, e.WellFormed → ∀ name filename limit, ∃ p value,
      (Source.ofExpr e name filename).template limit = .ok ⟨[.output p value true], none⟩ ∧
        evaluate s value = evaluate s e := by
  refine ⟨fun found free w unbound => call_reaches found unbound free p q args,
    fun found free free' value => filter_reaches found free free' p value args,
    s.callHost_run, renderCode_output s, fun e wf name filename limit => ?_⟩
  obtain ⟨p, value, read, same⟩ := template_evaluates wf name filename limit
  exact ⟨p, value, read, same s⟩

/-! A function of the host, and the keyword that does not reach it. -/

def withArguments : Setting where
  host := Kit.host
  registries :=
    { Registries.builtin with
      filters := [("args", .value (.function "args"))]
      functions := [("args", .value (.function "args"))] }

theorem registered_reaches_withArguments :
    ((evaluate withArguments (.call .start (.name .start "args") [.const .start (.nat 2)]
      [("x", .const .start (.nat 1))])).run (.start ⟨[], []⟩ #[])).1 = .ok (.str "2,x=1") ∧
    ((evaluate withArguments (.filter .start (.const .start (.nat 5)) "args"
      [.const .start (.nat 2)] [("x", .const .start (.nat 1))])).run (.start ⟨[], []⟩ #[])).1 =
        .ok (.str "5,2,x=1") := by
  obtain ⟨calls, filters, _⟩ := registered_reaches withArguments "args"
    (.value (.function "args")) .start .start [.const .start (.nat 2)]
    [("x", .const .start (.nat 1))]
  constructor
  · rw [calls rfl (by decide) _ rfl]
    rfl
  · rw [filters rfl (by decide) (by decide)]
    rfl

/-- The keyword `func_name` is caught on the way. -/
theorem keyword_caught : ¬ ∀ (s : Setting) (n : String) (c : Callable) (p q : Pos)
    (args : List Expr) (named : List (String × Expr)) (w : World),
    s.registries.functions.lookup n = some c → w.locals.lookup n = none →
      (evaluate s (.call p (.name q n) args named)).run w =
        (given s args named >>= s.callRegistered c).run w := by
  intro reaches
  have reached := reaches withArguments "args" (.value (.function "args")) .start .start []
    [("func_name", .const .start (.nat 1))] (World.start ⟨[], []⟩ #[]) rfl rfl
  cases congrArg Prod.fst reached

end Stencil
