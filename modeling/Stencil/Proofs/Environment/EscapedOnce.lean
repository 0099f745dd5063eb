import Stencil.Proofs.Assembly.Registered
import Stencil.Proofs.Environment.Accepted
import Stencil.Proofs.Environment.Policies
import Stencil.Proofs.Html.Escape
import Stencil.Proofs.Render.Calls
import Stencil.Proofs.Render.Misses

/-!
Outputs with filters that escape. However often a value is escaped before it is put out, the same
text is written: a value that is safe is not escaped again.
-/

namespace Stencil

open Eval Html

def Expr.filteredBy (f : String) : Nat → Expr → Expr
  | 0, e => e
  | n + 1, e => .filter .start (filteredBy f n e) f [] []

theorem escape_safeText (loopText : Nat → List Char) (cs : List Char) :
    escape loopText (Filter.safeText cs) = cs := String.toList_ofList

section Output

variable {s : Setting} {f : String}

theorem evaluate_escaped (found : s.registries.filters.lookup f = some (.filter .escape))
    (loud : f ∉ quietFilters) (p : Pos) (e : Expr) (w : World) :
    (evaluate s (.filter p e f [] [])).run w =
      match (evaluate s e).run w with
      | (.ok v, u) => (.ok (Filter.safeText (escape u.loopText v)), u)
      | (.error fault, u) => (.error fault, u) := by
  rw [filter_reaches found List.not_mem_nil List.not_mem_nil, filtered,
    if_neg (by simpa using loud), Step.run_bind]
  cases (evaluate s e).run w with
  | mk result u => cases result <;> rfl

theorem execute_escaped (found : s.registries.filters.lookup f = some (.filter .escape))
    (loud : f ∉ quietFilters) (p : Pos) (e : Expr) :
    execute s (.output (.filter p e f [] []) true) = execute s (.output e true) := by
  refine ExceptT.ext (funext fun w => ?_)
  rw [execute, execute, Step.run_bind, Step.run_bind, evaluate_escaped found loud]
  cases (evaluate s e).run w with
  | mk result u =>
      cases result with
      | error fault => rfl
      | ok v => simp only [Step.run_bind, Step.run_get, if_true, escape_safeText]

theorem execute_filteredBy (found : s.registries.filters.lookup f = some (.filter .escape))
    (loud : f ∉ quietFilters) (n : Nat) (e : Expr) :
    execute s (.output (e.filteredBy f n) true) = execute s (.output e true) := by
  induction n with
  | zero => rfl
  | succ n ih => rw [Expr.filteredBy, execute_escaped found loud, ih]

end Output

/-! The page that puts out a variable behind filters that escape. -/

namespace Expr

variable {f : String}

theorem filteredBy_wellFormed {e : Expr} (wf : e.WellFormed) (word : Scan.isWord f.toList = true)
    (n : Nat) : (e.filteredBy f n).WellFormed := by
  induction n with
  | zero => exact wf
  | succ n ih => exact .filter ih word nofun nofun nofun .nil

theorem filteredBy_lexemes (x : String) (n : Nat) :
    (filteredBy f n (.name .start x)).lexemes =
      Lexeme.word x :: (List.replicate n [Lexeme.symbol .pipe, Lexeme.word f]).flatten := by
  induction n with
  | zero => rfl
  | succ n ih =>
      have bare : enclosed .filter (filteredBy f n (.name .start x)).level =
          @id (List Lexeme) := by
        funext ls
        cases n <;> rfl
      rw [filteredBy, lexemes, bare, id, ih, List.replicate_succ', List.flatten_concat]
      simp [optionalArguments]

theorem filteredBy_registered {r : Registries} {locals : List String} (known : r.Knows .filters f)
    (x : String) (n : Nat) : (filteredBy f n (.name .start x)).Registered r locals := by
  induction n with
  | zero => simp [filteredBy, Registered, any, looksUp]
  | succ n ih => simpa [filteredBy, Registered, any, anyOf, anyNamed, looksUp, known] using ih

theorem filteredBy_namesArgument (name x : String) (n : Nat) :
    (filteredBy f n (.name .start x)).namesArgument name = false := by
  induction n with
  | zero => rfl
  | succ n ih => simpa [filteredBy, namesArgument, any, anyOf, anyNamed] using ih

end Expr

/-- The text of an output of a variable, escaped so many times before. -/
def escapedPage (n : Nat) : List Char :=
  "\x7b\x7b v".toList ++ ((List.replicate n ['|', 'e']).flatten ++ " \x7d\x7d".toList)

section Page

open Scan

theorem word_cuts {c stop : Char} (word : isWord [c] = true) (ends : isNamePart stop = false)
    (rest : List Char) : Cuts (.tag .escaped 0) (c :: stop :: rest)
      [Lexeme.word (String.ofList [c])] (.tag .escaped 0) (stop :: rest) := by
  have part : isNamePart c = true := by
    simp only [isWord, Bool.and_eq_true] at word
    simp [isNamePart, word.1]
  have other : c ≠ '}' ∧ c ≠ '!' ∧ c ≠ '%' := ⟨ne_of_isNamePart part (by decide),
    ne_of_isNamePart part (by decide), ne_of_isNamePart part (by decide)⟩
  have read : step (.tag .escaped 0) (c :: stop :: rest) =
      .pieces [.plain .name [c]] (.tag .escaped 0) (stop :: rest) := by
    rw [step_tag (isBlank_of_isNamePart part) fun _ => dropBeginning?_closer .escaped other]
    exact tokenStep_word .escaped 0 rest word ends
  exact .of_step read

theorem pipes_follow (n : Nat) (rest : List Char) : ∃ stop after,
    (List.replicate n ['|', 'e']).flatten ++ ' ' :: rest = stop :: after ∧
      isNamePart stop = false := by
  cases n with
  | zero => exact ⟨' ', rest, rfl, by decide⟩
  | succ n => exact ⟨'|', _, rfl, by decide⟩

theorem pipes_cut (n : Nat) (rest : List Char) :
    Cuts (.tag .escaped 0) ((List.replicate n ['|', 'e']).flatten ++ ' ' :: rest)
      (List.replicate n [Lexeme.symbol .pipe, Lexeme.word "e"]).flatten (.tag .escaped 0)
      (' ' :: rest) := by
  induction n with
  | zero => exact .refl _ _
  | succ n ih =>
      have pipe (after : List Char) : step (.tag .escaped 0) ('|' :: 'e' :: after) =
          .pieces [.plain (.symbol .pipe) ['|']] (.tag .escaped 0) ('e' :: after) := rfl
      obtain ⟨stop, after, follows, ends⟩ := pipes_follow n rest
      rw [List.replicate_succ, List.replicate_succ, List.flatten_cons, List.flatten_cons,
        List.append_assoc]
      rw [follows] at ih ⊢
      exact ((Cuts.of_step (pipe _)).trans (word_cuts (by decide) ends after)).trans ih

theorem escapedPage_cuts (n : Nat) : Cuts .text (escapedPage n)
    (Lexeme.tag .escaped (Expr.filteredBy "e" n (.name .start "v")).lexemes) .text [] := by
  obtain ⟨stop, after, follows, ends⟩ := pipes_follow n ['}', '}']
  have pipes := pipes_cut n ['}', '}']
  rw [follows] at pipes
  have name : Cuts (.tag .escaped 0) (' ' :: 'v' :: stop :: after) [Lexeme.word "v"]
      (.tag .escaped 0) (stop :: after) :=
    (Cuts.blanks (stop :: after) Text.space_isBlank (by decide)).trans
      (word_cuts (by decide) ends after)
  have whole : escapedPage n = Delimiter.escaped.opener ++ (' ' :: 'v' :: stop :: after) := by
    rw [← follows]
    rfl
  have opener : Cuts .text (escapedPage n) [Lexeme.opening .escaped] (.tag .escaped 0)
      (' ' :: 'v' :: stop :: after) := whole ▸ .opener (absurd · (by decide))
  rw [Expr.filteredBy_lexemes]
  exact opener.trans ((name.trans (follows ▸ pipes)).trans (.closer .escaped Text.space_isBlank []))

theorem escapedPage_template (n : Nat) (name : Option String) (limit : Int) : ∃ p value,
    Source.template ⟨String.ofList (escapedPage n), name, none⟩ limit =
      .ok ⟨[.output p value true], none⟩ ∧
      value.erase = (Expr.filteredBy "e" n (.name .start "v")).erase := by
  obtain ⟨stream, tokens, written⟩ := TokenStream.ofSource?_of_cuts (escapedPage_cuts n)
  have wf : (Expr.filteredBy "e" n (.name .start "v")).WellFormed :=
    Expr.filteredBy_wellFormed (.name (by decide) (by decide)) (by decide) n
  refine Source.output_of_lexemes wf ?_ written limit
  rw [Source.tokens, String.toList_ofList, tokens]

end Page

theorem Plan.assemble_output {p : Plan} {source : Source} {pos : Pos} {value : Expr}
    {escape : Bool} (parsed : p.parse source = .ok ⟨[.output pos value escape], none⟩)
    (registered : value.Registered p.registries [])
    (named : value.namesArgument "__debug__" = false) :
    (p.assemble source).run {} =
      (.ok ⟨[.mark pos.line, .output value escape], [], true⟩, {}) := by
  have flattened (name : String) : p.flatten ⟨[.output pos value escape], none⟩ name =
      .ok (⟨[.output pos value escape], none⟩, []) := by
    rw [flatten, Chain.flatten, Chain.follow_last rfl]
    rfl
  have checked : checkExpr p.registries source.name [] value = .ok () :=
    (checkExpr_ok_iff value).mpr registered
  have feasible : checkCode source.filename [.mark pos.line, .output value escape] = .ok () := by
    refine checkCode_ok_iff.mpr ⟨Nat.zero_le _, ?_⟩
    simp [Code.anyExprAll, Code.anyExpr, named]
  have written (expand : List String → String → Assembly (List Code)) :
      (assembleAll p source.name ⟨false, expand⟩ [] [.output pos value escape]).run {} =
        (.ok [.mark pos.line, .output value escape], {}) := by
    simp only [assembleAll, Stencil.assemble, Assembly.ofExcept, Step.run_bind, Step.run_mk_pure,
      checked, Step.run_pure]
    rfl
  rw [assemble_eq, Step.run_bind, Assembly.ofExcept, Step.run_mk_pure, parsed]
  simp only [assembleTemplate, Assembly.ofExcept, Step.run_bind, Step.run_mk_pure, flattened,
    written, feasible, Step.run_get]
  rfl

theorem renderCode_alike {s : Setting} {value e : Expr} {escape : Bool}
    (same : execute s (.output value escape) = execute s (.output e escape)) (line : Nat)
    (context : Context) (generators : Array (List Value)) :
    renderCode s [.mark line, .output value escape] context generators =
      renderCode s [.mark line, .output e escape] context generators := by
  simp only [renderCode, executeAll, same]

theorem renderCode_variable (s : Setting) (line : Nat) (context : Context)
    (generators : Array (List Value)) (x : String) (v : Value) :
    (renderCode s [.mark line, .output (.name .start x) true] (context.setAll [(x, v)])
      generators).outcome = .ok [.value (String.ofList (escape (fun _ => []) v))] := by
  have held : (context.setAll [(x, v)]).get? x = some v := by
    simp [Context.setAll, Context.set, Context.get?, lookup_setNamed]
  have found : (evaluate s (.name .start x)).run
      (.startAt line (context.setAll [(x, v)]) generators) =
        (.ok v, .startAt line (context.setAll [(x, v)]) generators) := by
    rw [evaluate]
    exact Setting.variableOf_set rfl held
  rw [renderCode_output, found]
  rfl

namespace Engine

variable {e : Engine}

theorem fromString_run {text : String} {a : Assembled} {trail : Trail}
    (assembled : (e.plan.assemble ⟨text, none, none⟩).run {} = (.ok a, trail)) :
    (fromString text none).run e = (.ok ⟨none, none, text, a.code, false, a.dependencies⟩,
      { e with log := e.log ++ trail.missing.map missingIncludeText }) := by
  rw [fromString, Step.run_bind, assemble_run, assembled]
  rfl

def renderEscaped (n : Nat) (v : Value) : EngineM String := do
  let t ← fromString (String.ofList (escapedPage n)) none
  callLoaded t ⟨[], [("v", v)]⟩

theorem callLoaded_named (t : Loaded) (v : Value) :
    callLoaded t ⟨[], [("v", v)]⟩ = renderLoaded t fun c => c.setAll [("v", v)] := by
  have free : [("v", v)].any (·.1 == "self") = false := rfl
  rw [callLoaded, free]
  rfl

theorem renderEscaped_run
    (registered : e.env.registries.filters.lookup "e" = some (.filter .escape)) (n : Nat)
    (v : Value) :
    ((renderEscaped n v).run e).1 = .ok (String.ofList (escape (fun _ => []) v)) := by
  obtain ⟨pos, value, template, alike⟩ := escapedPage_template n none e.env.limits.nesting
  have known : e.plan.registries.Knows .filters "e" := by
    rw [Registries.Knows]
    exact Option.isSome_iff_exists.mpr ⟨_, registered⟩
  have parsed : e.plan.parse ⟨String.ofList (escapedPage n), none, none⟩ =
      .ok ⟨[.output pos value true], none⟩ := by
    rw [Plan.parse]
    simp only [plan, template]
  have checked : value.Registered e.plan.registries [] := by
    rw [← Expr.registered_erase, alike, Expr.registered_erase]
    exact Expr.filteredBy_registered known "v" n
  have named : value.namesArgument "__debug__" = false := by
    rw [← Expr.namesArgument_erase, alike, Expr.namesArgument_erase]
    exact Expr.filteredBy_namesArgument "__debug__" "v" n
  have compiled := fromString_run (Plan.assemble_output parsed checked named)
  rw [renderEscaped, Step.run_bind, compiled]
  dsimp only
  have same (s : Setting) (found : s.registries.filters.lookup "e" = some (.filter .escape)) :
      execute s (.output value true) = execute s (.output (.name .start "v") true) := by
    rw [← execute_filteredBy found (by decide) n (.name .start "v"), execute, execute,
      evaluate_of_erase alike]
  rw [callLoaded_named, renderLoaded_run]
  simp only [answer, rendering]
  rw [renderCode_alike (same _ registered), renderCode_variable]
  simp [Fragment.charsOf, Fragment.chars]

end Engine

/-- Escaping loses nothing: no markup is left of a string, each `&` begins an entity, and the string
comes back when the entities are replaced; what is escaped in parts is escaped as a whole. And it is
done once: filters that escape before an output change nothing of what is written, and a page that
puts out a variable writes the escaped text of its value, however many of them there are. -/
theorem escaped_once :
    (∀ (loopText : Nat → List Char) (s : String),
      (∀ c ∈ escape loopText (.str s), c ∉ markupChars) ∧
      (∀ before after, escape loopText (.str s) = before ++ '&' :: after →
        ∃ e ∈ entities, e.1 <+: '&' :: after) ∧
      unescapeChars (escape loopText (.str s)) = s.toList ∧
      (∀ s', escape loopText (.str s') = escape loopText (.str s) → s' = s) ∧
      ∀ s', escape loopText (.str (s ++ s')) =
        escape loopText (.str s) ++ escape loopText (.str s')) ∧
    (∀ (s : Setting) (f : String), s.registries.filters.lookup f = some (.filter .escape) →
      f ∉ quietFilters → ∀ n e,
        execute s (.output (e.filteredBy f n) true) = execute s (.output e true)) ∧
    ∀ e : Engine, e.env.registries.filters.lookup "e" = some (.filter .escape) → ∀ n v,
      ((Engine.renderEscaped n v).run e).1 = .ok (String.ofList (escape (fun _ => []) v)) := by
  refine ⟨fun loopText s => ?_, fun s f found loud => execute_filteredBy found loud,
    fun e => Engine.renderEscaped_run⟩
  have plain (s : String) : escape loopText (.str s) = escapeChars s.toList := rfl
  refine ⟨(@Safe.escapeChars [] s.toList).plain, fun before after => escapeChars_ampersand,
    unescapeChars_escapeChars s.toList, fun s' same => ?_, fun s' => ?_⟩
  · have back := congrArg unescapeChars same
    rw [plain, plain, unescapeChars_escapeChars, unescapeChars_escapeChars] at back
    exact String.toList_inj.mp back
  · rw [plain, String.toList_append, escapeChars_append]
    rfl

/-- A string that spells an entity: its `&` is escaped, and only once. -/
theorem escaped_once_spelledEntity :
    String.ofList (escapedPage 2) = "\x7b\x7b v|e|e \x7d\x7d" ∧
    ((Engine.renderEscaped 2 (.str "&lt;'")).run (Engine.overTexts "")).1 =
      .ok "&amp;lt;&#039;" ∧
    execute { host := Kit.host }
        (.output ((Expr.const .start (.string "&lt;")).filteredBy "escape" 2) true) =
      execute { host := Kit.host } (.output (.const .start (.string "&lt;")) true) := by
  obtain ⟨_, outputs, pages⟩ := escaped_once
  exact ⟨by decide +kernel, (pages (Engine.overTexts "") rfl 2 (.str "&lt;'")).trans (by rfl),
    outputs { host := Kit.host } "escape" rfl (by decide) 2 _⟩

end Stencil
