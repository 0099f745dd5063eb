import Stencil.Host.Kit
import Stencil.Proofs.Assembly.Escaping
import Stencil.Proofs.Render.Reached

/-!
Autoescaping is sound: no text becomes markup on its way through filters, operators, variables,
loops and includes.
-/

namespace Stencil

/-- A template that asks for no output as it is, and reads none that does, writes no markup into its
outputs but the tags of built-in filters: neither in a render that succeeds nor in one that fails
later. No expression that is evaluated on the way is worth unsafe markup. -/
theorem outputs_inert {p : Plan} {source : Source} {a : Assembled} {trail : Trail}
    (assembled : (p.assemble source).run {} = (.ok a, trail)) (escapes : p.EscapesSource source)
    {s : Setting} (tame : s.Tame) {context : Context} (hcontext : context.Clean)
    (generators : Array (List Value)) :
    (∀ written, (renderCode s a.code context generators).outcome = .ok written →
      ∀ text ∈ Fragment.outputsOf written, Html.Inert text) ∧
    (∀ value escape here text after,
      Reaches s a.code (World.start context generators) (.output value escape) here →
      (execute s (.output value escape)).run here = (.ok [.value text], after) →
      Html.Inert text) ∧
    ∀ c here e v after, Reaches s a.code (World.start context generators) c here →
      (evaluate s e).run here = (.ok v, after) → v.Clean := by
  have escaping := escapes.assemble assembled
  have start := World.start_clean hcontext generators
  refine ⟨?_, ?_, ?_⟩
  · intro written rendered text member
    obtain ⟨_, given⟩ := executeAll_writes tame a.code escaping _ start
    have carriedOut : ((executeAll s a.code).run (World.start context generators)).1 =
        .ok written := by
      unfold renderCode at rendered
      split at rendered
      · next run =>
          cases rendered
          rw [run]
      · cases rendered
    obtain ⟨f, isWritten, inFragment⟩ := Fragment.mem_outputsOf.mp member
    exact (given written carriedOut f isWritten text inFragment).inert
  · intro value escape here text after reaches run
    obtain ⟨isEscaped, clean⟩ := reaches.clean tame escaping start
    obtain ⟨_, safe⟩ := (execute_writes tame _ isEscaped).run_ok clean run
    exact (safe _ List.mem_cons_self text List.mem_cons_self).inert
  · intro c here e v after reaches run
    obtain ⟨_, clean⟩ := reaches.clean tame escaping start
    exact ((evaluate_keeps tame e).run_ok clean run).2

/-! The kit of host functions, and a page. -/

theorem Kit.host_tame {s : Setting} (hostFree : s.registries.HostFree) (kit : s.host = Kit.host) :
    s.Tame where
  hostFree := hostFree
  finds := by
    rw [kit]
    intro heap v name part _ clean found
    cases v with
    | str | markup =>
        obtain ⟨_, _, rfl⟩ := Option.map_eq_some_iff.mp found
        exact .method clean
    | generator => exact (Value.Clean.not_generator clean).elim
    | _ => cases found
  returns := by
    rw [kit]
    intro heap f a v _ clean _ _ given
    cases f with
    | function => exact (Value.Clean.not_function clean).elim
    | method self name =>
        change callMethod self name a = .ok v at given
        unfold callMethod at given
        split at given
        · split at given
          · cases given
          · split at given
            · cases given
            · cases given
              exact .str _
        · cases given
    | _ => cases given

def page : Source where
  text := "\x7b% extends \"frame\" %\x7d\x7b% block body %\x7d\x7b\x7b note ~ \"<b>\" \x7d\x7d" ++
    "\x7b% include \"note\" %\x7d\x7b% endblock %\x7d"
  name := some "page"
  filename := none

def pagePlan : Plan where
  library :=
    { read := fun name => match name with
        | "frame" => .ok ⟨"<h1>\x7b% block body %\x7d\x7b% endblock %\x7d</h1>", none⟩
        | "note" => .ok ⟨"\x7b\x7b note|nl2br \x7d\x7d", none⟩
        | _ => .error (.failure name)
      bound := 2 }
  registries := .builtin
  limits := {}

def pageSetting : Setting where
  host := Kit.host

def pageContext : Context := ⟨[("note", .str "a\n\"b\"")], []⟩

theorem pagePlan_sheet_escapes {name : String} {sheet : Sheet}
    (found : pagePlan.sheet name = .ok sheet) :
    Source.Escapes ⟨sheet.text, some name, sheet.filename⟩ := by
  have isThere := (Plan.sheet_ok.mp found).1
  intro stream read
  simp only [pagePlan] at isThere
  split at isThere
  · cases isThere
    have checked : ((Source.tokens ⟨"<h1>\x7b% block body %\x7d\x7b% endblock %\x7d</h1>",
        some "frame", none⟩).toOption.map fun stream => Grammar.escapes stream.tokens) =
      some true := by decide +kernel
    rw [read] at checked
    exact Option.some.inj checked
  · cases isThere
    have checked : ((Source.tokens ⟨"\x7b\x7b note|nl2br \x7d\x7d", some "note",
        none⟩).toOption.map fun stream => Grammar.escapes stream.tokens) = some true := by
      decide +kernel
    rw [read] at checked
    exact Option.some.inj checked
  · cases isThere

theorem page_escapes : pagePlan.EscapesSource page where
  own stream read := by
    have checked : (page.tokens.toOption.map fun stream => Grammar.escapes stream.tokens) =
        some true := by decide +kernel
    rw [read] at checked
    exact Option.some.inj checked
  read _ _ _ _ _ found := pagePlan_sheet_escapes found

theorem outputs_inert_page : ∃ a trail written,
    (pagePlan.assemble page).run {} = (.ok a, trail) ∧
      (renderCode pageSetting a.code pageContext #[]).outcome = .ok written ∧
      Fragment.outputsOf written =
        ["a\n&quot;b&quot;&lt;b&gt;", "a<br />\n&quot;b&quot;"] ∧
      ∀ text ∈ Fragment.outputsOf written, Html.Inert text := by
  have outputs : (((pagePlan.assemble page).run {}).1.toOption.bind fun a =>
      (renderCode pageSetting a.code pageContext #[]).outcome.toOption.map Fragment.outputsOf) =
    some ["a\n&quot;b&quot;&lt;b&gt;", "a<br />\n&quot;b&quot;"] := by decide +kernel
  cases assembled : (pagePlan.assemble page).run {} with
  | mk result trail =>
      rw [assembled] at outputs
      cases result with
      | error fault => cases outputs
      | ok a =>
          cases rendered : (renderCode pageSetting a.code pageContext #[]).outcome with
          | error d =>
              simp [rendered, Except.toOption] at outputs
          | ok written =>
              simp only [Except.toOption, Option.bind_some, rendered, Option.map_some,
                Option.some.injEq] at outputs
              have clean : pageContext.Clean := ⟨by simp [pageContext, Value.CleanNamed],
                by simp [pageContext, Value.CleanEntries]⟩
              exact ⟨a, trail, written, rfl, rendered, outputs,
                (outputs_inert assembled page_escapes
                  (Kit.host_tame Registries.builtin_hostFree rfl) clean #[]).1 written rendered⟩

/-! The frame of a generator leads to the type of escaped text, which makes markup of any text. -/

def unescaping : Expr :=
  let frame := Expr.attr .start (.name .start "rows") "gi_frame"
  let type := Expr.attr .start (.attr .start frame "f_builtins") "type"
  let escaped := Expr.filter .start (.const .start (.string "a")) "escape" [] []
  .call .start (.call .start type [escaped] []) [.const .start (.string "<b>")] []

theorem generator_not_inert :
    (renderCode pageSetting [.output unescaping true] ⟨[("rows", .generator 0)], []⟩
        #[[.int 1, .int 2]]).outcome.toOption.map Fragment.outputsOf = some ["<b>"] ∧
      ¬ Html.Inert "<b>" := by
  refine ⟨by decide +kernel, fun inert => ?_⟩
  exact inert '<' (by decide) (by decide)

end Stencil
