import Stencil.Proofs.Render.Scope
import Stencil.Proofs.Render.Strict
import Stencil.Proofs.Render.Walk

namespace Stencil

open Eval

section Cause

variable (s : Setting)

/-- What a statement that begins in one world does itself: from a second world it comes to a third
one, with a result or a fault. -/
inductive Code.Does : Code → World → World → Except Fault Unit → World → Prop
  | evaluates {c : Code} {e : Expr} {here there after : World} {result : Except Fault Value} :
      Evaluates s c here e there → (evaluate s e).run there = (result, after) →
        Does c here there (result.map fun _ => ()) after
  | takesItems {target : Target} {tracked : Bool} {items : Expr} {body empty : List Code}
      {v : Value} {here there after : World} {found : Except Fault (List Value)} :
      (evaluate s items).run here = (.ok v, there) →
        (v.loopItems target.isPair).run there = (found, after) →
          Does (.loop target tracked items body empty) here there (found.map fun _ => ()) after

def Expr.isBare : Expr → Bool
  | .name _ _ => true
  | _ => false

/-- Whether a statement does not evaluate an expression that it tests, but only asks whether the
variable is set. -/
def Code.onlyAsks : Code → Expr → Bool
  | .branch _ _ _ _, e | .while _ _, e => e.isBare
  | _, _ => false

theorem Code.onlyAsks_eq_false (c : Code) {e : Expr} (notBare : e.isBare = false) :
    c.onlyAsks e = false := by
  cases c with
  | branch | «while» => exact notBare
  | _ => rfl

/-- What a statement really does itself: a bare name that is tested is not evaluated. -/
inductive Code.Performs : Code → World → World → Except Fault Unit → World → Prop
  | evaluates {c : Code} {e : Expr} {here there after : World} {result : Except Fault Value} :
      Evaluates s c here e there → c.onlyAsks e = false →
        (evaluate s e).run there = (result, after) →
          Performs c here there (result.map fun _ => ()) after
  | takesItems {target : Target} {tracked : Bool} {items : Expr} {body empty : List Code}
      {v : Value} {here there after : World} {found : Except Fault (List Value)} :
      (evaluate s items).run here = (.ok v, there) →
        (v.loopItems target.isPair).run there = (found, after) →
          Performs (.loop target tracked items body empty) here there (found.map fun _ => ()) after

/-- Whether a `while` that begins in one world asks its condition again, after a round, in another
one. -/
def Code.AfterRound (c : Code) (here there : World) : Prop :=
  ∃ condition body e written u middle, c = .while condition body ∧
    (holds s condition).run here = (.ok true, u) ∧
    (executeAll s body).run u = (.ok written, middle) ∧ Evaluates s c middle e there

/-- Whether all that the statements do that code comes to is among the given. -/
def Within (did : World → Except Fault Unit → World → Prop) (code : List Code) (w : World) : Prop :=
  ∀ c here there result after, Reaches s code w c here → c.Performs s here there result after →
    did there result after

end Cause

variable {s : Setting} {did : World → Except Fault Unit → World → Prop}

/-! The line stays while a statement does something itself. -/

theorem Evaluates.line {c : Code} {e : Expr} {here there : World}
    (evaluates : Evaluates s c here e there) :
    there.line = here.line ∨ c.AfterRound s here there := by
  induction evaluates with
  | output | condition | items | round | set | debug => exact .inl rfl
  | other failed _ ih =>
      rcases ih with same | ⟨_, _, _, _, _, _, impossible, _⟩
      · exact .inl (same.trans (holds_atLine failed).line)
      · cases impossible
  | again held carriedOut further _ => exact .inr ⟨_, _, _, _, _, _, rfl, held, carriedOut, further⟩

namespace Code.Does

variable {c : Code} {here there after : World} {result : Except Fault Unit}

theorem line (does : c.Does s here there result after) :
    there.line = here.line ∨ c.AfterRound s here there := by
  cases does with
  | evaluates evaluates _ => exact evaluates.line
  | takesItems evaluated _ => exact .inl (evaluate_atLine evaluated).line

theorem atLine (does : c.Does s here there result after) : there.AtLine after := by
  cases does with
  | evaluates _ run => exact evaluate_atLine run
  | @takesItems target _ _ _ _ v _ _ _ _ _ run =>
      have follows := v.loopItems_follows World.AtLine.walk.toFrame target.isPair
        (fun id _ w i => World.AtLine.walk.moves w id i) there
      rwa [run] at follows

end Code.Does

theorem Code.Performs.does {c : Code} {here there after : World} {result : Except Fault Unit}
    (performs : c.Performs s here there result after) : c.Does s here there result after := by
  cases performs with
  | evaluates evaluates _ run => exact .evaluates evaluates run
  | takesItems evaluated run => exact .takesItems evaluated run

namespace Within

variable {c : Code} {rest part : List Code} {w u : World}

theorem of_reaches {first second : List Code} (within : Within s did first w)
    (reaches : ∀ d here, Reaches s second u d here → Reaches s first w d here) :
    Within s did second u := by
  intro d here there result after reached does
  exact within d here there result after (reaches d here reached) does

theorem head (within : Within s did (c :: rest) w) : Within s did [c] w :=
  within.of_reaches fun _ _ reached => reached.of_head rest

theorem tail {written : List Fragment} (within : Within s did (c :: rest) w)
    (run : (execute s c).run w = (.ok written, u)) : Within s did rest u :=
  within.of_reaches fun _ _ reached => .further run reached

theorem entered (within : Within s did [c] w) (enters : Enters s c w part u) :
    Within s did part u :=
  within.of_reaches fun _ _ reached => .within enters reached

theorem other {condition next : Expr} {body first otherwise : List Code}
    {others : List (Expr × List Code)}
    (within : Within s did [.branch condition body ((next, first) :: others) otherwise] w)
    (failed : (holds s condition).run w = (.ok false, u)) :
    Within s did [.branch next first others otherwise] u := by
  intro d here there result after reached does
  cases reached with
  | first =>
      cases does with
      | evaluates evaluates weighed run =>
          exact within _ _ _ _ _ .first (.evaluates (.other failed evaluates) weighed run)
  | further _ impossible => cases impossible
  | within enters reached =>
      exact within _ _ _ _ _ (.within (.other failed enters) reached) does

theorem again {condition : Expr} {body : List Code} {written : List Fragment} {middle : World}
    (within : Within s did [.while condition body] w)
    (held : (holds s condition).run w = (.ok true, u))
    (carriedOut : (executeAll s body).run u = (.ok written, middle)) :
    Within s did [.while condition body] middle := by
  intro d here there result after reached does
  cases reached with
  | first =>
      cases does with
      | evaluates evaluates weighed run =>
          exact within _ _ _ _ _ .first (.evaluates (.again held carriedOut evaluates) weighed run)
  | further _ impossible => cases impossible
  | within enters reached =>
      exact within _ _ _ _ _ (.within (.again held carriedOut enters) reached) does

end Within

theorem not_prefix_concat {sofar before : List Reference} (r : Reference) (old : sofar <+: before) :
    ¬ before ++ [r] <+: sofar := by
  intro new
  have longer := (new.trans old).length_le
  rw [List.length_append, List.length_singleton] at longer
  omega

/-- Whether all that is reported from a world on, and the fault at the end, has a cause among what
was done. A loop that never ends is its own cause. -/
structure Traced {α : Type} (did : World → Except Fault Unit → World → Prop) (w : World)
    (ended : Except Fault α × World) : Prop where
  grows : w.references <+: ended.2.references
  reported : ∀ before r, w.references <+: before → before ++ [r] <+: ended.2.references →
    ∃ there result after, did there result after ∧ there.references <+: before ∧
      before ++ [r] <+: after.references
  failed : ∀ fault, ended.1 = .error fault → fault ≠ .endless →
    ∃ there, did there (.error fault) ended.2

namespace Traced

variable {α β : Type} {w u : World}

theorem of_silent {ended : Except Fault α × World} (same : ended.2.references = w.references)
    (fine : ∀ fault, ended.1 = .error fault → fault = .endless) : Traced did w ended where
  grows := same ▸ List.prefix_rfl
  reported _ r old new := (not_prefix_concat r old (same ▸ new)).elim
  failed fault failed unending := (unending (fine fault failed)).elim

theorem ok (a : α) (same : u.references = w.references) : Traced did w (.ok a, u) :=
  .of_silent same fun _ impossible => nomatch impossible

theorem of_done {ended : Except Fault α × World} {result : Except Fault Unit}
    (done : did w result ended.2) (atLine : w.AtLine ended.2)
    (same : ∀ fault, ended.1 = .error fault → result = .error fault) : Traced did w ended where
  grows := by
    obtain ⟨more, added, _⟩ := atLine.reports
    exact ⟨more, added.symm⟩
  reported _ _ old new := ⟨w, result, ended.2, done, old, new⟩
  failed fault failed _ := ⟨w, same fault failed ▸ done⟩

theorem bind {x : Eval α} {f : α → Eval β} (first : Traced did w (x.run w))
    (next : ∀ a m, x.run w = (.ok a, m) → Traced did m ((f a).run m)) :
    Traced did w ((x >>= f).run w) := by
  rw [Step.run_bind]
  cases run : x.run w with
  | mk result m =>
      rw [run] at first
      cases result with
      | error fault => exact ⟨first.grows, first.reported, fun _ failed => first.failed _
          (congrArg Except.error (Except.error.inj failed))⟩
      | ok a =>
          have second := next a m run
          refine ⟨first.grows.trans second.grows, fun before r old new => ?_, second.failed⟩
          -- A report was there in the middle already, or it came after all that was.
          rcases List.prefix_or_prefix_of_prefix new second.grows with early | late
          · exact first.reported before r old early
          · rcases List.prefix_concat_iff.mp late with same | late
            · exact first.reported before r old (same ▸ List.prefix_rfl)
            · exact second.reported before r late new

/-- What holds of all rounds of a loop, with the rounds before them done, holds of the loop. -/
theorem forEach {step : α → Eval (List β)} {items : List α}
    (each : ∀ before a after given m, items = before ++ a :: after →
      (Eval.forEach step before []).run w = (.ok given, m) → Traced did m ((step a).run m)) :
    Traced did w ((Eval.forEach step items []).run w) := by
  have further : ∀ rest before given m, items = before ++ rest →
      (Eval.forEach step before []).run w = (.ok given, m) →
      Traced did m ((Eval.forEach step rest given.reverse).run m) := by
    intro rest
    induction rest with
    | nil =>
        intro before given m _ _
        exact .ok _ rfl
    | cons a rest ih =>
        intro before given m split done
        refine (each before a rest given m split done).bind fun parts v run => ?_
        simpa using ih (before ++ [a]) (given ++ parts) v (by simpa using split)
          (forEach_concat done run)
  exact further items [] [] w rfl rfl

end Traced

/-! Carrying out code. -/

section Execute

theorem evaluate_traced {c : Code} {e : Expr} {w here : World} (within : Within s did [c] w)
    (evaluates : Evaluates s c w e here) (weighed : c.onlyAsks e = false) :
    Traced did here ((evaluate s e).run here) := by
  cases run : (evaluate s e).run here with
  | mk result u =>
      refine .of_done (within _ _ _ _ _ .first (.evaluates evaluates weighed run))
        (evaluate_atLine run) ?_
      rintro fault rfl
      rfl

theorem holds_traced {c : Code} {e : Expr} {w here : World} (within : Within s did [c] w)
    (evaluates : Evaluates s c w e here) : Traced did here ((holds s e).run here) := by
  unfold holds
  split
  · rw [Step.run_bind, Step.run_get]
    dsimp only
    split
    · exact .ok _ rfl
    · exact .ok _ rfl
  · next other =>
      have notBare : e.isBare = false := by
        cases e with
        | name p n => exact (other p n rfl).elim
        | _ => rfl
      have weighed := c.onlyAsks_eq_false notBare
      exact (evaluate_traced within evaluates weighed).bind fun _ _ _ => .ok _ rfl

theorem loopItems_traced {target : Target} {tracked : Bool} {items : Expr}
    {body empty : List Code} {v : Value} {w m : World}
    (within : Within s did [.loop target tracked items body empty] w)
    (evaluated : (evaluate s items).run w = (.ok v, m)) :
    Traced did m ((v.loopItems target.isPair).run m) := by
  cases run : (v.loopItems target.isPair).run m with
  | mk found u =>
      have performs : Code.Performs s (.loop target tracked items body empty) w m _ u :=
        .takesItems evaluated run
      refine .of_done (within _ _ _ _ _ .first performs) performs.does.atLine ?_
      rintro fault rfl
      rfl

theorem atItem_references {target : Target} {id : Option Nat} {item : Value} {index : Nat}
    {w u : World} (run : (atItem target id item index).run w = (.ok (), u)) :
    u.references = w.references := by
  cases run
  dsimp only
  rw [bindTarget_references]
  cases id with
  | none => rfl
  | some id => exact SameReferences.calls.moves w id index

/-- Whether what carrying out code reports, as `x` does, and its fault is traced to what the code
does. -/
abbrev IsTraced (s : Setting) (did : World → Except Fault Unit → World → Prop) (code : List Code)
    (x : Eval (List Fragment)) : Prop :=
  ∀ w, Within s did code w → Traced did w (x.run w)

theorem while_traced {condition : Expr} {body : List Code}
    (hbody : IsTraced s did body (executeAll s body)) {rounds : Nat} {given : List Fragment} :
    IsTraced s did [.while condition body]
      (whileWithin (holds s condition) (executeAll s body) rounds given) := by
  induction rounds generalizing given with
  | zero =>
      intro w _
      exact .of_silent rfl fun _ failed => (Except.error.inj failed).symm
  | succ rounds ih =>
      intro w within
      refine (holds_traced within .round).bind fun answer m held => ?_
      cases answer with
      | false => exact .ok _ rfl
      | true =>
          refine (hbody m (within.entered (.round held))).bind fun parts next carriedOut => ?_
          exact ih next (within.again held carriedOut)

theorem loop_traced {target : Target} {tracked : Bool} {items : Expr} {body empty : List Code}
    (hbody : IsTraced s did body (executeAll s body))
    (hempty : IsTraced s did empty (executeAll s empty)) :
    IsTraced s did [.loop target tracked items body empty]
      (execute s (.loop target tracked items body empty)) := by
  intro w within
  rw [execute]
  refine (evaluate_traced within .items rfl).bind fun v m evaluated => ?_
  refine (loopItems_traced within evaluated).bind fun found here listed => ?_
  split
  · next none =>
      rw [List.isEmpty_iff] at none
      subst none
      exact hempty here (within.entered (.empty evaluated listed))
  · have entering : Traced did here ((enterLoop target tracked found).run here) := by
      rw [enterLoop_run]
      exact .ok _ rfl
    refine entering.bind fun entered start started => ?_
    have repeated : Traced did start
        ((forEach (loopStep s target entered.1 body) found.zipIdx []).run start) := by
      refine Traced.forEach fun before e after given m split done => ?_
      have bound : Traced did m ((atItem target entered.1 e.1 e.2).run m) :=
        .ok _ (atItem_references rfl)
      refine bound.bind fun _ there current => ?_
      exact hbody there (within.entered (.item evaluated listed started split done current))
    refine repeated.bind fun written last _ => ?_
    exact .ok _ rfl

mutual

theorem execute_traced : (c : Code) → IsTraced s did [c] (execute s c)
  | .text value => by
      intro w _
      exact .ok _ rfl
  | .mark line => by
      intro w _
      exact .ok _ rfl
  | .output value escape => by
      intro w within
      exact (evaluate_traced within .output rfl).bind fun v m _ => .ok _ rfl
  | .branch condition body others otherwise => by
      intro w within
      refine (holds_traced within .condition).bind fun answer m asked => ?_
      cases answer with
      | true => exact executeAll_traced body m (within.entered (.body asked))
      | false =>
          exact executeOthers_traced others (executeAll_traced otherwise) condition body w m asked
            within
  | .loop target tracked items body empty =>
      loop_traced (executeAll_traced body) (executeAll_traced empty)
  | .while condition body => while_traced (executeAll_traced body)
  | .set name value => by
      intro w within
      refine (evaluate_traced within .set rfl).bind fun v m _ => ?_
      refine Traced.ok _ ?_
      show (if (m.locals.lookup name).isSome then m.setLocal name v
        else { m with context := m.context.set name v }).references = m.references
      split <;> rfl
  | .spaceless body => by
      intro w within
      exact (executeAll_traced body w (within.entered .spaceless)).bind fun parts m _ => .ok _ rfl
  | .debug (some e) label => by
      intro w within
      exact (evaluate_traced within .debug rfl).bind fun v m _ => .ok _ rfl
  | .debug none label => by
      intro w _
      exact .ok _ rfl

theorem executeAll_traced : (code : List Code) → IsTraced s did code (executeAll s code)
  | [] => by
      intro w _
      exact .ok _ rfl
  | c :: rest => by
      intro w within
      refine (execute_traced c w within.head).bind fun parts m carriedOut => ?_
      exact (executeAll_traced rest m (within.tail carriedOut)).bind fun more last _ => .ok _ rfl

theorem executeOthers_traced {otherwise : List Code} : (others : List (Expr × List Code)) →
    IsTraced s did otherwise (executeAll s otherwise) →
    ∀ (condition : Expr) (body : List Code) (w u : World),
      (holds s condition).run w = (.ok false, u) →
      Within s did [.branch condition body others otherwise] w →
      Traced did u ((executeOthers s others (executeAll s otherwise)).run u)
  | [], hotherwise => by
      intro condition body w u failed within
      exact hotherwise u (within.entered (.otherwise failed))
  | (next, first) :: rest, hotherwise => by
      intro condition body w u failed within
      have further := within.other failed
      refine (holds_traced further .condition).bind fun answer m asked => ?_
      cases answer with
      | true => exact executeAll_traced first m (further.entered (.body asked))
      | false => exact executeOthers_traced rest hotherwise next first u m asked further

end

/-- What code reports, and the fault that ends it, is traced to the statements that it comes to. -/
theorem executeAll_traced_reaches (code : List Code) (w : World) :
    Traced (fun there result after => ∃ c here, Reaches s code w c here ∧
      c.Does s here there result after) w ((executeAll s code).run w) :=
  executeAll_traced code w fun c here _ _ _ reached performs => ⟨c, here, reached, performs.does⟩

end Execute

end Stencil
