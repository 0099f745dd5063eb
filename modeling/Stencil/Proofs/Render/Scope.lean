import Stencil.Proofs.Render.Loop
import Stencil.Proofs.Render.Reached

namespace Stencil

open Eval

section Reach

variable (s : Setting)

/-- Whether a statement that begins in one world comes to evaluate an expression of its own in
another one. -/
inductive Evaluates : Code → World → Expr → World → Prop
  | output {value : Expr} {escape : Bool} {w : World} : Evaluates (.output value escape) w value w
  | condition {condition : Expr} {body otherwise : List Code} {others : List (Expr × List Code)}
      {w : World} : Evaluates (.branch condition body others otherwise) w condition w
  | other {condition next e : Expr} {body first otherwise : List Code}
      {others : List (Expr × List Code)} {w u v : World} :
      (holds s condition).run w = (.ok false, u) →
      Evaluates (.branch next first others otherwise) u e v →
      Evaluates (.branch condition body ((next, first) :: others) otherwise) w e v
  | items {target : Target} {tracked : Bool} {items : Expr} {body empty : List Code} {w : World} :
      Evaluates (.loop target tracked items body empty) w items w
  | round {condition : Expr} {body : List Code} {w : World} :
      Evaluates (.while condition body) w condition w
  | again {condition e : Expr} {body : List Code} {written : List Fragment}
      {w u middle here : World} : (holds s condition).run w = (.ok true, u) →
      (executeAll s body).run u = (.ok written, middle) →
      Evaluates (.while condition body) middle e here → Evaluates (.while condition body) w e here
  | set {name : String} {value : Expr} {w : World} : Evaluates (.set name value) w value w
  | debug {value : Expr} {label : String} {w : World} :
      Evaluates (.debug (some value) label) w value w

/-- Whether a statement that begins in a world asks a loop for its items: by a search in one of its
expressions, or because it goes through the loop. -/
inductive Code.Asks : Code → World → Nat → Prop
  | search {c : Code} {e : Expr} {w u : World} {id : Nat} : Evaluates s c w e u → asks s e u id →
      Asks c w id
  | items {target : Target} {tracked : Bool} {items : Expr} {body empty : List Code} {w u : World}
      {id : Nat} : (evaluate s items).run w = (.ok (.loop id), u) →
      Asks (.loop target tracked items body empty) w id

/-- Whether code that begins in a world comes to an assignment of a name in another one. -/
def Assigns (code : List Code) (w : World) (name : String) (here : World) : Prop :=
  ∃ value, Reaches s code w (.set name value) here

/-- Whether code that begins in a world asks a loop for its items on the way. -/
def AsksAll (code : List Code) (w : World) (id : Nat) : Prop :=
  ∃ c here, Reaches s code w c here ∧ c.Asks s here id

end Reach

variable {s : Setting}

/-- Whether all assignments and searches that code comes to are among the given ones. -/
structure Covers (s : Setting) (assigned : String → World → Prop) (asked : Nat → Prop)
    (code : List Code) (w : World) : Prop where
  assigns : ∀ name here, Assigns s code w name here → assigned name here
  asks : ∀ id, AsksAll s code w id → asked id

namespace Covers

variable {assigned : String → World → Prop} {asked : Nat → Prop} {c : Code} {rest part : List Code}
  {w u : World}

theorem of_reaches {first second : List Code} (covers : Covers s assigned asked first w)
    (reaches : ∀ d here, Reaches s second u d here → Reaches s first w d here) :
    Covers s assigned asked second u where
  assigns name here := fun ⟨value, reached⟩ => covers.assigns name here ⟨value, reaches _ _ reached⟩
  asks id := fun ⟨d, here, reached, isAsked⟩ =>
    covers.asks id ⟨d, here, reaches _ _ reached, isAsked⟩

theorem head (covers : Covers s assigned asked (c :: rest) w) :
    Covers s assigned asked [c] w :=
  covers.of_reaches fun _ _ reached => reached.of_head rest

theorem tail {written : List Fragment} (covers : Covers s assigned asked (c :: rest) w)
    (run : (execute s c).run w = (.ok written, u)) : Covers s assigned asked rest u :=
  covers.of_reaches fun _ _ reached => .further run reached

theorem entered (covers : Covers s assigned asked [c] w) (enters : Enters s c w part u) :
    Covers s assigned asked part u :=
  covers.of_reaches fun _ _ reached => .within enters reached

theorem asked_of_asks (covers : Covers s assigned asked [c] w) {id : Nat}
    (isAsked : c.Asks s w id) : asked id :=
  covers.asks id ⟨c, w, .first, isAsked⟩

theorem assigned_of_set {name : String} {value : Expr}
    (covers : Covers s assigned asked [.set name value] w) : assigned name w :=
  covers.assigns name w ⟨value, .first⟩

theorem other {condition next : Expr} {body first otherwise : List Code}
    {others : List (Expr × List Code)}
    (covers :
      Covers s assigned asked [.branch condition body ((next, first) :: others) otherwise] w)
    (run : (holds s condition).run w = (.ok false, u)) :
    Covers s assigned asked [.branch next first others otherwise] u where
  assigns name here := by
    rintro ⟨value, reached⟩
    cases reached with
    | further _ impossible => cases impossible
    | within enters reached =>
        exact covers.assigns name here ⟨value, .within (.other run enters) reached⟩
  asks id := by
    rintro ⟨d, here, reached, isAsked⟩
    cases reached with
    | first =>
        cases isAsked with
        | search evaluates found =>
            exact covers.asked_of_asks (.search (.other run evaluates) found)
    | further _ impossible => cases impossible
    | within enters reached =>
        exact covers.asks id ⟨d, here, .within (.other run enters) reached, isAsked⟩

theorem again {condition : Expr} {body : List Code} {written : List Fragment} {middle : World}
    (covers : Covers s assigned asked [.while condition body] w)
    (run : (holds s condition).run w = (.ok true, u))
    (carriedOut : (executeAll s body).run u = (.ok written, middle)) :
    Covers s assigned asked [.while condition body] middle where
  assigns name here := by
    rintro ⟨value, reached⟩
    cases reached with
    | further _ impossible => cases impossible
    | within enters reached =>
        exact covers.assigns name here ⟨value, .within (.again run carriedOut enters) reached⟩
  asks id := by
    rintro ⟨d, here, reached, isAsked⟩
    cases reached with
    | first =>
        cases isAsked with
        | search evaluates found =>
            exact covers.asked_of_asks (.search (.again run carriedOut evaluates) found)
    | further _ impossible => cases impossible
    | within enters reached =>
        exact covers.asks id ⟨d, here, .within (.again run carriedOut enters) reached, isAsked⟩

end Covers

theorem holds_spares (condition : Expr) : Spares (asks s condition) (holds s condition) := by
  unfold holds
  split
  · apply Spares.getBind
    intro w
    split
    · exact .of_still (still.pure _)
    · exact .of_still (still.bind still.get fun _ => still.pure _)
  · exact (evaluate_spares _).bindStill fun _ => still.pure _

section Execute

variable {assigned : String → World → Prop} {asked : Nat → Prop} {depth bound : Nat}

/-- Whether carrying out code, as `x` does, keeps to what the assignments and searches in it may
change. -/
def KeepsTo (s : Setting) (assigned : String → World → Prop) (asked : Nat → Prop)
    (depth bound : Nat) (code : List Code) (x : Eval (List Fragment)) : Prop :=
  ∀ w written u, x.run w = (.ok written, u) → Covers s assigned asked code w →
    w.Above depth bound → w.Scoped assigned asked depth bound u

theorem evaluate_scoped (depth bound : Nat) {c : Code} {e : Expr} {v : Value} {w u here : World}
    (covers : Covers s assigned asked [c] w) (evaluates : Evaluates s c w e here)
    (run : (evaluate s e).run here = (.ok v, u)) :
    here.Scoped assigned asked depth bound u := by
  have stays := evaluate_spares (s := s) e here
  rw [run] at stays
  exact .of_stays stays fun id isAsked => covers.asked_of_asks (.search evaluates isAsked)

theorem holds_scoped (depth bound : Nat) {c : Code} {e : Expr} {answer : Bool} {w u here : World}
    (covers : Covers s assigned asked [c] w) (evaluates : Evaluates s c w e here)
    (run : (holds s e).run here = (.ok answer, u)) :
    here.Scoped assigned asked depth bound u := by
  have stays := holds_spares (s := s) e here
  rw [run] at stays
  exact .of_stays stays fun id isAsked => covers.asked_of_asks (.search evaluates isAsked)

theorem loopItems_scoped {target : Target} {tracked : Bool} {items : Expr} {body empty : List Code}
    {v : Value} {found : List Value} {w m u : World}
    (covers : Covers s assigned asked [.loop target tracked items body empty] w)
    (evaluated : (evaluate s items).run w = (.ok v, m))
    (listed : (v.loopItems target.isPair).run m = (.ok found, u)) :
    m.Scoped assigned asked depth bound u := by
  have follows : Step.Follows (World.Stays fun id => v = .loop id) (v.loopItems target.isPair) :=
    v.loopItems_follows (World.Stays.frame _) _ fun id same w i => .moveLoop w id i same
  have stays := follows m
  rw [listed] at stays
  exact .of_stays stays fun id same => covers.asked_of_asks (.items (same ▸ evaluated))

theorem assign_scoped {name : String} {w here : World} (v : Value) (deep : depth ≤ w.locals.length)
    (isAssigned : assigned name here) (same : w.locals = here.locals) :
    w.Scoped assigned asked depth bound ((assign name v).run w).2 := by
  unfold assign
  rw [Step.run_modify]
  dsimp only
  cases found : w.locals.lookup name with
  | none => exact .setVariable v found isAssigned same
  | some old =>
      have isLocal := mem_names_of_lookup found
      by_cases isInner : name ∈ w.innerNames depth
      · exact .setLocal_inner v deep isInner
      · exact .setLocal_outer v deep isLocal isInner isAssigned same

theorem while_keepsTo {condition : Expr} {body : List Code}
    (hbody : KeepsTo s assigned asked depth bound body (executeAll s body)) {rounds : Nat}
    {given : List Fragment} :
    KeepsTo s assigned asked depth bound [.while condition body]
      (whileWithin (holds s condition) (executeAll s body) rounds given) := by
  induction rounds generalizing given with
  | zero =>
      intro w written u run
      cases run
  | succ rounds ih =>
      intro w written u run covers above
      obtain ⟨answer, m, asked, runRest⟩ := Step.run_bind_ok run
      have first := holds_scoped depth bound covers .round asked
      cases answer with
      | false =>
          cases runRest
          exact first
      | true =>
          obtain ⟨parts, next, carriedOut, further⟩ := Step.run_bind_ok runRest
          have round := hbody m parts next carriedOut (covers.entered (.round asked))
            (first.above above)
          have both := first.trans round
          exact both.trans (ih next written u further (covers.again asked carriedOut)
            (both.above above))

theorem loop_keepsTo {target : Target} {tracked : Bool} {items : Expr} {body empty : List Code}
    (hbody : KeepsTo s assigned asked depth bound body (executeAll s body))
    (hempty : KeepsTo s assigned asked depth bound empty (executeAll s empty)) :
    KeepsTo s assigned asked depth bound [.loop target tracked items body empty]
      (execute s (.loop target tracked items body empty)) := by
  intro w written u run covers above
  rw [execute] at run
  obtain ⟨v, m, evaluated, run⟩ := Step.run_bind_ok run
  obtain ⟨found, here, listed, run⟩ := Step.run_bind_ok run
  have before : w.Scoped assigned asked depth bound here :=
    (evaluate_scoped depth bound covers .items evaluated).trans
      (loopItems_scoped covers evaluated listed)
  have hereAbove := before.above above
  split at run
  · next none =>
      rw [List.isEmpty_iff] at none
      subst none
      exact before.trans (hempty here written u run (covers.entered (.empty evaluated listed))
        hereAbove)
  · obtain ⟨entered, start, started, run⟩ := Step.run_bind_ok run
    obtain ⟨parts, last, repeated, run⟩ := Step.run_bind_ok run
    obtain ⟨_, left, leaving, run⟩ := Step.run_bind_ok run
    have run_enter := started
    rw [enterLoop_run] at started
    cases started
    cases leaving
    cases run
    refine before.trans (World.Scoped.around found hereAbove ?_)
    refine forEach_invariant
      (P := World.Scoped assigned asked depth bound (here.inLoop target tracked found)) (.refl _) ?_
      repeated
    intro before e after given parts m v split done kept runStep
    obtain ⟨_, there, bound, carriedOut⟩ := Step.run_bind_ok runStep
    have inLoop := kept.above (World.inLoop_above hereAbove target tracked found)
    have isInner : ∀ name ∈ target.names, name ∈ m.innerNames depth := by
      intro name isTarget
      rw [World.innerNames_congr kept.names]
      exact World.mem_innerNames rfl hereAbove.deep (World.mem_loopVariables isTarget here tracked)
    have current : m.Scoped assigned asked depth _ there :=
      .atItem inLoop.deep isInner (World.loopId?_new hereAbove tracked) bound
    have covered := covers.entered
      (.item evaluated listed (enterLoop_run target tracked found here) split done bound)
    exact (kept.trans current).trans
      (hbody there parts v carriedOut covered (current.above inLoop))

mutual

theorem execute_keepsTo :
    (c : Code) → KeepsTo s assigned asked depth bound [c] (execute s c)
  | .text value => by
      intro w written u run _ _
      cases run
      exact .refl w
  | .mark line => by
      intro w written u run _ _
      cases run
      exact .setLine w line
  | .output value escape => by
      intro w written u run covers _
      obtain ⟨v, m, evaluated, run⟩ := Step.run_bind_ok run
      cases run
      exact evaluate_scoped depth bound covers .output evaluated
  | .branch condition body others otherwise => by
      intro w written u run covers above
      obtain ⟨answer, m, asked, run⟩ := Step.run_bind_ok run
      have first := holds_scoped depth bound covers .condition asked
      cases answer with
      | true =>
          exact first.trans (executeAll_keepsTo body m written u run (covers.entered (.body asked))
            (first.above above))
      | false =>
          exact first.trans (executeOthers_keepsTo others (executeAll_keepsTo otherwise) condition
            body w m u written asked run covers (first.above above))
  | .loop target tracked items body empty =>
      loop_keepsTo (executeAll_keepsTo body) (executeAll_keepsTo empty)
  | .while condition body => while_keepsTo (executeAll_keepsTo body)
  | .set name value => by
      intro w written u run covers above
      obtain ⟨v, m, evaluated, run⟩ := Step.run_bind_ok run
      have first := evaluate_scoped depth bound covers .set evaluated
      have same : m.locals = w.locals := by
        have stays := evaluate_spares (s := s) value w
        rw [evaluated] at stays
        exact stays.locals
      cases run
      exact first.trans (assign_scoped v (first.above above).deep covers.assigned_of_set same)
  | .spaceless body => by
      intro w written u run covers above
      obtain ⟨parts, m, carriedOut, run⟩ := Step.run_bind_ok run
      cases run
      exact executeAll_keepsTo body w parts u carriedOut (covers.entered .spaceless) above
  | .debug (some e) label => by
      intro w written u run covers _
      obtain ⟨v, m, evaluated, run⟩ := Step.run_bind_ok run
      cases run
      exact evaluate_scoped depth bound covers .debug evaluated
  | .debug none label => by
      intro w written u run _ _
      cases run
      exact .refl w

theorem executeAll_keepsTo :
    (code : List Code) → KeepsTo s assigned asked depth bound code (executeAll s code)
  | [] => by
      intro w written u run _ _
      cases run
      exact .refl w
  | c :: rest => by
      intro w written u run covers above
      obtain ⟨parts, m, carriedOut, run⟩ := Step.run_bind_ok run
      obtain ⟨more, last, further, run⟩ := Step.run_bind_ok run
      cases run
      have first := execute_keepsTo c w parts m carriedOut covers.head above
      exact first.trans (executeAll_keepsTo rest m more u further (covers.tail carriedOut)
        (first.above above))

theorem executeOthers_keepsTo {otherwise : List Code} :
    (others : List (Expr × List Code)) →
    KeepsTo s assigned asked depth bound otherwise (executeAll s otherwise) →
    ∀ (condition : Expr) (body : List Code) (w u v : World) (written : List Fragment),
      (holds s condition).run w = (.ok false, u) →
      (executeOthers s others (executeAll s otherwise)).run u = (.ok written, v) →
      Covers s assigned asked [.branch condition body others otherwise] w →
      u.Above depth bound → u.Scoped assigned asked depth bound v
  | [], hotherwise => by
      intro condition body w u v written failed run covers above
      exact hotherwise u written v run (covers.entered (.otherwise failed)) above
  | (next, first) :: rest, hotherwise => by
      intro condition body w u v written failed run covers above
      obtain ⟨answer, m, asked, run⟩ := Step.run_bind_ok run
      have further := covers.other failed
      have checked := holds_scoped depth bound further .condition asked
      cases answer with
      | true =>
          exact checked.trans (executeAll_keepsTo first m written v run
            (further.entered (.body asked)) (checked.above above))
      | false =>
          exact checked.trans (executeOthers_keepsTo rest hotherwise next first u m v written asked
            run further (checked.above above))

end

end Execute

/-- Whether code that began in one world and ended in another one kept to its scope. -/
structure KeptScope (s : Setting) (code : List Code) (w u : World) : Prop where
  /-- A variable of a loop around has its value, unless it was assigned where nothing inside had
  bound its name again. -/
  around : ∀ name v, w.locals.lookup name = some v → u.locals.lookup name = some v ∨
    ∃ here, Assigns s code w name here ∧ name ∉ here.innerNames w.locals.length
  /-- What was no variable of a loop before is looked up in the context again. -/
  gone : ∀ name, w.locals.lookup name = none →
    (s.variableOf name).run u = (s.lookup name).run u
  /-- The context has changed only where a name was assigned that no loop bound. -/
  context : ∀ name, u.context.get? name = w.context.get? name ∨
    ∃ here, Assigns s code w name here ∧ here.locals.lookup name = none
  others : u.context.others = w.context.others
  /-- The metadata of the loops around has changed only where one of them was itself gone through or
  searched. -/
  loops : ∀ id < w.loops.size, u.loops[id]? = w.loops[id]? ∨ AsksAll s code w id

theorem loop_keptScope {target : Target} {tracked : Bool} {items : Expr} {body empty : List Code}
    {w u : World} {written : List Fragment}
    (run : (execute s (.loop target tracked items body empty)).run w = (.ok written, u)) :
    KeptScope s [.loop target tracked items body empty] w u := by
  have step := execute_keepsTo (.loop target tracked items body empty) w written u run
    ⟨fun _ _ assigns => assigns, fun _ isAsked => isAsked⟩ ⟨Nat.le_refl _, Nat.le_refl _⟩
  refine ⟨?_, ?_, step.context, step.others, step.loops⟩
  · intro name v found
    have same := step.locals name
    rw [← step.length, World.outer_self, step.length, World.outer_self, found] at same
    exact same
  · intro name free
    have unbound : u.locals.lookup name = none := by
      rw [lookup_eq_none_iff_names] at free ⊢
      rwa [step.names]
    rw [Setting.variableOf, Step.run_bind, Step.run_get]
    dsimp only
    rw [unbound]

def plainSetting : Setting where
  host := .bare

end Stencil
