import Stencil.Proofs.Render.Journey
import Stencil.Proofs.Render.Misses
import Stencil.Proofs.Render.Traced

namespace Stencil

open Eval

namespace World

theorem Grows.journey (lines : List Nat) : World.Journey lines Grows where
  toWalk := Grows.walk
  mark _ _ _ := List.prefix_rfl
  locals _ _ := List.prefix_rfl
  context _ _ := List.prefix_rfl
  enter _ _ := List.prefix_rfl

theorem sameQuiet_journey (lines : List Nat) : World.Journey lines SameQuiet where
  toWalk := SameQuiet.walk
  mark _ _ _ := rfl
  locals _ _ := rfl
  context _ _ := rfl
  enter _ _ := rfl

end World

/-- Whether all that is reported in an inner part stays reported on the outside. A loop that never
ends is cut off, so nothing is said of what lies behind the cut. -/
def Kept {α β : Type} (inner : Except Fault α × World) (outer : Except Fault β × World) : Prop :=
  outer.1 ≠ .error .endless → inner.1 ≠ .error .endless ∧ inner.2.Grows outer.2

namespace Kept

variable {α β γ : Type} {inner : Except Fault α × World} {w u : World}

theorem refl : Kept inner inner := fun ends => ⟨ends, List.prefix_rfl⟩

theorem trans {middle : Except Fault β × World} {outer : Except Fault γ × World}
    (first : Kept inner middle) (second : Kept middle outer) : Kept inner outer := by
  intro ends
  obtain ⟨middleEnds, further⟩ := second ends
  obtain ⟨innerEnds, kept⟩ := first middleEnds
  exact ⟨innerEnds, kept.trans further⟩

theorem before {x : Eval α} {f : α → Eval β} (grows : ∀ a, Step.Follows World.Grows (f a)) :
    Kept (x.run w) ((x >>= f).run w) := by
  rw [Step.run_bind]
  generalize x.run w = ended
  obtain ⟨fault | a, m⟩ := ended
  · exact fun ends => ⟨fun endless => ends (congrArg _ (Except.error.inj endless)), List.prefix_rfl⟩
  · exact fun _ => ⟨nofun, grows a m⟩

theorem after {x : Eval β} {f : β → Eval γ} {b : β} (run : x.run w = (.ok b, u))
    (kept : Kept inner ((f b).run u)) : Kept inner ((x >>= f).run w) := by
  rwa [Step.run_bind, run]

theorem round {step : β → Eval (List γ)} {earlier : List β} {b : β} {given : List γ}
    (later : List β) (grows : ∀ b, Step.Follows World.Grows (step b))
    (run : (forEach step earlier []).run w = (.ok given, u))
    (kept : Kept inner ((step b).run u)) :
    Kept inner ((forEach step (earlier ++ b :: later) []).run w) := by
  rw [forEach_append]
  refine after run (kept.trans (before fun parts => ?_))
  exact World.Grows.walk.toFrame.forEach grows later _

end Kept

section Execute

variable {s : Setting} {c : Code} {w u there : World}

theorem executeAll_grows (s : Setting) (code : List Code) :
    Step.Follows World.Grows (executeAll s code) :=
  executeAll_follows (World.Grows.journey _) code (List.Subset.refl _)

theorem holds_grows (s : Setting) (e : Expr) : Step.Follows World.Grows (holds s e) :=
  (World.Grows.journey []).holds e

theorem executeOthers_grows (s : Setting) (others : List (Expr × List Code))
    (otherwise : List Code) :
    Step.Follows World.Grows (executeOthers s others (executeAll s otherwise)) :=
  executeOthers_follows (World.Grows.journey _) others (List.Subset.refl _)
    (executeAll_grows s otherwise)

theorem while_grows {condition : Expr} {body : List Code} {rounds : Nat}
    {given : List Fragment} : Step.Follows World.Grows
      (whileWithin (holds s condition) (executeAll s body) rounds given) :=
  World.Grows.walk.toFrame.whileWithin (holds_grows s condition) (executeAll_grows s body) rounds
    given

theorem loopStep_grows (target : Target) (id : Option Nat) (body : List Code) (e : Value × Nat) :
    Step.Follows World.Grows (loopStep s target id body e) :=
  (World.Grows.journey []).loopStep target id (executeAll_grows s body) e

/-- Whether what is reported in a part stays reported when a statement is carried out: a `while` by
any number of rounds, since the rounds that are left are again such a statement. -/
def Code.Keeps {α : Type} (s : Setting) (inner : Except Fault α × World) : Code → World → Prop
  | .while condition body, w => ∀ rounds given,
      Kept inner ((whileWithin (holds s condition) (executeAll s body) rounds given).run w)
  | c, w => Kept inner ((execute s c).run w)

namespace Code.Keeps

theorem kept {α : Type} {inner : Except Fault α × World} (keeps : c.Keeps s inner w) :
    Kept inner ((execute s c).run w) := by
  cases c with
  | «while» condition body => exact keeps mostRounds []
  | _ => exact keeps

theorem again {α : Type} {inner : Except Fault α × World} {condition : Expr} {body : List Code}
    {written : List Fragment} {middle : World} (held : (holds s condition).run w = (.ok true, u))
    (carriedOut : (executeAll s body).run u = (.ok written, middle))
    (keeps : (Code.while condition body).Keeps s inner middle) :
    (Code.while condition body).Keeps s inner w := by
  intro rounds given
  cases rounds with
  | zero => exact fun ends => absurd rfl ends
  | succ rounds => exact .after held (.after carriedOut (keeps rounds _))

end Code.Keeps

theorem holds_kept {e : Expr} (notBare : e.isBare = false) :
    Kept ((evaluate s e).run w) ((holds s e).run w) := by
  cases e with
  | name p n => cases notBare
  | _ => exact .before fun _ => World.Grows.walk.pure _

theorem Evaluates.keeps {e : Expr} (evaluates : Evaluates s c w e there)
    (weighed : c.onlyAsks e = false) : c.Keeps s ((evaluate s e).run there) w := by
  induction evaluates with
  | output =>
      refine .before fun v => ?_
      exact World.Grows.walk.bind World.Grows.walk.get fun _ => World.Grows.walk.pure _
  | condition =>
      refine (holds_kept weighed).trans (.before fun answer => ?_)
      cases answer with
      | true => exact executeAll_grows s _
      | false => exact executeOthers_grows s _ _
  | other failed _ ih => exact .after failed (ih weighed)
  | @items target tracked items body empty w =>
      show Kept _ ((execute s (.loop target tracked items body empty)).run _)
      rw [execute]
      exact .before ((World.Grows.journey []).goThrough target tracked (executeAll_grows s body)
        (executeAll_grows s empty))
  | round =>
      intro rounds given
      cases rounds with
      | zero => exact fun ends => absurd rfl ends
      | succ rounds =>
          refine (holds_kept weighed).trans (.before fun answer => ?_)
          cases answer with
          | true => exact World.Grows.walk.bind (executeAll_grows s _) fun _ => while_grows
          | false => exact World.Grows.walk.pure _
  | again held carriedOut _ ih => exact .again held carriedOut (ih weighed)
  | set =>
      refine .before fun v => ?_
      exact World.Grows.walk.bind ((World.Grows.journey []).assign _ v) fun _ =>
        World.Grows.walk.pure _
  | debug =>
      refine .before fun v => ?_
      exact World.Grows.walk.bind World.Grows.walk.get fun _ => World.Grows.walk.pure _

theorem Enters.keeps {part : List Code} (enters : Enters s c w part there) :
    c.Keeps s ((executeAll s part).run there) w := by
  induction enters with
  | body held => exact .after held .refl
  | other failed _ ih => exact .after failed ih
  | otherwise failed => exact .after failed .refl
  | empty evaluated listed => exact .after evaluated (.after listed .refl)
  | @item target tracked items body empty v found entered before after e written _ _ _ _ _ _
      evaluated listed started split repeated bound =>
      show Kept _ ((execute s (.loop target tracked items body empty)).run _)
      rw [execute]
      refine .after evaluated (.after listed ?_)
      -- The body is carried out in some round, so there are items.
      have some : found.isEmpty = false := by
        cases found with
        | nil => simp at split
        | cons => rfl
      rw [some, if_neg Bool.false_ne_true]
      have inRound : Kept _ ((loopStep s target entered.1 body e).run _) := .after bound .refl
      have inRounds := inRound.round after (loopStep_grows target entered.1 body) repeated
      rw [← split] at inRounds
      refine .after started (inRounds.trans (.before fun _ => ?_))
      exact World.Grows.walk.bind (fun w => (World.Grows.journey []).locals w _) fun _ =>
        World.Grows.walk.pure _
  | round held =>
      intro rounds given
      cases rounds with
      | zero => exact fun ends => absurd rfl ends
      | succ rounds => exact .after held (.before fun _ => while_grows)
  | again held carriedOut _ ih => exact .again held carriedOut ih
  | spaceless => exact .before fun _ => World.Grows.walk.pure _

theorem Reaches.keeps {code : List Code} (reaches : Reaches s code w c there) :
    Kept ((execute s c).run there) ((executeAll s code).run w) := by
  have goesOn : ∀ {c : Code} (rest : List Code) {w : World},
      Kept ((execute s c).run w) ((executeAll s (c :: rest)).run w) := fun rest _ =>
    .before fun _ => World.Grows.walk.bind (executeAll_grows s rest) fun _ =>
      World.Grows.walk.pure _
  induction reaches with
  | first => exact goesOn _
  | further run _ ih => exact .after run (ih.trans (.before fun _ => World.Grows.walk.pure _))
  | within enters _ ih => exact ih.trans (enters.keeps.kept.trans (goesOn _))

end Execute

end Stencil
