import Stencil.Proofs.Render.Misses
import Stencil.Proofs.Render.Traced
import Stencil.Proofs.Render.Turns

namespace Stencil

open Eval

namespace Routine

variable {α : Type} (operands : List (Eval Value))

/-- Whether a routine that begins in one world asks for an operand in another one. -/
inductive Asks : Routine α → World → Bool → Nat → World → Prop
  | now {quiet : Bool} {i : Nat} {next : Value → Routine α} {w : World} :
      Asks (.ask quiet i next) w quiet i w
  | acted {β : Type} {x : Eval β} {next : β → Routine α} {b : β} {quiet : Bool} {i : Nat}
      {w u m : World} : x.run w = (.ok b, u) → Asks (next b) u quiet i m →
        Asks (.act x next) w quiet i m
  | answered {before quiet : Bool} {i j : Nat} {next : Value → Routine α} {v : Value}
      {w u m : World} : (answer operands before j).run w = (.ok v, u) → Asks (next v) u quiet i m →
        Asks (.ask before j next) w quiet i m

end Routine

/-- The world in which an operand is evaluated that is asked for in this one. -/
def World.hushed (w : World) (quiet : Bool) : World := { w with quiet := w.quiet + quiet.toNat }

/-- Whether an expression that is evaluated from one world comes to evaluate a part of it, at some
path, from another one. -/
inductive Arrives (s : Setting) : Expr → World → List Nat → Expr → World → Prop
  | here {e : Expr} {w : World} : Arrives s e w [] e w
  | inside {e o part : Expr} {quiet : Bool} {i : Nat} {path : List Nat} {w m there : World} :
      (e.head.routine s).Asks (e.operands.map (evaluate s)) w quiet i m →
        e.operands[i]? = some o → Arrives s o (m.hushed quiet) path part there →
          Arrives s e w (i :: path) part there

def Expr.hushes : Expr → List Nat → Nat
  | _, [] => 0
  | e, i :: path => (e.head.quiets i).toNat +
      match e.operands[i]? with
      | some o => o.hushes path
      | none => 0

section Answers

variable {s : Setting} {e : Expr}

theorem answer_run {quiet : Bool} {i : Nat} {o : Expr} (operand : e.operands[i]? = some o)
    (w : World) : (Routine.answer (e.operands.map (evaluate s)) quiet i).run w =
      (((evaluate s o).run (w.hushed quiet)).1,
        { ((evaluate s o).run (w.hushed quiet)).2 with
          quiet := ((evaluate s o).run (w.hushed quiet)).2.quiet - quiet.toNat }) := by
  simp only [Routine.answer, List.getElem?_map, operand, Option.map_some, Option.getD_some]
  cases quiet <;> rfl

theorem answer_none {quiet : Bool} {i : Nat} (none : e.operands[i]? = none) (w : World) :
    (Routine.answer (e.operands.map (evaluate s)) quiet i).run w = (.ok .null, w) := by
  cases quiet with
  | false => simp [Routine.answer, none]
  | true => simp [Routine.answer, none, run_quietly]

theorem answer_quiet (quiet : Bool) (i : Nat) (w : World) :
    ((Routine.answer (e.operands.map (evaluate s)) quiet i).run w).2.quiet = w.quiet := by
  cases operand : e.operands[i]? with
  | none => rw [answer_none operand]
  | some o =>
      rw [answer_run operand]
      dsimp only
      rw [evaluate_quiet, World.hushed, Nat.add_sub_cancel]

theorem answer_grows (quiet : Bool) (i : Nat) (w : World) : w.references <+:
    ((Routine.answer (e.operands.map (evaluate s)) quiet i).run w).2.references := by
  cases operand : e.operands[i]? with
  | none => simp only [answer_none operand, List.prefix_rfl]
  | some o =>
      rw [answer_run operand]
      exact evaluate_grows s o (w.hushed quiet)

end Answers

theorem Head.Acts.follows {R : World → World → Prop} (walk : World.Walk R) {s : Setting} {f : Head}
    {β : Type} {x : Eval β} (acts : f.Acts s x) : Step.Follows R x := by
  cases acts with
  | looksUp => exact s.variableOf_follows walk _
  | takesPart | takesItem => exact s.access_follows walk _ _
  | callsLocal | callsValue => exact s.callValue_follows walk.toCalls _ _
  | callsFunction => exact s.callFunction_follows walk.toCalls _ _
  | filters => exact s.callFilter_follows walk.toCalls _ _ _
  | tests => exact s.callTest_follows walk.toCalls _ _ _

theorem Head.Acts.grows {s : Setting} {f : Head} {β : Type} {x : Eval β} (acts : f.Acts s x)
    (w : World) : w.references <+: (x.run w).2.references :=
  acts.follows World.Grows.walk w

namespace Orderly

variable {s : Setting} {f : Head} {k : Nat} {r : Routine Value} {operands : List (Eval Value)}

theorem asks_quiet (orderly : Orderly s f k r)
    (answers : ∀ quiet i w, ((Routine.answer operands quiet i).run w).2.quiet = w.quiet)
    {quiet : Bool} {i : Nat} {w m : World} (asks : r.Asks operands w quiet i m) :
    quiet = f.quiets i ∧ m.quiet = w.quiet := by
  induction orderly generalizing w with
  | done _ => cases asks
  | silent _ blind _ ih =>
      cases asks with
      | acted run asks =>
          have same := blind.quiet w
          rw [run] at same
          obtain ⟨isQuiet, later⟩ := ih _ asks
          exact ⟨isQuiet, later.trans same⟩
  | look _ _ ih =>
      cases asks with
      | acted run asks =>
          cases run
          exact ih _ asks
  | own _ _ _ =>
      cases asks with
      | acted _ asks => cases asks
  | @ask _ before j _ _ isQuiet _ _ ih =>
      cases asks with
      | now => exact ⟨isQuiet, rfl⟩
      | answered run asks =>
          have same := answers before j w
          rw [run] at same
          obtain ⟨isQuiet, later⟩ := ih _ asks
          exact ⟨isQuiet, later.trans same⟩

theorem grows (orderly : Orderly s f k r)
    (answers : ∀ quiet i w,
      w.references <+: ((Routine.answer operands quiet i).run w).2.references) (w : World) :
    w.references <+: ((r.eval operands).run w).2.references := by
  have sequel : ∀ {β : Type} {x : Eval β} {next : β → Routine Value} {w : World},
      w.references <+: (x.run w).2.references →
      (∀ b m, m.references <+: (((next b).eval operands).run m).2.references) →
      w.references <+: ((x >>= fun b => (next b).eval operands).run w).2.references := by
    intro β x next w first rest
    rw [Step.run_bind]
    generalize x.run w = ended at first
    obtain ⟨fault | b, m⟩ := ended
    · exact first
    · exact first.trans (rest b m)
  induction orderly generalizing w with
  | done _ => exact List.prefix_rfl
  | silent _ blind _ ih => exact sequel (blind.references w ▸ List.prefix_rfl) ih
  | look _ _ ih => exact ih w w
  | own value acts _ => exact sequel (acts.grows w) fun _ _ => List.prefix_rfl
  | ask _ _ _ _ ih => exact sequel (answers _ _ w) ih

theorem asks_kept (orderly : Orderly s f k r)
    (answers : ∀ quiet i w,
      w.references <+: ((Routine.answer operands quiet i).run w).2.references)
    {quiet : Bool} {i : Nat} {w m : World} (asks : r.Asks operands w quiet i m) :
    ((Routine.answer operands quiet i).run m).2.references <+:
      ((r.eval operands).run w).2.references := by
  induction orderly generalizing w with
  | done _ => cases asks
  | silent _ _ _ ih =>
      cases asks with
      | acted run asks =>
          rw [Routine.eval, Step.run_bind, run]
          exact ih _ asks
  | look _ _ ih =>
      cases asks with
      | acted run asks =>
          cases run
          exact ih _ asks
  | own _ _ _ =>
      cases asks with
      | acted _ asks => cases asks
  | ask _ _ _ further ih =>
      rw [Routine.eval, Step.run_bind]
      cases asks with
      | now =>
          generalize (Routine.answer operands quiet i).run _ = ended
          obtain ⟨fault | v, m⟩ := ended
          · exact List.prefix_rfl
          · exact (further v).grows answers m
      | answered run asks =>
          rw [run]
          exact ih _ asks

end Orderly

namespace Arrives

variable {s : Setting} {e part : Expr} {path : List Nat} {w there : World}

theorem quiet (arrives : Arrives s e w path part there) :
    there.quiet = w.quiet + e.hushes path := by
  induction arrives with
  | here => rfl
  | @inside e o part quiet i path w m there asks operand _ ih =>
      obtain ⟨isQuiet, same⟩ := (e.head.routine_orderly s).asks_quiet answer_quiet asks
      rw [ih, Expr.hushes, operand, World.hushed, ← isQuiet]
      dsimp only
      omega

/-- What has been reported when a part is evaluated is reported still when the whole is. -/
theorem kept (arrives : Arrives s e w path part there) :
    ((evaluate s part).run there).2.references <+: ((evaluate s e).run w).2.references := by
  induction arrives with
  | here => exact List.prefix_rfl
  | inside asks operand _ ih =>
      have kept := (Head.routine_orderly s _).asks_kept answer_grows asks
      rw [answer_run operand, ← evaluate_eq_eval] at kept
      exact ih.trans kept

end Arrives

end Stencil
