import Stencil.Proofs.Render.Journey
import Stencil.Proofs.Render.Traced

namespace Stencil

open Eval

/-- Whether one world has the line of another one, or one of the given lines. -/
def World.LineIn (lines : List Nat) (w u : World) : Prop := u.line = w.line ∨ u.line ∈ lines

namespace World.LineIn

variable {lines : List Nat} {w u : World}

theorem of_same (same : u.line = w.line) : LineIn lines w u := .inl same

theorem eq_of_nil (stays : LineIn [] w u) : u.line = w.line := stays.resolve_right List.not_mem_nil

theorem journey (lines : List Nat) : World.Journey lines (LineIn lines) where
  refl _ := .of_same rfl
  trans := by
    rintro u v w (first | isGiven) (second | isLater)
    · exact .inl (second.trans first)
    · exact .inr isLater
    · exact .inr (second ▸ isGiven)
    · exact .inr isLater
  notes _ _ := .of_same rfl
  generators _ _ := .of_same rfl
  moves w id i := by
    unfold moveLoop
    split
    · exact .of_same rfl
    · exact .of_same rfl
  report _ _ _ := .of_same rfl
  loud := id
  mark _ _ isGiven := .inr isGiven
  locals _ _ := .of_same rfl
  context _ _ := .of_same rfl
  enter _ _ := .of_same rfl

end World.LineIn

theorem Code.Does.lineIn {s : Setting} {c : Code} {lines : List Nat} {here there after : World}
    {result : Except Fault Unit} (does : c.Does s here there result after)
    (among : c.marks ⊆ lines) : World.LineIn lines here there := by
  cases does with
  | evaluates evaluates _ => exact evaluates.follows (World.LineIn.journey lines) among
  | takesItems evaluated _ =>
      exact (evaluate_follows (World.LineIn.journey lines).toWalk _).after evaluated

section Reach

variable (s : Setting)

/-- Whether code that begins in one world comes to the rest of some code in another one. -/
inductive Comes : List Code → World → List Code → World → Prop
  | here {code : List Code} {w : World} : Comes code w code w
  | further {c : Code} {rest code : List Code} {written : List Fragment} {w u v : World} :
      (execute s c).run w = (.ok written, u) → Comes rest u code v → Comes (c :: rest) w code v
  | within {c : Code} {rest part code : List Code} {w u v : World} : Enters s c w part u →
      Comes part u code v → Comes (c :: rest) w code v

/-- Whether a `while` asks its condition in a world in which a round of it has just ended. -/
def Code.EndsRound (c : Code) (there : World) : Prop :=
  ∃ condition body written u, c = .while condition body ∧
    (executeAll s body).run u = (.ok written, there)

end Reach

section Reach

variable {s : Setting} {c : Code} {code : List Code} {w u here there : World}

/-- The rest that follows on code follows on each of its rests, if they are not inside of it. -/
theorem Comes.append {first : List Code} (comes : Comes s first w code u) (second : List Code) :
    ∃ more, Comes s (first ++ second) w (code ++ more) u := by
  induction comes with
  | here => exact ⟨second, .here⟩
  | further run _ ih =>
      obtain ⟨more, comes⟩ := ih
      exact ⟨more, .further run comes⟩
  | within enters comes _ => exact ⟨[], .within enters (by rwa [List.append_nil])⟩

theorem Comes.after {first second : List Code} {written : List Fragment} {m : World}
    (run : (executeAll s first).run w = (.ok written, m)) (comes : Comes s second m code u) :
    Comes s (first ++ second) w code u := by
  induction first generalizing w written with
  | nil =>
      cases run
      exact comes
  | cons c rest ih =>
      obtain ⟨parts, v, runHead, runRest⟩ := Step.run_bind_ok run
      obtain ⟨more, v', runRest, same⟩ := Step.run_bind_ok runRest
      cases same
      exact .further runHead (ih runRest)

theorem Reaches.of_append {first second : List Code}
    (reaches : Reaches s (first ++ second) w c here) : Reaches s first w c here ∨
      ∃ written u, (executeAll s first).run w = (.ok written, u) ∧ Reaches s second u c here := by
  induction first generalizing w with
  | nil => exact .inr ⟨[], w, rfl, reaches⟩
  | cons d rest ih =>
      cases reaches with
      | first => exact .inl .first
      | @further _ _ _ parts _ m _ run reached =>
          rcases ih reached with inRest | ⟨written, u, runRest, inSecond⟩
          · exact .inl (.further run inRest)
          · refine .inr ⟨parts ++ written, u, ?_, inSecond⟩
            rw [executeAll, Step.run_bind, run]
            dsimp only
            rw [Step.run_bind, runRest]
            rfl
      | within enters reached => exact .inl (.within enters reached)

theorem Evaluates.of_while {condition e : Expr} {body : List Code}
    (evaluates : Evaluates s (.while condition body) here e there) :
    there = here ∨ Code.EndsRound s (.while condition body) there := by
  generalize same : Code.while condition body = c at evaluates
  induction evaluates with
  | round => exact .inl rfl
  | again _ carriedOut _ ih =>
      cases same
      rcases ih rfl with rfl | ends
      · exact .inr ⟨_, _, _, _, rfl, carriedOut⟩
      · exact .inr ends
  | _ => cases same

/-- A statement does something itself at the line at which it begins, or where a round of it has
ended. -/
theorem Code.Does.line_or_ends {result : Except Fault Unit} {after : World}
    (does : c.Does s here there result after) :
    there.line = here.line ∨ c.EndsRound s there := by
  rcases does.line with same | ⟨condition, body, e, written, u, middle, rfl, _, carriedOut, further⟩
  · exact .inl same
  · rcases further.of_while with rfl | ends
    · exact .inr ⟨condition, body, written, u, rfl, carriedOut⟩
    · exact .inr ends

end Reach

end Stencil
