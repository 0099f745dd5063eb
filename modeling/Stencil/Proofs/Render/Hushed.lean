import Stencil.Proofs.Render.Reported

namespace Stencil

open Eval

def Setting.leniently (s : Setting) : Setting := { s with strict := false }

def Eval.unreported {α : Type} (x : Eval α) : Eval α := ExceptT.mk fun w =>
  ((x.run w).1, { (x.run w).2 with references := w.references })

/-- A computation whose results do not depend on what was reported before, nor on whether reports
are suppressed; only its own reports do. -/
def Indifferent {α : Type} (x : Eval α) : Prop :=
  ∀ (w : World) quiet references, ∃ more, x.run { w with quiet, references } =
    ((x.run w).1, { (x.run w).2 with quiet, references := references ++ more })

theorem Blind.indifferent {α : Type} {x : Eval α} (blind : Blind x) : Indifferent x :=
  fun w quiet references => ⟨[], (blind w quiet references w.locals).trans
    (by rw [← blind.locals w, List.append_nil])⟩

namespace Indifferent

variable {α β : Type}

theorem bind {x : Eval α} {f : α → Eval β} (hx : Indifferent x) (hf : ∀ a, Indifferent (f a)) :
    Indifferent (x >>= f) := by
  intro w quiet references
  obtain ⟨more, first⟩ := hx w quiet references
  rw [Step.run_bind, Step.run_bind, first]
  obtain ⟨fault | a, m⟩ := x.run w
  · exact ⟨more, rfl⟩
  · obtain ⟨further, second⟩ := hf a m quiet (references ++ more)
    exact ⟨more ++ further, by rw [← List.append_assoc]; exact second⟩

theorem getBind {f : World → Eval β} (hf : ∀ w, Indifferent (f w))
    (same : ∀ (w : World) quiet references, f { w with quiet, references } = f w) :
    Indifferent (MonadState.get >>= f) := by
  intro w quiet references
  show ∃ more, (f { w with quiet, references }).run { w with quiet, references } = _
  rw [same]
  exact hf w w quiet references

theorem quietly {x : Eval α} (hx : Indifferent x) : Indifferent (quietly x) := by
  intro w quiet references
  obtain ⟨more, inside⟩ := hx w (quiet + 1) references
  obtain ⟨_, alone⟩ := hx w (w.quiet + 1) w.references
  refine ⟨more, ?_⟩
  rw [run_quietly, run_quietly]
  dsimp only
  rw [inside]
  have alone : x.run { w with quiet := w.quiet + 1 } = _ := alone
  rw [alone]
  rfl

end Indifferent

section Lenient

variable {s : Setting}

namespace Setting

theorem missing_indifferent (lenient : s.strict = false) (name message : String) :
    Indifferent (s.missing name message) := by
  intro w quiet references
  rw [missing_run, missing_run]
  simp only [afterMiss, lenient]
  by_cases loud : quiet = 0 <;> by_cases before : w.quiet = 0
  all_goals simp only [loud, before, ↓reduceIte]
  · exact ⟨[_], rfl⟩
  · exact ⟨[_], rfl⟩
  · exact ⟨[], by simp⟩
  · exact ⟨[], by simp⟩

theorem lookup_indifferent (lenient : s.strict = false) (name : String) :
    Indifferent (s.lookup name) := by
  refine .getBind (fun w => ?_) fun _ _ _ => rfl
  split
  · exact (Blind.pure _).indifferent
  · exact missing_indifferent lenient _ _

theorem variableOf_indifferent (lenient : s.strict = false) (name : String) :
    Indifferent (s.variableOf name) := by
  refine .getBind (fun w => ?_) fun _ _ _ => rfl
  split
  · exact (Blind.pure _).indifferent
  · exact lookup_indifferent lenient name

theorem access_indifferent (lenient : s.strict = false) (v key : Value) :
    Indifferent (s.access v key) := by
  unfold access
  split
  · exact (Blind.pure _).indifferent
  · refine .getBind (fun w => ?_) fun _ _ _ => rfl
    split
    · exact (Blind.pure _).indifferent
    · exact missing_indifferent lenient _ _

end Setting

theorem Head.Acts.indifferent (lenient : s.strict = false) {f : Head} {β : Type} {x : Eval β}
    (acts : f.Acts s x) : Indifferent x := by
  cases acts with
  | looksUp => exact Setting.variableOf_indifferent lenient _
  | takesPart | takesItem => exact Setting.access_indifferent lenient _ _
  | callsLocal | callsValue => exact (s.callValue_blind _ _).indifferent
  | callsFunction => exact (s.callFunction_blind _ _).indifferent
  | filters => exact (s.callFilter_blind _ _ _).indifferent
  | tests => exact (s.callTest_blind _ _ _).indifferent

theorem Orderly.indifferent (lenient : s.strict = false) {f : Head} {k : Nat} {r : Routine Value}
    {operands : List (Eval Value)} (orderly : Orderly s f k r)
    (answers : ∀ quiet i, Indifferent (Routine.answer operands quiet i)) :
    Indifferent (r.eval operands) := by
  induction orderly with
  | done _ => exact (Blind.pure _).indifferent
  | silent _ blind _ ih => exact blind.indifferent.bind ih
  | look same _ ih =>
      exact .getBind ih fun w quiet references => congrArg _ (same w quiet references w.locals fun _ => rfl)
  | own value acts _ => exact (acts.indifferent lenient).bind fun _ => (Blind.pure _).indifferent
  | ask _ _ _ _ ih => exact (answers _ _).bind ih

theorem evaluate_indifferent (lenient : s.strict = false) (e : Expr) :
    Indifferent (evaluate s e) := by
  induction e using Expr.operandInduction with
  | step e ih =>
      rw [evaluate_eq_eval]
      refine (e.head.routine_orderly s).indifferent lenient fun quiet i => ?_
      have asked : Indifferent ((e.operands.map (evaluate s))[i]?.getD (pure .null)) := by
        rw [List.getElem?_map]
        cases operand : e.operands[i]? with
        | none => exact (Blind.pure _).indifferent
        | some o => exact ih o (List.mem_of_getElem? operand)
      cases quiet with
      | false => exact asked
      | true => exact asked.quietly

end Lenient

section Quiet

variable {s : Setting} {e : Expr} {w : World}

theorem evaluate_references_of_quiet (quiet : w.quiet ≠ 0) :
    ((evaluate s e).run w).2.references = w.references := by
  obtain ⟨more, grown⟩ := evaluate_grows s e w
  cases more with
  | nil => rw [← grown, List.append_nil]
  | cons r rest =>
      have new : w.references ++ [r] <+: ((evaluate s e).run w).2.references :=
        ⟨rest, by rw [← grown]; simp⟩
      obtain ⟨path, part, v, there, arrives, misses, loud, _⟩ :=
        exists_misses_of_reported List.prefix_rfl new
      rw [misses.quiet, arrives.quiet] at loud
      omega

theorem evaluate_eq_leniently_of_quiet (quiet : w.quiet ≠ 0) :
    (evaluate s e).run w = (evaluate s.leniently e).run w := by
  cases strict : s.strict with
  | false =>
      have same : s.leniently = s := by rw [Setting.leniently, ← strict]
      rw [same]
  | true =>
      have same : s.leniently.strictly = s := by
        rw [Setting.strictly, Setting.leniently, ← strict]
      have agreement := evaluate_agrees (s := s.leniently) rfl e w
      rw [same] at agreement
      have unreported := evaluate_references_of_quiet (s := s.leniently) (e := e) quiet
      generalize (evaluate s.leniently e).run w = lenient at agreement unreported ⊢
      generalize (evaluate s e).run w = run at agreement ⊢
      cases agreement with
      | same _ => rfl
      | stopped found _ => simp [unreported] at found

theorem quietly_evaluate (s : Setting) (e : Expr) :
    quietly (evaluate s e) = unreported (evaluate s.leniently e) := by
  funext w
  have quiet : ({ w with quiet := w.quiet + 1 } : World).quiet ≠ 0 := Nat.succ_ne_zero _
  obtain ⟨more, inside⟩ :
      ∃ more, (evaluate s.leniently e).run { w with quiet := w.quiet + 1 } = _ :=
    evaluate_indifferent (s := s.leniently) rfl e w (w.quiet + 1) w.references
  have same := evaluate_references_of_quiet (s := s.leniently) (e := e) quiet
  have outside := evaluate_quiet s.leniently e w
  rw [inside] at same
  obtain rfl : more = [] := by simpa using same
  show (quietly (evaluate s e)).run w = (unreported (evaluate s.leniently e)).run w
  rw [run_quietly, evaluate_eq_leniently_of_quiet quiet, inside]
  show (_, ({ ((evaluate s.leniently e).run w).2 with
    quiet := w.quiet + 1 - 1, references := w.references ++ [] } : World)) =
      (_, { ((evaluate s.leniently e).run w).2 with references := w.references })
  rw [List.append_nil, Nat.add_sub_cancel, ← outside]

end Quiet

end Stencil
