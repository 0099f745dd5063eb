import Stencil.Proofs.Render.Arrivals

namespace Stencil

open Eval

section Expressions

variable {s : Setting} {e : Expr} {w : World} {did : World → Except Fault Unit → World → Prop}

/-- What an evaluation can do between two worlds: it misses something in a part that no quiet
operand is around, and reports it, or it reports nothing. -/
def MissesInside (s : Setting) (e : Expr) (w there : World) (_ : Except Fault Unit)
    (after : World) : Prop :=
  (∃ path part v r, Arrives s e w path part v ∧ Misses s part v r there ∧ there.quiet = 0 ∧
      after.references = there.references ++ [r]) ∨
    after.references = there.references

theorem Traced.of_unheard {α : Type} {ended : Except Fault α × World}
    (unheard : ∀ w result u, u.references = w.references → did w result u)
    (same : ended.2.references = w.references) : Traced did w ended where
  grows := same ▸ List.prefix_rfl
  reported _ r old new := (not_prefix_concat r old (same ▸ new)).elim
  failed _ _ _ := ⟨ended.2, unheard _ _ _ rfl⟩

theorem Traced.alike {α β : Type} {ended : Except Fault α × World} {ended' : Except Fault β × World}
    {u : World} (traced : Traced did w ended)
    (unheard : ∀ w result u, u.references = w.references → did w result u)
    (before : w.references = u.references) (after : ended'.2.references = ended.2.references) :
    Traced did u ended' where
  grows := before ▸ after ▸ traced.grows
  reported sofar r old new := traced.reported sofar r (before ▸ old) (after ▸ new)
  failed _ _ _ := ⟨ended'.2, unheard _ _ _ rfl⟩

theorem Traced.mono {α : Type} {ended : Except Fault α × World}
    {more : World → Except Fault Unit → World → Prop} (traced : Traced did w ended)
    (weaker : ∀ there result after, did there result after → more there result after) :
    Traced more w ended where
  grows := traced.grows
  reported before r old new := by
    obtain ⟨there, result, after, done, found⟩ := traced.reported before r old new
    exact ⟨there, result, after, weaker _ _ _ done, found⟩
  failed fault failed unending := by
    obtain ⟨there, done⟩ := traced.failed fault failed unending
    exact ⟨there, weaker _ _ _ done⟩

/-- What a routine does is traced to what happens when its operands are asked for, if it reports
nothing by itself. -/
theorem Orderly.traced {f : Head} {k : Nat} {r : Routine Value} {operands : List (Eval Value)}
    (orderly : Orderly s f k r)
    (unheard : ∀ w result u, u.references = w.references → did w result u)
    (own : ∀ {β : Type} {x : Eval β}, f.Acts s x → Step.Follows SameReferences x)
    (answers : ∀ quiet i m, r.Asks operands w quiet i m →
      Traced did m ((Routine.answer operands quiet i).run m)) :
    Traced did w ((r.eval operands).run w) := by
  induction orderly generalizing w with
  | done _ => exact .of_unheard unheard rfl
  | silent _ blind _ ih =>
      refine (Traced.of_unheard unheard (blind.references w)).bind fun b m run => ?_
      exact ih b fun quiet i v asks => answers quiet i v (.acted run asks)
  | look _ _ ih => exact ih w fun quiet i v asks => answers quiet i v (.acted rfl asks)
  | own value acts _ =>
      exact (Traced.of_unheard unheard (own acts w)).bind fun _ _ _ => .of_unheard unheard rfl
  | ask _ _ _ _ ih =>
      refine (answers _ _ w .now).bind fun v m run => ?_
      exact ih v fun quiet i u asks => answers quiet i u (.answered run asks)

/-- Whether a head reports what it misses: names and accesses do. -/
def Head.reports : Head → Bool
  | name _ | attr _ | item => true
  | _ => false

theorem Head.Acts.sameReferences {f : Head} {β : Type} {x : Eval β} (acts : f.Acts s x)
    (mute : f.reports = false) : Step.Follows SameReferences x := by
  cases acts with
  | looksUp | takesPart | takesItem => cases mute
  | callsLocal | callsValue => exact fun w => (s.callValue_blind _ _).references w
  | callsFunction => exact fun w => (s.callFunction_blind _ _).references w
  | filters => exact fun w => (s.callFilter_blind _ _ _).references w
  | tests => exact fun w => (s.callTest_blind _ _ _).references w

theorem missesInside_of_unheard (w' : World) (result : Except Fault Unit) (u : World)
    (same : u.references = w'.references) : MissesInside s e w w' result u := .inr same

theorem afterMiss_missesInside {r : Reference} {m : World} (misses : Misses s e w r m) :
    Traced (MissesInside s e w) m (s.afterMiss r m) := by
  have after := Setting.afterMiss_references (s := s) (w := m) r
  by_cases loud : m.quiet = 0
  · rw [if_pos loud] at after
    refine ⟨⟨[r], after.symm⟩, fun before r' old new => ?_, fun _ _ _ => ⟨_, .inr rfl⟩⟩
    exact ⟨m, .ok (), _, .inl ⟨[], e, w, r, .here, misses, loud, after⟩, old, new⟩
  · rw [if_neg loud] at after
    exact .of_unheard missesInside_of_unheard after

theorem name_missesInside {p : Pos} {n : String} :
    Traced (MissesInside s (.name p n) w) w ((evaluate s (.name p n)).run w) := by
  rw [evaluate]
  cases isLocal : w.locals.lookup n with
  | some v =>
      rw [Setting.variableOf_local isLocal]
      exact .of_unheard missesInside_of_unheard rfl
  | none =>
      cases isSet : w.context.get? n with
      | some v =>
          rw [Setting.variableOf_set isLocal isSet]
          exact .of_unheard missesInside_of_unheard rfl
      | none =>
          rw [Setting.variableOf_unset isLocal isSet]
          exact afterMiss_missesInside (.name isLocal isSet)

theorem access_missesInside {v key : Value} {m : World}
    (misses : v ≠ .undefined → v.part? s.host m.heap key = none →
      Misses s e w (m.lacking v key) m) :
    Traced (MissesInside s e w) m ((s.access v key).run m) := by
  by_cases defined : v = .undefined
  · subst defined
    exact .of_unheard missesInside_of_unheard rfl
  · rw [Setting.access_defined defined]
    split
    · exact .of_unheard missesInside_of_unheard rfl
    · next lacks => exact afterMiss_missesInside (misses defined lacks)

theorem operand_missesInside
    (operands : ∀ o ∈ e.operands, ∀ w, Traced (MissesInside s o w) w ((evaluate s o).run w))
    {quiet : Bool} {i : Nat} {m : World}
    (asks : (e.head.routine s).Asks (e.operands.map (evaluate s)) w quiet i m) :
    Traced (MissesInside s e w) m
      ((Routine.answer (e.operands.map (evaluate s)) quiet i).run m) := by
  cases operand : e.operands[i]? with
  | none =>
      rw [answer_none operand]
      exact .of_unheard missesInside_of_unheard rfl
  | some o =>
      rw [answer_run operand]
      have inside := operands o (List.mem_of_getElem? operand) (m.hushed quiet)
      refine (inside.mono fun there result after does => ?_).alike missesInside_of_unheard rfl rfl
      refine does.imp_left ?_
      rintro ⟨path, part, v, r, arrives, misses, reported⟩
      exact ⟨i :: path, part, v, r, .inside asks operand arrives, misses, reported⟩

theorem evaluate_missesInside (s : Setting) (e : Expr) :
    ∀ w, Traced (MissesInside s e w) w ((evaluate s e).run w) := by
  induction e using Expr.operandInduction with
  | step e ih =>
      intro w
      have asked : ∀ quiet i m,
          (e.head.routine s).Asks (e.operands.map (evaluate s)) w quiet i m →
          Traced (MissesInside s e w) m
            ((Routine.answer (e.operands.map (evaluate s)) quiet i).run m) :=
        fun _ _ _ => operand_missesInside ih
      cases mute : e.head.reports with
      | false =>
          rw [evaluate_eq_eval]
          exact (e.head.routine_orderly s).traced missesInside_of_unheard
            (fun acts => acts.sameReferences mute) asked
      | true =>
          cases e with
          | name p n => exact name_missesInside
          | attr p object n =>
              rw [evaluate]
              refine (asked false 0 w .now).bind fun v m evaluated => ?_
              exact access_missesInside fun defined lacks => .attr evaluated defined lacks
          | item p object key =>
              rw [evaluate]
              refine (asked false 0 w .now).bind fun v m evaluated => ?_
              refine (asked false 1 m (.answered evaluated .now)).bind fun k u keyed => ?_
              exact access_missesInside fun defined lacks => .item evaluated keyed defined lacks
          | call p callee args named => cases callee <;> cases mute
          | _ => cases mute

/-- What an expression reports, one of its parts misses outside of all quiet operands. -/
theorem exists_misses_of_reported {before : List Reference} {r : Reference}
    (old : w.references <+: before)
    (new : before ++ [r] <+: ((evaluate s e).run w).2.references) :
    ∃ path part v there, Arrives s e w path part v ∧ Misses s part v r there ∧ there.quiet = 0 ∧
      there.references = before := by
  obtain ⟨there, _, after, does, within, reported⟩ :=
    (evaluate_missesInside s e w).reported before r old new
  rcases does with ⟨path, part, v, r', arrives, misses, loud, grown⟩ | same
  · rw [grown] at reported
    obtain ⟨between, rfl⟩ := within
    have single : between ++ [r] <+: [r'] := by simpa using reported
    cases between with
    | nil =>
        obtain rfl : r = r' := by simpa using single
        exact ⟨path, part, v, there, arrives, misses, loud, by simp⟩
    | cons x more => simp at single
  · exact (not_prefix_concat r within (same ▸ reported)).elim

end Expressions

end Stencil
