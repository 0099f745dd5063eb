import Stencil.Proofs.Html.Safe
import Stencil.Text.Blank

namespace Stencil.Html

open Text

/-- The entity that begins here, and the character in its place. -/
def entity? (cs : List Char) : Option (Nat × List Char) :=
  entities.findSome? fun (entity, c) =>
    (dropBeginning? entity cs).map fun _ => (entity.length, [c])

/-- Text with its entities replaced by the characters that they stand for. -/
def unescapeChars (cs : List Char) : List Char := replaceMatches entity? cs

theorem escapeChar_cases (c : Char) :
    (escapeChar c, c) ∈ entities ∨ c ≠ '&' ∧ escapeChar c = [c] := by
  unfold escapeChar
  split
  · exact .inl (by decide)
  · exact .inl (by decide)
  · exact .inl (by decide)
  · exact .inl (by decide)
  · exact .inl (by decide)
  · next ampersand _ _ _ _ => exact .inr ⟨ampersand, rfl⟩

/-- Entities begin with the only `&` in them. -/
theorem entities_begin : ∀ e ∈ entities, e.1.head? = some '&' ∧ '&' ∉ e.1.tail := by
  decide

theorem entity?_found {entity : List Char} {c : Char} (known : (entity, c) ∈ entities)
    (rest : List Char) : entity? (entity ++ rest) = some (entity.length, [c]) := by
  simp only [entities, List.mem_cons, Prod.mk.injEq, List.not_mem_nil, or_false] at known
  rcases known with ⟨rfl, rfl⟩ | ⟨rfl, rfl⟩ | ⟨rfl, rfl⟩ | ⟨rfl, rfl⟩ | ⟨rfl, rfl⟩ <;> rfl

theorem entity?_missed {c : Char} (other : c ≠ '&') (cs : List Char) :
    entity? (c :: cs) = none := by
  simp [entity?, entities, dropBeginning?, other.symm]

theorem escapeChars_cons (c : Char) (cs : List Char) :
    escapeChars (c :: cs) = escapeChar c ++ escapeChars cs := List.flatMap_cons

theorem escapeChars_append (first second : List Char) :
    escapeChars (first ++ second) = escapeChars first ++ escapeChars second := List.flatMap_append

theorem unescapeChars_escapeChars (cs : List Char) : unescapeChars (escapeChars cs) = cs := by
  induction cs with
  | nil => rfl
  | cons c cs ih =>
      rw [escapeChars_cons, unescapeChars]
      rcases escapeChar_cases c with known | ⟨other, alone⟩
      · have nonempty : escapeChar c ≠ [] := by
          intro empty
          have begins := (entities_begin _ known).1
          rw [empty] at begins
          cases begins
        rw [replaceMatches_found nonempty (entity?_found known _)]
        exact congrArg (List.cons c) ih
      · rw [alone, List.singleton_append, replaceMatches_missed (entity?_missed other _)]
        exact congrArg (List.cons c) ih

/-- Each `&` of an escaped character begins its entity. -/
theorem escapeChar_ampersand {c : Char} {before more : List Char}
    (whole : escapeChar c = before ++ '&' :: more) :
    before = [] ∧ (escapeChar c, c) ∈ entities := by
  rcases escapeChar_cases c with known | ⟨other, alone⟩
  · refine ⟨?_, known⟩
    cases before with
    | nil => rfl
    | cons d before =>
        have once := (entities_begin _ known).2
        simp [whole] at once
  · have mem : '&' ∈ [c] := by
      rw [← alone, whole]
      exact List.mem_append_right before List.mem_cons_self
    exact absurd (List.mem_singleton.mp mem).symm other

/-- Each `&` of escaped text begins an entity. -/
theorem escapeChars_ampersand {cs before after : List Char}
    (found : escapeChars cs = before ++ '&' :: after) :
    ∃ e ∈ entities, e.1 <+: '&' :: after := by
  induction cs generalizing before with
  | nil => simp [escapeChars] at found
  | cons c cs ih =>
      rw [escapeChars_cons] at found
      rcases List.append_eq_append_iff.mp found with ⟨more, _, rest⟩ | ⟨more, whole, rest⟩
      · exact ih rest
      · cases more with
        | nil => exact @ih [] rest.symm
        | cons d more =>
            obtain ⟨rfl, rfl⟩ := List.cons.inj rest
            obtain ⟨rfl, known⟩ := escapeChar_ampersand whole
            exact ⟨_, known, escapeChars cs, by simp [whole]⟩

end Stencil.Html
