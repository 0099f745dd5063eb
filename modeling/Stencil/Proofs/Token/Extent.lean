import Stencil.Proofs.Token.Places

namespace Stencil

open Scan Text

/-- A place in a source: it is in one of its lines, or right behind that line. -/
structure Pos.Inside (p : Pos) (source : List Char) : Prop where
  first : 1 ≤ p.line
  last : p.line ≤ 1 + source.count '\n'
  column : ∃ line, (source.splitOn '\n')[p.line - 1]? = some line ∧ p.col ≤ line.length

/-- Going on from a column, a place in the first line is counted from that column. -/
theorem Pos.advance_column (first col : Nat) (cs more : List Char) :
    ∃ passed line, (Pos.advance ⟨first, col⟩ cs).line = first + passed ∧
      ((cs ++ more).splitOn '\n')[passed]? = some line ∧
      (Pos.advance ⟨first, col⟩ cs).col ≤ line.length + if passed = 0 then col else 0 := by
  induction cs generalizing first col with
  | nil =>
      obtain ⟨line, lines, split⟩ := List.exists_cons_of_ne_nil (List.splitOn_ne_nil '\n' more)
      exact ⟨0, line, rfl, by simp [split], by simp⟩
  | cons c cs ih =>
      rw [Pos.advance_cons, List.cons_append, List.splitOn, List.splitOnP_cons_eq_if_modifyHead,
        ← List.splitOn]
      by_cases newline : c = '\n'
      · obtain ⟨passed, line, atLine, found, short⟩ := ih (first + 1) 0
        rw [Pos.step, if_pos newline]
        refine ⟨passed + 1, line, by rw [atLine]; omega, ?_, ?_⟩
        · simpa [newline] using found
        · simpa using short
      · obtain ⟨passed, line, atLine, found, short⟩ := ih first (col + 1)
        rw [Pos.step, if_neg newline]
        have same : (c == '\n') = false := by simpa using newline
        rw [if_neg (by simp [same])]
        cases passed with
        | zero =>
            refine ⟨0, c :: line, atLine, ?_, ?_⟩
            · rw [List.getElem?_modifyHead, found]
              rfl
            · simp only [if_true, List.length_cons] at short ⊢
              omega
        | succ passed =>
            refine ⟨passed + 1, line, atLine, ?_, by simpa using short⟩
            rw [List.getElem?_modifyHead, found]
            rfl

theorem Pos.behind_inside {earlier source : List Char} (begins : earlier <+: source) :
    (Pos.behind earlier).Inside source := by
  obtain ⟨more, rfl⟩ := begins
  have start : Pos.behind earlier = Pos.advance ⟨1, 0⟩ earlier := Pos.behind_append [] earlier
  obtain ⟨passed, line, atLine, found, short⟩ := Pos.advance_column 1 0 earlier more
  rw [← start] at atLine short
  refine ⟨?_, ?_, line, ?_, ?_⟩
  · simp [Pos.behind]
  · simp [Pos.behind]
  · rw [atLine, Nat.add_sub_cancel_left]
    exact found
  · simpa using short

namespace Scan

theorem tagStep_covers {cs rest : List Char} {ps : List Piece} {mode : Mode}
    (read : tagStep cs = .pieces ps mode rest) : cs = ps.flatMap Piece.chars ++ rest := by
  unfold tagStep at read
  split at read
  · next inside =>
      split at read
      · cases read
      · next content rest' found =>
          cases read
          obtain rfl := splitAt?_eq_some found
          have covered := before_append ('{' :: '#' :: (content ++ ['#', '}'])) rest
          simp only [List.cons_append] at covered
          rw [covered]
          simp [Piece.skipped]
  · cases read
    rfl
  · cases read
    rfl
  · split at read
    · cases read
      rfl
    · next word inside tag =>
        split at read
        · cases read
        · next close =>
            obtain ⟨_, opener, rfl, _, whole⟩ := verbatimTag?_eq_some tag
            obtain ⟨closer, _, rfl⟩ := splitAtWordTag?_eq_some close
            rw [whole] at read ⊢
            split at read
            · next empty =>
                cases read
                simp [Piece.skipped, empty, before_append]
            · cases read
              simp [Piece.skipped, Piece.plain, before_append]
  · cases read

theorem step_covers {cs rest : List Char} {ps : List Piece} {mode mode' : Mode}
    (read : step mode cs = .pieces ps mode' rest) : cs = ps.flatMap Piece.chars ++ rest := by
  cases mode with
  | text =>
      rw [step, textStep] at read
      split at read
      · cases read
      · split at read
        · exact tagStep_covers read
        · cases read
          simp [Piece.plain, splitText_append]
  | tag d braces =>
      rw [step] at read
      unfold insideStep at read
      split at read
      · cases read
      · split at read
        · cases read
          simp [Piece.skipped, List.takeWhile_append_dropWhile]
        · split at read
          · next closed =>
              cases read
              split at closed
              · simpa [Piece.plain] using dropBeginning?_eq_some closed
              · cases closed
          · obtain ⟨piece, _, _, rfl, _, whole⟩ := tokenStep_inside read
            simpa using whole

theorem run_covers (mode : Mode) (cs : List Char) :
    (run mode cs).1.flatMap Piece.chars <+: cs := by
  fun_induction run mode cs with
  | case1 mode cs finished => exact List.nil_prefix
  | case2 mode cs fault refused => exact List.nil_prefix
  | case3 mode cs ps mode' rest taken _ ih =>
      rw [step_covers taken, List.flatMap_append]
      exact List.prefix_append_right_inj _ |>.mpr ih

end Scan

theorem Located.inside {earlier source : List Char} {ps : List Piece} {tokens : List Token}
    (located : Located earlier ps tokens) (begins : earlier ++ ps.flatMap Piece.chars <+: source) :
    ∀ t ∈ tokens, t.pos.Inside source := by
  induction located with
  | nil => nofun
  | skipped more ih => exact ih (by simpa [Piece.skipped] using begins)
  | @token earlier cs kind text ps tokens more ih =>
      rintro t (_ | ⟨_, mem⟩)
      · exact Pos.behind_inside ((List.prefix_append _ _).trans begins)
      · exact ih (by simpa using begins) t mem

namespace TokenStream

variable {source : List Char}

theorem inside_of_ofSource? {stream : TokenStream} (accepted : ofSource? source = .ok stream) :
    (∀ t ∈ stream.tokens, t.pos.Inside source) ∧ stream.stop.Inside source := by
  obtain ⟨_, _, joined, located, stop⟩ := pieces_of_ofSource? accepted
  refine ⟨located.inside (by simp [joined]), ?_⟩
  rw [stop]
  exact Pos.behind_inside (List.prefix_refl source)

theorem inside_of_refused {fault : ScanFault} {pos : Pos}
    (refused : ofSource? source = .error (fault, pos)) : pos.Inside source := by
  unfold ofSource? at refused
  dsimp only at refused
  split at refused
  · cases refused
  · cases refused
    rw [place_stop]
    have behind := Pos.behind_append [] ((run .text source).1.flatMap Piece.chars)
    exact behind ▸ Pos.behind_inside (run_covers .text source)

end TokenStream

end Stencil
