import Mathlib.Data.List.DropRight
import Stencil.Proofs.Token.Parts

/-!
Places of tokens: a source that has tokens is cut into parts, its tokens stand for pieces of these
parts, in order and each at its own place, and they form texts and tags that are closed as they
were opened. Each token stands before those that come after it.
-/

namespace Stencil

open Scan Text

def Pos.behind (cs : List Char) : Pos :=
  ⟨1 + cs.count '\n', (cs.rtakeWhile (· != '\n')).length⟩

theorem Pos.behind_concat (cs : List Char) (c : Char) :
    Pos.behind (cs ++ [c]) = (Pos.behind cs).step c := by
  by_cases newline : c = '\n'
  · subst newline
    simp [Pos.behind, Pos.step, Nat.add_assoc]
  · simp [Pos.behind, Pos.step, newline]

theorem Pos.behind_append (cs more : List Char) :
    Pos.behind (cs ++ more) = (Pos.behind cs).advance more := by
  induction more generalizing cs with
  | nil => rw [List.append_nil, Pos.advance_nil]
  | cons c more ih =>
      rw [Pos.advance_cons, ← Pos.behind_concat, ← ih, List.append_assoc, List.singleton_append]

/-- The tokens that pieces stand for, in order, when these pieces come after a text. -/
inductive Located : List Char → List Piece → List Token → Prop
  | nil {earlier : List Char} : Located earlier [] []
  | skipped {earlier cs : List Char} {ps : List Piece} {tokens : List Token}
      (more : Located (earlier ++ cs) ps tokens) : Located earlier (.skipped cs :: ps) tokens
  | token {earlier cs : List Char} {kind : TokenKind} {text : String} {ps : List Piece}
      {tokens : List Token} (more : Located (earlier ++ cs) ps tokens) :
      Located earlier (⟨cs, some (kind, text)⟩ :: ps) (⟨kind, text, .behind earlier⟩ :: tokens)

namespace Scan

theorem located_place (earlier : List Char) (ps : List Piece) :
    Located earlier ps (place (.behind earlier) ps).1 := by
  induction ps generalizing earlier with
  | nil => exact .nil
  | cons piece more ih =>
      obtain ⟨cs, token⟩ := piece
      have behind := ih (earlier ++ cs)
      rw [Pos.behind_append] at behind
      cases token with
      | none => exact .skipped behind
      | some found => exact .token behind

theorem place_stop (p : Pos) (ps : List Piece) :
    (place p ps).2 = p.advance (ps.flatMap Piece.chars) := by
  induction ps generalizing p with
  | nil => rfl
  | cons piece more ih =>
      rw [List.flatMap_cons, Pos.advance_append, ← ih]
      obtain ⟨cs, token⟩ := piece
      cases token <;> rfl

end Scan

/-- Whether tokens of a kind stand between the delimiters of a tag. -/
def TokenKind.isExpression : TokenKind → Bool
  | .data | .opening _ | .closing _ => false
  | .name | .string | .integer | .decimal | .symbol _ => true

/-- Kinds of tokens that form texts, and tags that are closed as they were opened. -/
inductive Shape : List TokenKind → Prop
  | nil : Shape []
  | data {more : List TokenKind} (rest : Shape more) : Shape (.data :: more)
  | tag {d : Delimiter} {inside more : List TokenKind}
      (expression : ∀ kind ∈ inside, kind.isExpression = true) (rest : Shape more) :
      Shape (.opening d :: (inside ++ .closing d :: more))

def kinds (ps : List Piece) : List TokenKind := ps.filterMap fun piece => piece.token.map Prod.fst

theorem kinds_append (ps qs : List Piece) : kinds (ps ++ qs) = kinds ps ++ kinds qs :=
  List.filterMap_append

theorem Located.kinds {earlier : List Char} {ps : List Piece} {tokens : List Token}
    (located : Located earlier ps tokens) : tokens.map Token.kind = kinds ps := by
  induction located with
  | nil => rfl
  | skipped _ ih => exact ih
  | token _ ih => exact congrArg (List.cons _) ih

theorem Piece.Inside.isExpression {piece : Piece} (inside : piece.Inside) :
    ∀ kind ∈ piece.token.map Prod.fst, kind.isExpression = true := by
  intro kind found
  cases inside <;> cases found <;> rfl

theorem Part.WellFormed.shape {part : Part} (wf : part.WellFormed) {more : List TokenKind}
    (rest : Shape more) : Shape (kinds part.pieces ++ more) := by
  cases wf with
  | text nonempty plain => exact .data rest
  | comment unclosed => exact rest
  | @verbatim kind opener content closer opens closes unclosed =>
      by_cases empty : content = []
      · simpa [Part.pieces, empty, Stencil.kinds, Piece.skipped] using rest
      · simpa [Part.pieces, empty, Stencil.kinds, Piece.skipped, Piece.plain] using Shape.data rest
  | @tag d inside pieces ordinary =>
      have expression : ∀ kind ∈ kinds inside, kind.isExpression = true := by
        intro kind mem
        obtain ⟨piece, mem, found⟩ := List.mem_filterMap.mp mem
        exact (pieces piece mem).isExpression kind found
      have shape := Shape.tag (d := d) expression rest
      simpa [Part.pieces, Stencil.kinds, Piece.plain] using shape

theorem shape_of_wellFormed {parts : List Part} (wf : ∀ part ∈ parts, part.WellFormed) :
    Shape (kinds (parts.flatMap Part.pieces)) := by
  induction parts with
  | nil => exact .nil
  | cons part parts ih =>
      rw [List.flatMap_cons, kinds_append]
      exact (wf part List.mem_cons_self).shape (ih fun other mem => wf other (.tail part mem))

/-- How tokens are read off a source: from parts that make it up, none of it being lost. -/
structure TokenStream.ReadOff (stream : TokenStream) (source : List Char) (parts : List Part) :
    Prop where
  wellFormed : ∀ part ∈ parts, part.WellFormed
  joined : parts.flatMap Part.chars = source
  located : Located [] (parts.flatMap Part.pieces) stream.tokens
  stop : stream.stop = .behind source
  shape : Shape (stream.tokens.map Token.kind)

/-- A source that has tokens is cut into parts; the tokens stand at the places of their pieces. -/
theorem TokenStream.parts_of_ofSource? {source : List Char} {stream : TokenStream}
    (accepted : ofSource? source = .ok stream) : ∃ parts : List Part,
      (∀ part ∈ parts, part.WellFormed) ∧ parts.flatMap Part.chars = source ∧
        Located [] (parts.flatMap Part.pieces) stream.tokens ∧ stream.stop = .behind source := by
  rcases cut : run .text source with ⟨ps, _ | fault⟩
  · have whole := run_reads (congrArg Prod.snd cut)
    rw [cut] at whole
    simp only [ofSource?, cut] at accepted
    cases accepted
    obtain ⟨parts, wf, rfl, rfl⟩ := whole
    refine ⟨parts, wf, rfl, located_place [] _, ?_⟩
    rw [place_stop, List.flatMap_assoc]
    exact (Pos.behind_append [] _).symm
  · simp only [ofSource?, cut] at accepted
    cases accepted

/-- A source that has tokens is made up of the parts they are read off from. -/
theorem TokenStream.readOff_of_ofSource? {source : List Char} {stream : TokenStream}
    (accepted : ofSource? source = .ok stream) : ∃ parts, stream.ReadOff source parts := by
  obtain ⟨parts, wf, joined, located, stop⟩ := parts_of_ofSource? accepted
  refine ⟨parts, wf, joined, located, stop, ?_⟩
  rw [located.kinds]
  exact shape_of_wellFormed wf

/-- A text, a comment over two lines, a verbatim text, and a tag with a string over two lines. -/
def partsSource : List Char :=
  "a\n\x7b# b\n #\x7d".toList ++
    ("\x7b% raw %\x7d\x7b\x7bc\x7d\x7d\x7b% endraw %\x7d\n ".toList ++
      "\x7b\x7b d ~\n\"e\\n\n\" \x7d\x7df".toList)

def partsStream : TokenStream where
  tokens :=
    [⟨.data, "a\n", ⟨1, 0⟩⟩, ⟨.data, "\x7b\x7bc\x7d\x7d", ⟨3, 12⟩⟩, ⟨.data, "\n ", ⟨3, 29⟩⟩,
      ⟨.opening .escaped, "\x7b\x7b", ⟨4, 1⟩⟩, ⟨.name, "d", ⟨4, 4⟩⟩, ⟨.symbol .tilde, "~", ⟨4, 6⟩⟩,
      ⟨.string, "e\n\n", ⟨5, 0⟩⟩, ⟨.closing .escaped, "\x7d\x7d", ⟨6, 2⟩⟩, ⟨.data, "f", ⟨6, 4⟩⟩]
  stop := ⟨6, 5⟩

theorem TokenStream.readOff_partsSource :
    ofSource? partsSource = .ok partsStream ∧ ∃ parts, partsStream.ReadOff partsSource parts := by
  have accepted : ofSource? partsSource = .ok partsStream := by decide +kernel
  exact ⟨accepted, readOff_of_ofSource? accepted⟩

namespace Pos

def Before (p q : Pos) : Prop := p.line < q.line ∨ p.line = q.line ∧ p.col < q.col

instance (p q : Pos) : Decidable (p.Before q) :=
  inferInstanceAs (Decidable (p.line < q.line ∨ p.line = q.line ∧ p.col < q.col))

variable {p q r : Pos}

theorem Before.trans (first : p.Before q) (second : q.Before r) : p.Before r := by
  unfold Before at *
  omega

theorem not_before_self (p : Pos) : ¬p.Before p := by
  unfold Before
  omega

theorem before_step (p : Pos) (c : Char) : p.Before (p.step c) := by
  unfold Before step
  split
  · exact .inl (Nat.lt_succ_self p.line)
  · exact .inr ⟨rfl, Nat.lt_succ_self p.col⟩

theorem before_advance (p : Pos) {cs : List Char} (nonempty : cs ≠ []) :
    p.Before (p.advance cs) := by
  induction cs generalizing p with
  | nil => exact absurd rfl nonempty
  | cons c cs ih =>
      rw [advance_cons]
      by_cases last : cs = []
      · rw [last, advance_nil]
        exact before_step p c
      · exact (before_step p c).trans (ih (p.step c) last)

theorem before_behind (earlier : List Char) {cs : List Char} (nonempty : cs ≠ []) :
    (behind earlier).Before (behind (earlier ++ cs)) := by
  rw [behind_append]
  exact before_advance _ nonempty

end Pos

/-! Pieces that stand for tokens are not empty. -/

def Piece.Solid (piece : Piece) : Prop := piece.token.isSome → piece.chars ≠ []

theorem Piece.solid_skipped (cs : List Char) : (Piece.skipped cs).Solid := nofun

theorem Piece.solid_plain {kind : TokenKind} {cs : List Char} (nonempty : cs ≠ []) :
    (Piece.plain kind cs).Solid := fun _ => nonempty

theorem Piece.Inside.solid {piece : Piece} (inside : piece.Inside) : piece.Solid := by
  intro _
  cases inside with
  | blanks nonempty _ => exact nonempty
  | word word =>
      rintro rfl
      cases word
  | integer numeral =>
      rintro rfl
      cases numeral
  | decimal first _ => simp [Piece.plain]
  | symbol s => cases s <;> exact List.cons_ne_nil _ _
  | string _ _ => exact List.cons_ne_nil _ _

theorem Part.WellFormed.solid {part : Part} (wf : part.WellFormed) :
    ∀ piece ∈ part.pieces, piece.Solid := by
  cases wf with
  | text nonempty _ => exact List.forall_mem_singleton.mpr (Piece.solid_plain nonempty)
  | comment _ => exact List.forall_mem_singleton.mpr (Piece.solid_skipped _)
  | verbatim _ _ _ =>
      refine List.forall_mem_cons.mpr ⟨Piece.solid_skipped _, List.forall_mem_append.mpr
        ⟨?_, List.forall_mem_singleton.mpr (Piece.solid_skipped _)⟩⟩
      split
      · exact nofun
      · next nonempty => exact List.forall_mem_singleton.mpr (Piece.solid_plain nonempty)
  | @tag d _ pieces _ =>
      have solid : d.opener ≠ [] ∧ d.closer ≠ [] := by cases d <;> decide
      exact List.forall_mem_cons.mpr ⟨Piece.solid_plain solid.1, List.forall_mem_append.mpr
        ⟨fun piece inTag => (pieces piece inTag).solid,
          List.forall_mem_singleton.mpr (Piece.solid_plain solid.2)⟩⟩

theorem Located.ordered {earlier : List Char} {ps : List Piece} {tokens : List Token}
    (located : Located earlier ps tokens) (solid : ∀ piece ∈ ps, piece.Solid) :
    tokens.Pairwise (fun t u => t.pos.Before u.pos) ∧
      ∀ t ∈ tokens, t.pos = .behind earlier ∨ (Pos.behind earlier).Before t.pos := by
  induction located with
  | nil => exact ⟨.nil, nofun⟩
  | @skipped earlier cs ps tokens _ ih =>
      obtain ⟨ordered, behind⟩ := ih fun piece member => solid piece (.tail _ member)
      refine ⟨ordered, fun t member => ?_⟩
      by_cases empty : cs = []
      · have atSame := behind t member
        rwa [empty, List.append_nil] at atSame
      · have before := Pos.before_behind earlier empty
        rcases behind t member with atEnd | further
        · rw [atEnd]
          exact .inr before
        · exact .inr (before.trans further)
  | @token earlier cs kind text ps tokens _ ih =>
      obtain ⟨ordered, behind⟩ := ih fun piece member => solid piece (.tail _ member)
      have before := Pos.before_behind earlier (solid _ List.mem_cons_self rfl)
      have after : ∀ t ∈ tokens, (Pos.behind earlier).Before t.pos := by
        intro t member
        rcases behind t member with atEnd | further
        · rw [atEnd]
          exact before
        · exact before.trans further
      refine ⟨List.pairwise_cons.mpr ⟨after, ordered⟩, ?_⟩
      exact List.forall_mem_cons.mpr ⟨.inl rfl, fun t member => .inr (after t member)⟩

/-- A source that has tokens is cut into pieces, and those that stand for tokens are not empty. -/
theorem TokenStream.pieces_of_ofSource? {source : List Char} {stream : TokenStream}
    (accepted : ofSource? source = .ok stream) : ∃ ps : List Piece,
      (∀ piece ∈ ps, piece.Solid) ∧ ps.flatMap Piece.chars = source ∧
        Located [] ps stream.tokens ∧ stream.stop = .behind source := by
  obtain ⟨parts, wf, joined, located, stop⟩ := parts_of_ofSource? accepted
  refine ⟨parts.flatMap Part.pieces, ?_, by rw [List.flatMap_assoc]; exact joined, located, stop⟩
  intro piece member
  obtain ⟨part, isPart, inPart⟩ := List.mem_flatMap.mp member
  exact (wf part isPart).solid piece inPart

theorem TokenStream.ordered_of_ofSource? {source : List Char} {stream : TokenStream}
    (accepted : ofSource? source = .ok stream) :
    stream.tokens.Pairwise fun t u => t.pos.Before u.pos := by
  obtain ⟨_, solid, _, located, _⟩ := pieces_of_ofSource? accepted
  exact (located.ordered solid).1

end Stencil
