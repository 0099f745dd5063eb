import Stencil.Proofs.Token.Segment

namespace Stencil

open Scan Text

/-- What an escape in a string means. Before any other character the backslash stands for itself. -/
inductive Escapes : Char → List Char → Prop
  | lineFeed : Escapes 'n' ['\n']
  | tab : Escapes 't' ['\t']
  | carriageReturn : Escapes 'r' ['\r']
  | itself {c : Char} (special : c ∈ ['\\', '\'', '"']) : Escapes c [c]
  | other {c : Char} (ordinary : c ∉ ['n', 't', 'r', '\\', '\'', '"']) : Escapes c ['\\', c]

/-- What may stand between two quotes, and what it means. -/
inductive Unescapes (quote : Char) : List Char → List Char → Prop
  | nil : Unescapes quote [] []
  | plain {c : Char} {cs value : List Char} (ordinary : c ≠ '\\' ∧ c ≠ quote)
      (more : Unescapes quote cs value) : Unescapes quote (c :: cs) (c :: value)
  | escape {c : Char} {cs meaning value : List Char} (escape : Escapes c meaning)
      (more : Unescapes quote cs value) : Unescapes quote ('\\' :: c :: cs) (meaning ++ value)

/-- The pieces between the delimiters of a tag. All but the strings are tokens as they stand. -/
inductive Piece.Inside : Piece → Prop
  | blanks {cs : List Char} (nonempty : cs ≠ []) (blank : cs.all isBlank = true) :
      Inside (.skipped cs)
  | word {cs : List Char} (word : isWord cs = true) : Inside (.plain .name cs)
  | integer {cs : List Char} (numeral : isNumeral cs = true) : Inside (.plain .integer cs)
  | decimal {whole fraction : List Char} (first : isNumeral whole = true)
      (second : isNumeral fraction = true) : Inside (.plain .decimal (whole ++ '.' :: fraction))
  | symbol (s : Symbol) : Inside (.plain (.symbol s) s.text)
  | string {quote : Char} {inside value : List Char} (either : quote = '"' ∨ quote = '\'')
      (means : Unescapes quote inside value) :
      Inside ⟨quote :: (inside ++ [quote]), some (.string, String.ofList value)⟩

/-- A statement tag that holds one word and may have blanks around it. -/
def IsWordTag (word cs : List Char) : Prop :=
  ∃ first second, first.all isBlank = true ∧ second.all isBlank = true ∧
    cs = '{' :: '%' :: (first ++ (word ++ (second ++ ['%', '}'])))

theorem IsWordTag.ne_nil {word tag : List Char} (written : IsWordTag word tag) : tag ≠ [] := by
  obtain ⟨first, second, blank, blank', rfl⟩ := written
  exact List.cons_ne_nil _ _

inductive Part
  | text (content : List Char)
  | comment (content : List Char)
  | verbatim (kind : Verbatim) (opener content closer : List Char)
  | tag (d : Delimiter) (inside : List Piece)

theorem Verbatim.solid (kind : Verbatim) :
    kind.word.toList.head?.any (fun c => !isBlank c) = true := by
  cases kind <;> decide

namespace Part

def pieces : Part → List Piece
  | text content => [.plain .data content]
  | comment content => [.skipped ('{' :: '#' :: (content ++ ['#', '}']))]
  | verbatim _ opener content closer =>
      .skipped opener ::
        ((if content = [] then [] else [.plain .data content]) ++ [.skipped closer])
  | tag d inside => .plain (.opening d) d.opener :: (inside ++ [.plain (.closing d) d.closer])

def chars (part : Part) : List Char := part.pieces.flatMap Piece.chars

/-- A part that ends where it says, and not before. -/
inductive WellFormed : Part → Prop
  | text {content : List Char} (nonempty : content ≠ [])
      (plain : ∀ c ∈ ['{', '!', '%', '#'], ¬['{', c] <:+: content) : WellFormed (.text content)
  | comment {content : List Char} (unclosed : ¬['#', '}'] <:+: content) :
      WellFormed (.comment content)
  | verbatim {kind : Verbatim} {opener content closer : List Char}
      (opens : IsWordTag kind.word.toList opener) (closes : IsWordTag (Segment.endWord kind) closer)
      (unclosed : ∀ tag, IsWordTag (Segment.endWord kind) tag → ¬tag <:+: content) :
      WellFormed (.verbatim kind opener content closer)
  | tag {d : Delimiter} {inside : List Piece} (pieces : ∀ piece ∈ inside, piece.Inside)
      (ordinary : ∀ kind : Verbatim, ¬IsWordTag kind.word.toList (Part.tag d inside).chars) :
      WellFormed (.tag d inside)

end Part

namespace Scan

/-! Where a part ends. -/

theorem splitAt?_ends {needle cs content rest : List Char} (solid : needle ≠ [])
    (found : splitAt? needle cs = some (content, rest)) : ¬needle <:+: content := by
  induction cs generalizing content with
  | nil =>
      obtain ⟨c, needle, rfl⟩ := List.exists_cons_of_ne_nil solid
      cases found
  | cons c cs ih =>
      rw [splitAt?] at found
      split at found
      · cases found
        exact fun inside => solid (List.infix_nil.mp inside)
      · next missed =>
          obtain ⟨⟨content, rest⟩, inner, same⟩ := Option.map_eq_some_iff.mp found
          cases same
          intro inside
          rcases List.infix_cons_iff.mp inside with ⟨more, begins⟩ | behind
          · rw [splitAt?_eq_some inner, List.append_assoc, ← List.cons_append, ← begins,
              List.append_assoc, dropBeginning?_append] at missed
            cases missed
          · exact ih inner behind

theorem isWordTag_of_wordTag? {word cs rest : List Char} (found : wordTag? word cs = some rest) :
    ∃ tag, IsWordTag word tag ∧ cs = tag ++ rest := by
  obtain ⟨first, second, blank, blank', written⟩ := wordTag?_eq_some found
  exact ⟨_, ⟨first, second, blank, blank', rfl⟩, written⟩

theorem wordTag?_of_isWordTag {word tag : List Char}
    (solid : word.head?.any (fun c => !isBlank c) = true) (written : IsWordTag word tag)
    (rest : List Char) : wordTag? word (tag ++ rest) = some rest := by
  obtain ⟨first, second, blank, blank', rfl⟩ := written
  exact wordTag?_blanks solid blank blank' rest

theorem splitAtWordTag?_eq_some {word cs content rest : List Char}
    (found : splitAtWordTag? word cs = some (content, rest)) :
    ∃ closer, IsWordTag word closer ∧ cs = content ++ (closer ++ rest) := by
  induction cs generalizing content with
  | nil => cases found
  | cons c cs ih =>
      rw [splitAtWordTag?] at found
      split at found
      · next tag =>
          cases found
          exact isWordTag_of_wordTag? tag
      · obtain ⟨⟨content, rest⟩, inner, same⟩ := Option.map_eq_some_iff.mp found
        cases same
        obtain ⟨closer, closes, rfl⟩ := ih inner
        exact ⟨closer, closes, rfl⟩

theorem splitAtWordTag?_ends {word cs content rest : List Char}
    (solid : word.head?.any (fun c => !isBlank c) = true)
    (found : splitAtWordTag? word cs = some (content, rest)) :
    ∀ tag, IsWordTag word tag → ¬tag <:+: content := by
  intro tag written
  induction cs generalizing content with
  | nil => cases found
  | cons c cs ih =>
      rw [splitAtWordTag?] at found
      split at found
      · cases found
        exact fun inside => written.ne_nil (List.infix_nil.mp inside)
      · next missed =>
          obtain ⟨⟨content, rest⟩, inner, same⟩ := Option.map_eq_some_iff.mp found
          cases same
          obtain ⟨closer, _, rfl⟩ := splitAtWordTag?_eq_some inner
          intro inside
          rcases List.infix_cons_iff.mp inside with ⟨more, begins⟩ | behind
          · rw [← List.cons_append, ← begins, List.append_assoc,
              wordTag?_of_isWordTag solid written] at missed
            cases missed
          · exact ih inner behind

theorem verbatimTag?_eq_some {cs word inside : List Char}
    (found : verbatimTag? cs = some (word, inside)) :
    ∃ (kind : Verbatim) (opener : List Char), word = kind.word.toList ∧
      IsWordTag kind.word.toList opener ∧ cs = opener ++ inside := by
  unfold verbatimTag? at found
  split at found
  · next tag =>
      cases found
      obtain ⟨opener, opens, whole⟩ := isWordTag_of_wordTag? tag
      exact ⟨.verbatim, opener, rfl, opens, whole⟩
  · obtain ⟨rest, tag, same⟩ := Option.map_eq_some_iff.mp found
    cases same
    obtain ⟨opener, opens, whole⟩ := isWordTag_of_wordTag? tag
    exact ⟨.raw, opener, rfl, opens, whole⟩

theorem verbatimTag?_eq_none {tag rest : List Char} (missed : verbatimTag? (tag ++ rest) = none)
    (kind : Verbatim) : ¬IsWordTag kind.word.toList tag := by
  intro written
  have found := wordTag?_of_isWordTag kind.solid written rest
  unfold verbatimTag? at missed
  split at missed
  · cases missed
  · next other =>
      cases kind with
      | verbatim => cases other.symm.trans found
      | raw =>
          rw [Option.map_eq_none_iff] at missed
          cases missed.symm.trans found

/-! What a step reads inside a tag. -/

theorem escapes_unescape (c : Char) : Escapes c (unescape c) := by
  unfold unescape
  split
  · exact .lineFeed
  · exact .tab
  · exact .carriageReturn
  · exact .itself (by decide)
  · exact .itself (by decide)
  · exact .itself (by decide)
  · exact .other (by simp_all)

theorem quoted?_eq_some {quote : Char} {cs value rest : List Char}
    (found : quoted? quote cs = some (value, rest)) :
    ∃ inside, Unescapes quote inside value ∧ cs = inside ++ quote :: rest := by
  fun_induction quoted? quote cs generalizing value with
  | case1 => cases found
  | case2 c cs ih =>
      obtain ⟨⟨value, rest⟩, inner, same⟩ := Option.map_eq_some_iff.mp found
      cases same
      obtain ⟨inside, means, rfl⟩ := ih inner
      exact ⟨_, .escape (escapes_unescape c) means, rfl⟩
  | case3 cs _ =>
      cases found
      exact ⟨[], .nil, rfl⟩
  | case4 c cs lone other ih =>
      obtain ⟨⟨value, rest⟩, inner, same⟩ := Option.map_eq_some_iff.mp found
      cases same
      obtain ⟨inside, means, rfl⟩ := ih inner
      refine ⟨_, .plain ⟨?_, other⟩ means, rfl⟩
      rintro rfl
      cases inside with
      | nil => exact lone _ _ rfl rfl
      | cons next inside => exact lone _ _ rfl rfl

theorem isNumeral_takeWhile {c : Char} (digit : isDigit c = true) (cs : List Char) :
    isNumeral ((c :: cs).takeWhile isDigit) = true := by
  rw [List.takeWhile_cons_of_pos digit, isNumeral, digit, List.all_takeWhile]
  rfl

theorem isWord_takeWhile {c : Char} (start : isNameStart c = true) (cs : List Char) :
    isWord ((c :: cs).takeWhile isNamePart) = true := by
  have part : isNamePart c = true := by simp [isNamePart, start]
  rw [List.takeWhile_cons_of_pos part, isWord, start, List.all_takeWhile]
  rfl

theorem number_inside {c : Char} (digit : isDigit c = true) (cs : List Char) :
    (Piece.plain (number (c :: cs)).1 (number (c :: cs)).2).Inside ∧
      (number (c :: cs)).2 <+: c :: cs := by
  have whole := List.takeWhile_append_dropWhile (p := isDigit) (l := c :: cs)
  unfold number
  split
  · next next rest point =>
      rw [point] at whole
      split
      · next fraction =>
          refine ⟨.decimal (isNumeral_takeWhile digit cs) (isNumeral_takeWhile fraction rest),
            (next :: rest).dropWhile isDigit, ?_⟩
          rw [List.append_assoc, List.cons_append, List.takeWhile_append_dropWhile, whole]
      · exact ⟨.integer (isNumeral_takeWhile digit cs), List.takeWhile_prefix _⟩
  · exact ⟨.integer (isNumeral_takeWhile digit cs), List.takeWhile_prefix _⟩

theorem text_of_ofPair? {c next : Char} {s : Symbol} (found : Symbol.ofPair? c next = some s) :
    s.text = [c, next] := by
  unfold Symbol.ofPair? at found
  split at found <;> cases found <;> rfl

theorem text_of_ofChar? {c : Char} {s : Symbol} (found : Symbol.ofChar? c = some s) :
    s.text = [c] := by
  unfold Symbol.ofChar? at found
  split at found <;> cases found <;> rfl

theorem tokenStep_inside {d : Delimiter} {braces : Int} {c : Char} {cs rest : List Char}
    {ps : List Piece} {mode : Mode} (read : tokenStep d braces c cs = .pieces ps mode rest) :
    ∃ (piece : Piece) (braces' : Int), piece.Inside ∧ ps = [piece] ∧ mode = .tag d braces' ∧
      c :: cs = piece.chars ++ rest := by
  unfold tokenStep at read
  split at read
  · next either =>
      split at read
      · cases read
      · next value rest' found =>
          cases read
          obtain ⟨inside, means, rfl⟩ := quoted?_eq_some found
          have covered := before_append (c :: (inside ++ [c])) rest
          rw [List.cons_append, List.append_assoc, List.singleton_append] at covered
          refine ⟨_, braces, .string either means, ?_, rfl, ?_⟩
          · rw [upTo, covered]
          · simp
  · split at read
    · next digit =>
        simp only [Step.pieces.injEq] at read
        obtain ⟨rfl, rfl, rfl⟩ := read
        obtain ⟨inside, begins⟩ := number_inside digit cs
        exact ⟨_, braces, inside, rfl, rfl, (List.prefix_iff_eq_append.mp begins).symm⟩
    · split at read
      · next start =>
          cases read
          exact ⟨_, braces, .word (isWord_takeWhile start cs), rfl, rfl,
            List.takeWhile_append_dropWhile.symm⟩
      · split at read
        · next s found =>
            cases read
            obtain ⟨next, head, pair⟩ := Option.bind_eq_some_iff.mp found
            obtain ⟨cs, rfl⟩ := List.head?_eq_some_iff.mp head
            refine ⟨_, braces, .symbol s, rfl, rfl, ?_⟩
            simp [Piece.plain, text_of_ofPair? pair]
        · split at read
          · next s found =>
              cases read
              refine ⟨_, _, .symbol s, rfl, rfl, ?_⟩
              simp [Piece.plain, text_of_ofChar? found]
          · cases read

/-! What is read from a mode on, up to the end of the source. -/

def PartsOf (cs : List Char) (ps : List Piece) : Prop :=
  ∃ parts : List Part, (∀ part ∈ parts, part.WellFormed) ∧ cs = parts.flatMap Part.chars ∧
    ps = parts.flatMap Part.pieces

def RestOf (d : Delimiter) (cs : List Char) (ps : List Piece) : Prop :=
  ∃ (inside : List Piece) (behind : List Char) (qs : List Piece),
    (∀ piece ∈ inside, piece.Inside) ∧ PartsOf behind qs ∧
    cs = inside.flatMap Piece.chars ++ (d.closer ++ behind) ∧
    ps = inside ++ .plain (.closing d) d.closer :: qs

def Mode.Reads : Mode → List Char → List Piece → Prop
  | .text => PartsOf
  | .tag d _ => RestOf d

namespace PartsOf

theorem nil : PartsOf [] [] := ⟨[], by simp, rfl, rfl⟩

theorem cons {part : Part} {cs : List Char} {ps : List Piece} (wf : part.WellFormed)
    (more : PartsOf cs ps) : PartsOf (part.chars ++ cs) (part.pieces ++ ps) := by
  obtain ⟨parts, each, rfl, rfl⟩ := more
  refine ⟨part :: parts, ?_, rfl, rfl⟩
  rintro other (_ | ⟨_, mem⟩)
  · exact wf
  · exact each other mem

theorem tag {d : Delimiter} {cs : List Char} {ps : List Piece}
    (ordinary : verbatimTag? (d.opener ++ cs) = none) (rest : RestOf d cs ps) :
    PartsOf (d.opener ++ cs) (.plain (.opening d) d.opener :: ps) := by
  obtain ⟨inside, behind, qs, each, more, rfl, rfl⟩ := rest
  have whole : d.opener ++ (inside.flatMap Piece.chars ++ (d.closer ++ behind)) =
      (Part.tag d inside).chars ++ behind := by
    simp [Part.chars, Part.pieces, Piece.plain]
  rw [whole] at ordinary ⊢
  have read := more.cons (.tag each (verbatimTag?_eq_none ordinary))
  simpa [Part.pieces] using read

end PartsOf

theorem RestOf.cons {d : Delimiter} {piece : Piece} {cs : List Char} {ps : List Piece}
    (inside : piece.Inside) (more : RestOf d cs ps) :
    RestOf d (piece.chars ++ cs) (piece :: ps) := by
  obtain ⟨pieces, behind, qs, each, parts, rfl, rfl⟩ := more
  refine ⟨piece :: pieces, behind, qs, ?_, parts, by simp, rfl⟩
  rintro other (_ | ⟨_, mem⟩)
  · exact inside
  · exact each other mem

theorem verbatimTag?_opener {d : Delimiter} (other : d ≠ .statement) (cs : List Char) :
    verbatimTag? (d.opener ++ cs) = none := by
  cases d with
  | escaped => rfl
  | raw => rfl
  | statement => exact absurd rfl other

/-- A verbatim text is one part: its tags are passed over, and it is a token unless it is empty. -/
theorem PartsOf.verbatim {cs word inside content rest : List Char} {ps : List Piece}
    (tag : verbatimTag? cs = some (word, inside))
    (close : splitAtWordTag? ("end".toList ++ word) inside = some (content, rest))
    (more : PartsOf rest ps) :
    PartsOf cs
      (.skipped (before cs inside) ::
        ((if content = [] then [] else [.plain .data content]) ++
          .skipped (before (inside.drop content.length) rest) :: ps)) := by
  obtain ⟨kind, opener, rfl, opens, rfl⟩ := verbatimTag?_eq_some tag
  have solid : (Segment.endWord kind).head?.any (fun c => !isBlank c) = true := by
    cases kind <;> decide
  have ends := splitAtWordTag?_ends solid close
  obtain ⟨closer, closes, rfl⟩ := splitAtWordTag?_eq_some close
  have read := more.cons (.verbatim opens closes ends)
  have whole : (Part.verbatim kind opener content closer).chars =
      opener ++ (content ++ closer) := by
    cases content <;> simp [Part.chars, Part.pieces, Piece.skipped, Piece.plain]
  rw [whole] at read
  simpa [Part.pieces, before_append] using read

theorem tagStep_reads {cs rest : List Char} {ps qs : List Piece} {mode : Mode}
    (read : tagStep cs = .pieces ps mode rest) (more : mode.Reads rest qs) :
    PartsOf cs (ps ++ qs) := by
  unfold tagStep at read
  split at read
  · next inside =>
      split at read
      · cases read
      · next content rest' found =>
          cases read
          have ends := splitAt?_ends (List.cons_ne_nil _ _) found
          obtain rfl := splitAt?_eq_some found
          have part := PartsOf.cons (.comment ends) more
          have covered : before ('{' :: '#' :: (content ++ ['#', '}'] ++ rest)) rest =
              '{' :: '#' :: (content ++ ['#', '}']) :=
            before_append ('{' :: '#' :: (content ++ ['#', '}'])) rest
          simp only [Part.chars, Part.pieces, Piece.skipped, List.flatMap_singleton] at part
          rw [covered]
          exact part
  · cases read
    exact .tag (verbatimTag?_opener (by decide) _) more
  · cases read
    exact .tag (verbatimTag?_opener (by decide) _) more
  · split at read
    · next ordinary =>
        cases read
        exact .tag ordinary more
    · next tag =>
        split at read
        · cases read
        · next close =>
            split at read
            · next empty =>
                cases read
                simpa [empty] using PartsOf.verbatim tag close more
            · next content =>
                cases read
                simpa [content] using PartsOf.verbatim tag close more
  · cases read

theorem textStep_reads {cs rest : List Char} {ps qs : List Piece} {mode : Mode}
    (read : textStep cs = .pieces ps mode rest) (more : mode.Reads rest qs) :
    PartsOf cs (ps ++ qs) := by
  unfold textStep at read
  split at read
  · cases read
  · next nonempty =>
      split at read
      · exact tagStep_reads read more
      · next closed =>
          cases read
          have content : (splitText cs).1 ≠ [] := by
            obtain ⟨c, cs, rfl⟩ := List.exists_cons_of_ne_nil nonempty
            rw [splitText, if_neg closed]
            exact List.cons_ne_nil _ _
          have part := PartsOf.cons (.text content (splitText_ends cs)) more
          have whole := splitText_append cs
          simp only [Part.chars, Part.pieces, Piece.plain, List.flatMap_singleton] at part
          rwa [whole] at part

theorem insideStep_reads {d : Delimiter} {braces : Int} {cs rest : List Char} {ps qs : List Piece}
    {mode : Mode} (read : insideStep d braces cs = .pieces ps mode rest)
    (more : mode.Reads rest qs) : RestOf d cs (ps ++ qs) := by
  unfold insideStep at read
  split at read
  · cases read
  · next c cs =>
      split at read
      · next blank =>
          cases read
          have blanks : (Piece.skipped ((c :: cs).takeWhile isBlank)).Inside :=
            .blanks (by simp [blank]) List.all_takeWhile
          have read := RestOf.cons blanks more
          rwa [Piece.skipped, List.takeWhile_append_dropWhile] at read
      · split at read
        · next after closed =>
            cases read
            split at closed
            · have whole := dropBeginning?_eq_some closed
              exact ⟨[], rest, qs, by simp, more, whole, rfl⟩
            · cases closed
        · obtain ⟨piece, braces', inside, rfl, rfl, whole⟩ := tokenStep_inside read
          rw [whole]
          exact RestOf.cons inside more

theorem step_reads {mode mode' : Mode} {cs rest : List Char} {ps qs : List Piece}
    (read : step mode cs = .pieces ps mode' rest) (more : mode'.Reads rest qs) :
    mode.Reads cs (ps ++ qs) := by
  cases mode with
  | text => exact textStep_reads read more
  | tag d braces => exact insideStep_reads read more

theorem tokenStep_ne_finished (d : Delimiter) (braces : Int) (c : Char) (cs : List Char) :
    tokenStep d braces c cs ≠ .finished := by
  unfold tokenStep
  split
  · split <;> simp
  · split
    · simp
    · split
      · simp
      · split
        · simp
        · split <;> simp

theorem insideStep_ne_finished (d : Delimiter) (braces : Int) (cs : List Char) :
    insideStep d braces cs ≠ .finished := by
  unfold insideStep
  split
  · simp
  · split
    · simp
    · split
      · simp
      · exact tokenStep_ne_finished d braces _ _

theorem tagStep_ne_finished {cs : List Char} (opens : opensTag cs = true) :
    tagStep cs ≠ .finished := by
  unfold tagStep
  split
  · split <;> simp
  · simp
  · simp
  · split
    · simp
    · split
      · simp
      · dsimp only
        split <;> simp
  · next comment escaped raw statement =>
      rcases cs with _ | ⟨first, _ | ⟨second, cs⟩⟩
      · cases opens
      · simp [opensTag] at opens
      · obtain ⟨rfl, kind⟩ := opensTag_iff.mp opens
        simp only [List.mem_cons, List.not_mem_nil, or_false] at kind
        rcases kind with rfl | rfl | rfl | rfl
        · exact absurd rfl (escaped cs)
        · exact absurd rfl (raw cs)
        · exact absurd rfl (statement cs)
        · exact absurd rfl (comment cs)

theorem reads_of_finished {mode : Mode} {cs : List Char} (read : step mode cs = .finished) :
    mode.Reads cs [] := by
  cases mode with
  | text =>
      rw [step, textStep] at read
      split at read
      · next empty =>
          rw [empty]
          exact .nil
      · split at read
        · next opens => exact absurd read (tagStep_ne_finished opens)
        · cases read
  | tag d braces => exact absurd read (insideStep_ne_finished d braces cs)

theorem run_reads {mode : Mode} {cs : List Char} (read : (run mode cs).2 = none) :
    mode.Reads cs (run mode cs).1 := by
  fun_induction run mode cs with
  | case1 mode cs finished => exact reads_of_finished finished
  | case2 => cases read
  | case3 mode cs ps mode' rest taken _ ih => exact step_reads taken (ih read)

end Scan

end Stencil
