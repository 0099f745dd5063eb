import Mathlib.Data.List.Chain
import Mathlib.Data.List.Infix
import Stencil.Grammar.Fault
import Stencil.Proofs.Grammar.Printed

namespace Stencil

open Scan Text

/-- The word of the tags around a verbatim text. -/
inductive Verbatim
  | verbatim
  | raw
  deriving DecidableEq, Repr

def Verbatim.word : Verbatim → String
  | verbatim => "verbatim"
  | raw => "raw"

inductive Segment
  | text (value : String)
  | comment (content : String)
  | verbatim (kind : Verbatim) (content : String)
  | tag (d : Delimiter) (inside : List Lexeme)
  deriving DecidableEq, Repr

namespace Segment

def wordTag (word : List Char) : List Char := '{' :: '%' :: ' ' :: (word ++ [' ', '%', '}'])

def endWord (kind : Verbatim) : List Char := "end".toList ++ kind.word.toList

def chars : Segment → List Char
  | text value => value.toList
  | comment content => '{' :: '#' :: (content.toList ++ ['#', '}'])
  | verbatim kind content => wordTag kind.word.toList ++ (content.toList ++ wordTag (endWord kind))
  | tag d inside => d.opener ++ ((inside.flatMap fun l => ' ' :: l.chars) ++ ' ' :: d.closer)

def lexemes : Segment → List Lexeme
  | text value => [(.data, value)]
  | comment _ => []
  | verbatim _ content => if content = "" then [] else [(.data, content)]
  | tag d inside => Lexeme.tag d inside

def isText : Segment → Bool
  | text _ => true
  | _ => false

/-- A segment that does not end before its last character. -/
inductive WellFormed : Segment → Prop
  | text {value : String} (nonempty : value ≠ "")
      (plain : ∀ c ∈ ['{', '!', '%', '#'], ¬['{', c] <:+: value.toList) : WellFormed (.text value)
  | comment {content : String} (unclosed : ¬['#', '}'] <:+: content.toList) :
      WellFormed (.comment content)
  | verbatim {kind : Verbatim} {content : String}
      (unclosed : ∀ first second : List Char, first.all isBlank = true → second.all isBlank = true →
        ¬ '{' :: '%' :: (first ++ (endWord kind ++ (second ++ ['%', '}']))) <:+: content.toList) :
      WellFormed (.verbatim kind content)
  | tag {d : Delimiter} {inside : List Lexeme} (printable : Lexeme.Printable inside)
      (keyword : d = .statement → ∃ word more, inside = Lexeme.word word :: more ∧
        word ∈ statementKeywords ++ continuationKeywords) : WellFormed (.tag d inside)

/-- A text is not followed by another one, nor does its last character open what follows. -/
def Apart (first second : Segment) : Prop :=
  first.isText = true → second.isText = false ∧ first.chars.getLast? ≠ some '{'

instance : DecidableRel Apart := fun first second =>
  inferInstanceAs (Decidable
    (first.isText = true → second.isText = false ∧ first.chars.getLast? ≠ some '{'))

end Segment

namespace Scan

/-! Where the end of a segment is found. -/

/-- A pattern that holds `y` at most as its first character does not reach past `y`. -/
theorem prefix_of_append {p c y : Char} {ps cs ts rest : List Char} (fresh : y ∉ ps)
    (found : (c :: cs) ++ y :: ts = (p :: ps) ++ rest) : p :: ps <+: c :: cs := by
  rcases List.append_eq_append_iff.mp found with ⟨more, longer, split⟩ | ⟨more, shorter, _⟩
  · cases more with
    | nil => exact ⟨[], by rw [longer, List.append_nil, List.append_nil]⟩
    | cons x more =>
        obtain ⟨rfl, _⟩ := List.cons.inj split
        obtain ⟨_, behind⟩ := List.cons.inj longer
        exact absurd (behind ▸ List.mem_append_right cs List.mem_cons_self) fresh
  · exact ⟨more, shorter.symm⟩

theorem not_infix_of_cons {p cs : List Char} {c : Char} (apart : ¬p <:+: c :: cs) : ¬p <:+: cs :=
  fun found => apart (found.trans (List.suffix_cons c cs).isInfix)

theorem splitAt?_close {content : List Char} (unclosed : ¬['#', '}'] <:+: content)
    (rest : List Char) :
    splitAt? ['#', '}'] (content ++ '#' :: '}' :: rest) = some (content, rest) := by
  induction content with
  | nil => rfl
  | cons c cs ih =>
      have missed : dropBeginning? ['#', '}'] ((c :: cs) ++ '#' :: '}' :: rest) = none := by
        refine Option.eq_none_iff_forall_ne_some.mpr fun after found => ?_
        have split := dropBeginning?_eq_some found
        exact unclosed (prefix_of_append (by decide) split).isInfix
      rw [List.cons_append, splitAt?]
      rw [List.cons_append] at missed
      rw [missed, ih (not_infix_of_cons unclosed)]
      rfl

theorem dropBeginning?_blanks {p cs rest : List Char}
    (found : dropBeginning? p (cs.dropWhile isBlank) = some rest) :
    ∃ blanks, blanks.all isBlank = true ∧ cs = blanks ++ (p ++ rest) := by
  refine ⟨cs.takeWhile isBlank, List.all_takeWhile, ?_⟩
  rw [← dropBeginning?_eq_some found, List.takeWhile_append_dropWhile]

theorem wordTag?_eq_some {word cs rest : List Char} (found : wordTag? word cs = some rest) :
    ∃ first second, first.all isBlank = true ∧ second.all isBlank = true ∧
      cs = '{' :: '%' :: (first ++ (word ++ (second ++ ['%', '}']))) ++ rest := by
  simp only [wordTag?, Option.bind_eq_bind, Option.bind_eq_some_iff] at found
  obtain ⟨inside, opener, behind, beginning, closer⟩ := found
  obtain ⟨first, blank, rfl⟩ := dropBeginning?_blanks beginning
  obtain ⟨second, blank', rfl⟩ := dropBeginning?_blanks closer
  refine ⟨first, second, blank, blank', ?_⟩
  rw [dropBeginning?_eq_some opener]
  simp

theorem wordTag?_blanks {word first second : List Char}
    (solid : word.head?.any (fun c => !isBlank c) = true) (blank : first.all isBlank = true)
    (blank' : second.all isBlank = true) (rest : List Char) :
    wordTag? word ('{' :: '%' :: (first ++ (word ++ (second ++ ['%', '}']))) ++ rest) =
      some rest := by
  cases word with
  | nil => cases solid
  | cons c word =>
      have solid : isBlank c = false := by simpa using solid
      have percent : isBlank '%' = false := by decide
      rw [List.all_eq_true] at blank blank'
      simp [wordTag?, dropBeginning?_append, dropBeginning?,
        List.dropWhile_append_of_pos blank, List.dropWhile_append_of_pos blank', solid, percent]

theorem wordTag?_wordTag {word : List Char}
    (solid : word.head?.any (fun c => !isBlank c) = true) (rest : List Char) :
    wordTag? word (Segment.wordTag word ++ rest) = some rest := by
  have blank : [' '].all isBlank = true := by decide
  exact wordTag?_blanks solid blank blank rest

theorem splitAtWordTag?_close {kind : Verbatim} {content : List Char}
    (unclosed : ∀ first second : List Char, first.all isBlank = true → second.all isBlank = true →
      ¬ '{' :: '%' :: (first ++ (Segment.endWord kind ++ (second ++ ['%', '}']))) <:+: content)
    (rest : List Char) :
    splitAtWordTag? (Segment.endWord kind)
      (content ++ (Segment.wordTag (Segment.endWord kind) ++ rest)) = some (content, rest) := by
  have closing : wordTag? (Segment.endWord kind) (Segment.wordTag (Segment.endWord kind) ++ rest) =
      some rest := by
    cases kind <;> exact wordTag?_wordTag (by decide) rest
  have plain : '{' ∉ Segment.endWord kind := by cases kind <;> decide
  have solid : ∀ blanks : List Char, blanks.all isBlank = true → '{' ∉ blanks := by
    intro blanks blank mem
    exact absurd (List.all_eq_true.mp blank _ mem) (by decide)
  induction content with
  | nil =>
      rw [List.nil_append]
      rw [Segment.wordTag, List.cons_append] at closing ⊢
      rw [splitAtWordTag?, closing]
  | cons c cs ih =>
      have missed : wordTag? (Segment.endWord kind)
          ((c :: cs) ++ (Segment.wordTag (Segment.endWord kind) ++ rest)) = none := by
        refine Option.eq_none_iff_forall_ne_some.mpr fun after found => ?_
        obtain ⟨first, second, blank, blank', split⟩ := wordTag?_eq_some found
        rw [Segment.wordTag, List.cons_append] at split
        have fresh : '{' ∉ '%' :: (first ++ (Segment.endWord kind ++ (second ++ ['%', '}']))) := by
          simp [plain, solid first blank, solid second blank']
        exact unclosed first second blank blank' (prefix_of_append fresh split).isInfix
      rw [List.cons_append, splitAtWordTag?]
      rw [List.cons_append] at missed
      rw [missed, ih fun first second blank blank' =>
        not_infix_of_cons (unclosed first second blank blank')]
      rfl

/-! The steps that cut segments off. -/

theorem opensTag_iff {c d : Char} {cs : List Char} :
    opensTag (c :: d :: cs) = true ↔ c = '{' ∧ d ∈ ['{', '!', '%', '#'] := by
  by_cases brace : c = '{'
  · subst brace
    simp [opensTag, or_assoc]
  · simp [opensTag, brace]

theorem splitText_plain {value : List Char}
    (plain : ∀ c ∈ ['{', '!', '%', '#'], ¬['{', c] <:+: value) {rest : List Char}
    (follows : rest = [] ∨ opensTag rest = true ∧ value.getLast? ≠ some '{') :
    splitText (value ++ rest) = (value, rest) := by
  induction value with
  | nil =>
      cases rest with
      | nil => rfl
      | cons c cs =>
          rcases follows with empty | ⟨opens, _⟩
          · cases empty
          · rw [List.nil_append, splitText, if_pos opens]
  | cons c cs ih =>
      have closed : opensTag (c :: (cs ++ rest)) = false := by
        rw [← Bool.not_eq_true]
        intro opens
        cases cs with
        | nil =>
            cases rest with
            | nil => simp [opensTag] at opens
            | cons d rest =>
                obtain ⟨rfl, _⟩ := opensTag_iff.mp opens
                rcases follows with empty | ⟨_, last⟩
                · cases empty
                · exact last rfl
        | cons d cs =>
            obtain ⟨rfl, mem⟩ := opensTag_iff.mp opens
            exact plain d mem ⟨[], cs, rfl⟩
      have inner : splitText (cs ++ rest) = (cs, rest) := by
        refine ih (fun d mem => not_infix_of_cons (plain d mem)) (follows.imp_right ?_)
        rintro ⟨opens, last⟩
        refine ⟨opens, fun ends => last ?_⟩
        simp [List.getLast?_cons, ends]
      rw [List.cons_append, splitText, if_neg (by simp [closed]), inner]

theorem splitText_ends (cs : List Char) :
    ∀ c ∈ ['{', '!', '%', '#'], ¬['{', c] <:+: (splitText cs).1 := by
  induction cs with
  | nil => simp [splitText]
  | cons first cs ih =>
      intro c mem found
      rw [splitText] at found
      split at found
      · cases List.infix_nil.mp found
      · next closed =>
          rcases List.infix_cons_iff.mp found with ⟨more, begins⟩ | behind
          · obtain ⟨rfl, behind⟩ := List.cons.inj begins
            have whole := splitText_append cs
            rw [← behind] at whole
            exact closed (whole ▸ opensTag_iff.mpr ⟨rfl, mem⟩)
          · exact ih c mem behind

theorem plain_of_splitText {value : List Char} (whole : (splitText value).2 = []) :
    ∀ c ∈ ['{', '!', '%', '#'], ¬['{', c] <:+: value := by
  have ends := splitText_ends value
  have same := splitText_append value
  rw [whole, List.append_nil] at same
  rwa [same] at ends

theorem verbatimTag?_of_ne {c : Char} (solid : isBlank c = false) (other : c ≠ 'v' ∧ c ≠ 'r')
    (cs : List Char) : verbatimTag? ('{' :: '%' :: ' ' :: c :: cs) = none := by
  have blank : isBlank ' ' = true := by decide
  simp [verbatimTag?, wordTag?, dropBeginning?, blank, solid, other.1.symm, other.2.symm]

theorem verbatimTag?_blanks (kind : Verbatim) {first second : List Char}
    (blank : first.all isBlank = true) (blank' : second.all isBlank = true) (rest : List Char) :
    verbatimTag? ('{' :: '%' :: (first ++ (kind.word.toList ++ (second ++ ['%', '}']))) ++ rest) =
      some (kind.word.toList, rest) := by
  have found := wordTag?_blanks (by cases kind <;> decide : kind.word.toList.head?.any
    (fun c => !isBlank c) = true) blank blank' rest
  cases kind with
  | verbatim =>
      unfold verbatimTag?
      simp only [Verbatim.word] at found ⊢
      simp only [found]
  | raw =>
      have solid : isBlank 'r' = false := by decide
      have missed : wordTag? "verbatim".toList
          ('{' :: '%' :: (first ++ ("raw".toList ++ (second ++ ['%', '}']))) ++ rest) = none := by
        simp [wordTag?, dropBeginning?, List.dropWhile_append_of_pos (List.all_eq_true.mp blank),
          solid]
      unfold verbatimTag?
      simp only [Verbatim.word] at found ⊢
      simp only [missed, found, Option.map_some]

theorem verbatimTag?_wordTag (kind : Verbatim) (rest : List Char) :
    verbatimTag? (Segment.wordTag kind.word.toList ++ rest) = some (kind.word.toList, rest) := by
  have blank : [' '].all isBlank = true := by decide
  exact verbatimTag?_blanks kind blank blank rest

end Scan

namespace Segment

open Lexeme

theorem opensTag_chars {s : Segment} (tag : s.isText = false) (rest : List Char) :
    opensTag (s.chars ++ rest) = true := by
  cases s with
  | text value => cases tag
  | comment content => rfl
  | verbatim kind content => rfl
  | tag d inside => cases d <;> rfl

theorem keyword_head {word : String} (mem : word ∈ statementKeywords ++ continuationKeywords) :
    ∃ c cs, word.toList = c :: cs ∧ isBlank c = false ∧ c ≠ 'v' ∧ c ≠ 'r' := by
  have each : ∀ word ∈ statementKeywords ++ continuationKeywords,
      word.toList.head?.any (fun c => !isBlank c && c != 'v' && c != 'r') = true := by decide
  have first := each word mem
  cases written : word.toList with
  | nil => simp [written] at first
  | cons c cs => exact ⟨c, cs, rfl, by simpa [written, and_assoc] using first⟩

theorem step_text {value rest : List Char} (nonempty : value ≠ [])
    (split : splitText (value ++ rest) = (value, rest)) :
    step .text (value ++ rest) = .pieces [.plain .data value] .text rest := by
  obtain ⟨c, cs, rfl⟩ := List.exists_cons_of_ne_nil nonempty
  have closed : opensTag (c :: (cs ++ rest)) = false := by
    rw [← Bool.not_eq_true]
    intro opens
    rw [List.cons_append, splitText, if_pos opens] at split
    cases split
  rw [List.cons_append] at split ⊢
  rw [step, textStep, if_neg (List.cons_ne_nil _ _), if_neg (by simp [closed]), split]

theorem step_comment {content : List Char} (unclosed : ¬['#', '}'] <:+: content)
    (rest : List Char) :
    step .text ('{' :: '#' :: (content ++ '#' :: '}' :: rest)) =
      .pieces [.skipped (before ('{' :: '#' :: (content ++ '#' :: '}' :: rest)) rest)] .text
        rest := by
  simp [step, textStep, opensTag, tagStep, splitAt?_close unclosed]

theorem step_verbatim {cs word inside content rest : List Char}
    (opens : ∃ more, cs = '{' :: '%' :: more) (tag : verbatimTag? cs = some (word, inside))
    (close : splitAtWordTag? ("end".toList ++ word) inside = some (content, rest)) :
    ∃ ps, step .text cs = .pieces ps .text rest ∧
      ps.filterMap Piece.token =
        if content = [] then [] else [(.data, String.ofList content)] := by
  obtain ⟨more, rfl⟩ := opens
  have read : ∃ opener closer, step .text ('{' :: '%' :: more) =
      if content = [] then .pieces [.skipped opener, .skipped closer] .text rest
      else .pieces [.skipped opener, .plain .data content, .skipped closer] .text rest := by
    simp only [step, textStep, opensTag, tagStep, tag, close]
    exact ⟨_, _, rfl⟩
  obtain ⟨opener, closer, read⟩ := read
  rw [read]
  split
  · exact ⟨_, rfl, rfl⟩
  · exact ⟨_, rfl, rfl⟩

theorem WellFormed.cuts {s : Segment} (wf : s.WellFormed) {rest : List Char}
    (follows : s.isText = true → rest = [] ∨ opensTag rest = true ∧ s.chars.getLast? ≠ some '{') :
    Cuts .text (s.chars ++ rest) s.lexemes .text rest := by
  cases wf with
  | @text value nonempty plain =>
      have read := step_text (by simpa using nonempty) (splitText_plain plain (follows rfl))
      simpa [Piece.plain, lexemes, chars] using Cuts.of_step read
  | @comment content unclosed =>
      simpa [Piece.skipped, lexemes, chars] using Cuts.of_step (step_comment unclosed rest)
  | @verbatim kind content unclosed =>
      have opens : ∃ more, wordTag kind.word.toList ++
          (content.toList ++ (wordTag (endWord kind) ++ rest)) = '{' :: '%' :: more := ⟨_, rfl⟩
      obtain ⟨ps, read, cut⟩ := step_verbatim opens (verbatimTag?_wordTag kind _)
        (splitAtWordTag?_close unclosed rest)
      have result := Cuts.of_step read
      rw [cut] at result
      simpa [lexemes, chars] using result
  | @tag d inside printable keyword =>
      have ordinary : d = .statement → verbatimTag? (d.opener ++
          ((inside.flatMap fun l => ' ' :: l.chars) ++ ' ' :: (d.closer ++ rest))) = none := by
        rintro rfl
        obtain ⟨word, more, rfl, mem⟩ := keyword rfl
        obtain ⟨c, cs, written, solid, other⟩ := keyword_head mem
        simp only [Delimiter.opener, List.flatMap_cons, Lexeme.word, Lexeme.chars, written]
        exact verbatimTag?_of_ne solid other _
      have cut := printable.writesAll.cuts_tag space_isBlank (printable.balanced 0) ordinary
      simpa [lexemes, chars] using cut

theorem cuts_all {ss : List Segment} (each : ∀ s ∈ ss, s.WellFormed) (apart : ss.IsChain Apart) :
    Cuts .text (ss.flatMap chars) (ss.flatMap lexemes) .text [] := by
  induction ss with
  | nil => exact .refl _ _
  | cons s ss ih =>
      rw [List.forall_mem_cons] at each
      obtain ⟨first, others⟩ := List.isChain_cons.mp apart
      refine (each.1.cuts fun isText => ?_).trans (ih each.2 others)
      cases ss with
      | nil => exact .inl rfl
      | cons next ss =>
          obtain ⟨tag, last⟩ := first next rfl isText
          exact .inr ⟨opensTag_chars tag _, last⟩

end Segment

end Stencil
