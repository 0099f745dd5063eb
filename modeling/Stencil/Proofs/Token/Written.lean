import Mathlib.Data.List.Basic
import Mathlib.Data.List.Forall2
import Stencil.Proofs.Token.Parts

/-!
Tags read back. Whatever lexemes are written between two delimiters with blanks between them, they
are the tokens of the tag, unless the tag opens a verbatim text.
-/

namespace Stencil

open Scan Text

namespace Lexeme

theorem Writes.ne_closing {l : Lexeme} {cs : List Char} (written : l.Writes cs) (d : Delimiter) :
    l ≠ closing d := by
  rintro rfl
  cases written

theorem WritesAll.takeWhile {ls : List Lexeme} {text : List Char} (written : WritesAll ls text)
    (d : Delimiter) (rest : List Lexeme) :
    (ls ++ closing d :: rest).takeWhile (· != closing d) = ls := by
  have others : ls.all (· != closing d) = true := by
    induction written with
    | nil => rfl
    | cons _ first _ _ ih =>
        rw [List.all_cons, bne_iff_ne.mpr (first.ne_closing d), ih, Bool.and_self]
  exact (takeWhile_append_stop _ rest others (bne_self_eq_false _)).1

theorem writesAll_intercalate {ls : List Lexeme} {texts : List (List Char)}
    (written : List.Forall₂ Writes ls texts) (nonempty : ls ≠ []) {lead : List Char}
    (blank : ∀ b ∈ lead, isBlank b = true) :
    WritesAll ls (lead ++ [' '].intercalate texts) := by
  induction written generalizing lead with
  | nil => exact absurd rfl nonempty
  | @cons l cs ls texts first more ih =>
      cases more with
      | nil => simpa [List.intercalate] using WritesAll.cons blank first .nil nofun
      | @cons l' cs' ls texts second more =>
          have others := ih (List.cons_ne_nil _ _) space_isBlank
          rw [List.intercalate_cons_cons, List.append_assoc]
          refine .cons blank first others fun c mem => ?_
          cases mem
          rfl

end Lexeme

/-! No tag but one of a single word opens a verbatim text. -/

theorem Scan.Cuts.lexemes {mode mode' : Mode} {cs rest : List Char} {ls : List Lexeme}
    (cut : Cuts mode cs ls mode' rest) :
    (run mode cs).1.filterMap Piece.token = ls ++ (run mode' rest).1.filterMap Piece.token := by
  obtain ⟨ps, rfl, cut⟩ := cut
  rw [cut, List.filterMap_append]

namespace Lexeme

variable {ls : List Lexeme} {text blanks : List Char}

theorem WritesAll.unique {ls' : List Lexeme} {text' blanks' rest rest' : List Char}
    (written : WritesAll ls text) (written' : WritesAll ls' text')
    (blank : ∀ b ∈ blanks, isBlank b = true) (blank' : ∀ b ∈ blanks', isBlank b = true)
    (balanced : ls.foldl bracesPast 0 = 0) (balanced' : ls'.foldl bracesPast 0 = 0)
    {d : Delimiter}
    (same : text ++ (blanks ++ (d.closer ++ rest)) = text' ++ (blanks' ++ (d.closer ++ rest'))) :
    ls = ls' := by
  have cut := (written.cuts_behind blank balanced d rest).lexemes
  rw [same, (written'.cuts_behind blank' balanced' d rest').lexemes, List.append_assoc,
    List.append_assoc, List.singleton_append, List.singleton_append] at cut
  rw [← written.takeWhile d, ← cut, written'.takeWhile]

theorem WritesAll.opensVerbatim {found : List Char × List Char} {rest : List Char}
    (written : WritesAll ls text) (blank : ∀ b ∈ blanks, isBlank b = true)
    (balanced : ls.foldl bracesPast 0 = 0)
    (opens : verbatimTag? (Delimiter.statement.opener ++
      (text ++ (blanks ++ (Delimiter.statement.closer ++ rest)))) = some found) :
    ∃ kind : Verbatim, ls = [word kind.word] := by
  obtain ⟨_, inside⟩ := found
  obtain ⟨kind, _, rfl, ⟨first, second, blank', blank'', rfl⟩, whole⟩ := verbatimTag?_eq_some opens
  have isWord : isWord kind.word.toList = true := by cases kind <;> decide
  have one : WritesAll [word kind.word] (first ++ (kind.word.toList ++ [])) := by
    refine .cons (List.all_eq_true.mp blank') ?_ .nil nofun
    simpa [word] using Writes.word isWord
  have same : text ++ (blanks ++ (Delimiter.statement.closer ++ rest)) =
      first ++ (kind.word.toList ++ []) ++ (second ++ (Delimiter.statement.closer ++ inside)) := by
    simpa [Delimiter.opener, Delimiter.closer] using whole
  exact ⟨kind, written.unique one blank (List.all_eq_true.mp blank'') balanced rfl same⟩

theorem Writes.eq_word {text : String} {cs : List Char} (written : (Lexeme.word text).Writes cs) :
    cs = text.toList := by
  cases written with
  | word _ => exact String.toList_ofList.symm

theorem Writes.bracesPast {l : Lexeme} {cs : List Char} (written : l.Writes cs) (braces : Int) :
    Scan.bracesPast braces l = braces + ([l].count (Lexeme.symbol .lbrace) -
      [l].count (Lexeme.symbol .rbrace)) := by
  cases written with
  | symbol s =>
      cases s with
      | lbrace => rfl
      | rbrace => rfl
      | _ => exact (Int.add_zero braces).symm
  | _ => simp [Scan.bracesPast, Lexeme.symbol]

theorem foldl_bracesPast {texts : List (List Char)} (written : List.Forall₂ Writes ls texts)
    (braces : Int) : ls.foldl Scan.bracesPast braces =
      braces + (ls.count (symbol .lbrace) - ls.count (symbol .rbrace)) := by
  induction written generalizing braces with
  | nil => simp
  | @cons l _ ls _ first _ ih =>
      have more (brace : Lexeme) : (l :: ls).count brace = [l].count brace + ls.count brace :=
        @List.count_append _ _ brace [l] ls
      rw [List.foldl_cons, ih, first.bracesPast, more, more]
      omega

end Lexeme

namespace TokenStream

theorem refuses_openVerbatim {cs word : List Char} (opens : ∃ more, cs = '{' :: '%' :: more)
    (tag : verbatimTag? cs = some (word, [])) (stream : TokenStream) :
    ofSource? cs ≠ .ok stream := by
  obtain ⟨more, rfl⟩ := opens
  have read : step .text ('{' :: '%' :: more) =
      .refused (.unclosedVerbatim (String.ofList word)) := by
    simp [step, textStep, opensTag, tagStep, tag, splitAtWordTag?]
  have run : run .text ('{' :: '%' :: more) =
      ([], some (.unclosedVerbatim (String.ofList word))) := by
    rw [Scan.run]
    split
    · next finished => cases read.symm.trans finished
    · next refused =>
        cases read.symm.trans refused
        rfl
    · next equation => cases read.symm.trans equation
  simp [ofSource?, run]

/-- Lexemes written between two delimiters, with a single blank between two of them, are just the
tokens of the tag, whatever the strings among them hold. As many braces are to be opened as closed;
and a statement tag is not to hold a single word that opens a verbatim text. -/
theorem ofSource?_written {d : Delimiter} {ls : List Lexeme} {texts : List (List Char)}
    {lead trail : List Char} (written : List.Forall₂ Lexeme.Writes ls texts)
    (balanced : ls.count (Lexeme.symbol .lbrace) = ls.count (Lexeme.symbol .rbrace))
    (blank : ∀ c ∈ lead ++ trail, isBlank c = true) :
    (∃ stream, ofSource? (d.opener ++ (lead ++ ([' '].intercalate texts ++ (trail ++ d.closer)))) =
        .ok stream ∧ stream.tokens.map Token.lexeme = Lexeme.tag d ls) ↔
      ¬(d = .statement ∧ ∃ kind : Verbatim, ls = [Lexeme.word kind.word]) := by
  obtain ⟨blank, blank'⟩ := List.forall_mem_append.mp blank
  constructor
  · rintro ⟨stream, accepted, _⟩ ⟨rfl, kind, rfl⟩
    obtain ⟨text, more, first, none, rfl⟩ := List.forall₂_cons_left_iff.mp written
    obtain rfl := List.forall₂_nil_left_iff.mp none
    obtain rfl := first.eq_word
    have opens := verbatimTag?_blanks kind (List.all_eq_true.mpr blank)
      (List.all_eq_true.mpr blank') []
    refine refuses_openVerbatim ⟨_, rfl⟩ opens stream ?_
    simpa [Delimiter.opener, Delimiter.closer, List.intercalate] using accepted
  · intro ordinary
    obtain ⟨text, blanks, all, blank, whole⟩ : ∃ text blanks, Lexeme.WritesAll ls text ∧
        (∀ b ∈ blanks, isBlank b = true) ∧
        lead ++ ([' '].intercalate texts ++ (trail ++ d.closer)) =
          text ++ (blanks ++ (d.closer ++ [])) := by
      by_cases empty : ls = []
      · subst empty
        cases written
        exact ⟨[], lead ++ trail, .nil, List.forall_mem_append.mpr ⟨blank, blank'⟩, by simp⟩
      · exact ⟨_, trail, Lexeme.writesAll_intercalate written empty blank, blank', by simp⟩
    rw [whole]
    have balanced : ls.foldl bracesPast 0 = 0 := by
      rw [Lexeme.foldl_bracesPast written, balanced]
      omega
    refine ofSource?_of_cuts (all.cuts_tag blank balanced ?_)
    rintro rfl
    refine Option.eq_none_iff_forall_ne_some.mpr fun found opens => ordinary ⟨rfl, ?_⟩
    exact all.opensVerbatim blank balanced opens

/-- A closing delimiter, an opening one and both quotes in a string, between braces that touch the
end of the tag. -/
def quotedLexemes : List Lexeme :=
  [Lexeme.word "raw", Lexeme.symbol .lbrace, (.string, "%\x7d \x7b\x7b \"'"), Lexeme.symbol .rbrace]

theorem ofSource?_written_quotedLexemes :
    ∃ stream, ofSource? "\x7b%raw \x7b \"%\x7d \x7b\x7b \\\"'\" \x7d%\x7d".toList = .ok stream ∧
      stream.tokens.map Token.lexeme = Lexeme.tag .statement quotedLexemes := by
  have written : List.Forall₂ Lexeme.Writes quotedLexemes
      ["raw".toList, ['{'], "\"%\x7d \x7b\x7b \\\"'\"".toList, ['}']] :=
    .cons (.word (by decide)) (.cons (.symbol .lbrace) (.cons (.string (.inl rfl) _)
      (.cons (.symbol .rbrace) .nil)))
  have other : ¬(Delimiter.statement = .statement ∧
      ∃ kind : Verbatim, quotedLexemes = [Lexeme.word kind.word]) := by
    rintro ⟨_, kind, same⟩
    cases (congrArg List.length same : 4 = 1)
  exact (@ofSource?_written .statement quotedLexemes _ [] [] written (by decide) nofun).mpr other

end TokenStream

end Stencil
