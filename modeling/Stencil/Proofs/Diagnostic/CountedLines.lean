import Stencil.Proofs.Grammar.Total
import Stencil.Proofs.Render.Located

/-!
The lines that errors show. Tokens are placed in lines that line feeds alone end; the lines shown
end at other characters too. The two agree as far as the source has none of those inside a line.
-/

namespace Stencil

namespace Text

def dropReturn : List Char → List Char
  | [] => []
  | ['\r'] => []
  | c :: rest => c :: dropReturn rest

/-- Whether no character ends a line before its line feed, or before the carriage return in front
of that. -/
def Unbroken (line : List Char) : Prop := ∀ c ∈ dropReturn line, isLineEnd c = false

instance (line : List Char) : Decidable (Unbroken line) :=
  List.decidableBAll (fun c => isLineEnd c = false) (dropReturn line)

/-- Whether the first `n` lines are unbroken, when line feeds alone are counted. -/
def UnbrokenTo (n : Nat) (cs : List Char) : Prop := ∀ line ∈ (cs.splitOn '\n').take n, Unbroken line

instance (n : Nat) (cs : List Char) : Decidable (UnbrokenTo n cs) :=
  List.decidableBAll Unbroken ((cs.splitOn '\n').take n)

/-- What there is to show of line `n`, counted from 0, when line feeds alone are counted: nothing of
an empty line at the very end. -/
def countedLine? (cs : List Char) (n : Nat) : Option (List Char) :=
  match (cs.splitOn '\n').drop n with
  | [] | [[]] => none
  | line :: _ => some (dropReturn line)

theorem dropReturn_cons {c : Char} {rest : List Char} (other : ¬ (c = '\r' ∧ rest = [])) :
    dropReturn (c :: rest) = c :: dropReturn rest := by
  rw [dropReturn]
  rintro rfl rfl
  exact other ⟨rfl, rfl⟩

theorem lines_cons {c : Char} {rest : List Char} (inside : isLineEnd c = false) :
    lines (c :: rest) = match lines rest with
      | [] => [[c]]
      | line :: more => (c :: line) :: more := by
  rw [lines]
  · exact if_neg (Bool.eq_false_iff.mp inside)
  · rintro _ rfl
    cases inside

theorem lines_append_newline {line : List Char} (unbroken : Unbroken line) (rest : List Char) :
    lines (line ++ '\n' :: rest) = dropReturn line :: lines rest := by
  induction line with
  | nil => rfl
  | cons c more ih =>
      by_cases returns : c = '\r' ∧ more = []
      · obtain ⟨rfl, rfl⟩ := returns
        rfl
      · rw [Unbroken, dropReturn_cons returns, List.forall_mem_cons] at unbroken
        rw [dropReturn_cons returns, List.cons_append, lines_cons unbroken.1, ih unbroken.2]

theorem lines_singleton {line : List Char} (unbroken : Unbroken line) (nonempty : line ≠ []) :
    lines line = [dropReturn line] := by
  induction line with
  | nil => exact absurd rfl nonempty
  | cons c more ih =>
      by_cases returns : c = '\r' ∧ more = []
      · obtain ⟨rfl, rfl⟩ := returns
        rfl
      · rw [Unbroken, dropReturn_cons returns, List.forall_mem_cons] at unbroken
        rw [dropReturn_cons returns, lines_cons unbroken.1]
        cases more with
        | nil => rfl
        | cons d rest => rw [ih unbroken.2 (List.cons_ne_nil d rest)]

theorem splitOn_newline {line : List Char} (single : '\n' ∉ line) (rest : List Char) :
    (line ++ '\n' :: rest).splitOn '\n' = line :: rest.splitOn '\n' := by
  rw [List.splitOn_append_cons_self, List.splitOn_eq_singleton single, List.singleton_append]

theorem countedLine?_newline {line : List Char} (single : '\n' ∉ line) (rest : List Char) :
    countedLine? (line ++ '\n' :: rest) 0 = some (dropReturn line) := by
  obtain ⟨next, more, split⟩ := List.exists_cons_of_ne_nil (List.splitOn_ne_nil '\n' rest)
  rw [countedLine?, splitOn_newline single, split]
  cases line <;> rfl

theorem lines_getElem?_of_unbroken {cs : List Char} {n : Nat} (unbroken : UnbrokenTo (n + 1) cs) :
    (lines cs)[n]? = countedLine? cs n := by
  by_cases ends : '\n' ∈ cs
  · obtain ⟨line, rest, rfl, single⟩ := List.eq_append_cons_of_mem ends
    rw [UnbrokenTo, splitOn_newline single, List.take_succ_cons, List.forall_mem_cons] at unbroken
    rw [lines_append_newline unbroken.1]
    cases n with
    | zero => exact (countedLine?_newline single rest).symm
    | succ n =>
        rw [List.getElem?_cons_succ, lines_getElem?_of_unbroken unbroken.2, countedLine?,
          countedLine?, splitOn_newline single, List.drop_succ_cons]
  · rw [UnbrokenTo, List.splitOn_eq_singleton ends, List.take_succ_cons, List.forall_mem_cons]
      at unbroken
    rw [countedLine?, List.splitOn_eq_singleton ends]
    cases cs with
    | nil => cases n <;> simp
    | cons c rest =>
        rw [lines_singleton unbroken.1 (List.cons_ne_nil c rest)]
        cases n <;> simp

theorem unbroken_of_lines_getElem? {cs line : List Char} {n : Nat}
    (shown : (lines cs)[n]? = countedLine? cs n) (counted : (cs.splitOn '\n')[n]? = some line) :
    Unbroken line := by
  obtain ⟨inside, rfl⟩ := List.getElem?_eq_some_iff.mp counted
  rw [countedLine?, List.drop_eq_getElem_cons inside] at shown
  split at shown
  · next none => cases none
  · next alone =>
      rw [List.cons.inj alone |>.1]
      exact nofun
  · next split =>
      rw [(List.cons.inj split).1]
      exact fun c member => (of_mem_lines (List.mem_of_getElem? shown) c member).2

/-- The lines that are shown are those that are counted, up to the first one that is broken. -/
theorem unbrokenTo_iff (n : Nat) (cs : List Char) :
    (∀ i < n, (lines cs)[i]? = countedLine? cs i) ↔ UnbrokenTo n cs := by
  constructor
  · intro shown line member
    obtain ⟨i, counted⟩ := List.getElem?_of_mem member
    rw [List.getElem?_take] at counted
    split at counted
    · next below => exact unbroken_of_lines_getElem? (shown i below) counted
    · cases counted
  · intro unbroken i below
    refine lines_getElem?_of_unbroken fun line member => unbroken line ?_
    exact (List.take_sublist_take_left (Nat.succ_le_of_lt below)).subset member

end Text

def countedText? (text : String) (n : Nat) : Option String :=
  (Text.countedLine? text.toList n).map String.ofList

theorem sourceLines_getElem? {text : String} {n : Nat}
    (unbroken : Text.UnbrokenTo (n + 1) text.toList) :
    (sourceLines text)[n]? = countedText? text n := by
  rw [sourceLines, List.getElem?_map, Text.lines_getElem?_of_unbroken unbroken, countedText?]

theorem sourceLines_unbrokenTo_iff (text : String) (n : Nat) :
    (∀ i < n, (sourceLines text)[i]? = countedText? text i) ↔
      Text.UnbrokenTo n text.toList := by
  rw [← Text.unbrokenTo_iff]
  refine forall₂_congr fun i _ => ?_
  rw [sourceLines, List.getElem?_map, countedText?]
  exact (Option.map_injective fun _ _ => String.ofList_injective).eq_iff

theorem lookup_zipIdx (first : Int) (n : Nat) (shown : List String) (start : Nat) :
    ((shown.zipIdx start).map fun (text, i) => (first + i + 1, text)).lookup
      (first + (start + n : Nat) + 1) = shown[n]? := by
  induction shown generalizing n start with
  | nil => rfl
  | cons text rest ih =>
      rw [List.zipIdx_cons, List.map_cons, List.lookup_cons]
      cases n with
      | zero => simp
      | succ n =>
          have other : (first + (start + (n + 1) : Nat) + 1 == first + start + 1) = false := by
            simp only [beq_eq_false_iff_ne]
            omega
          rw [other, List.getElem?_cons_succ, ← ih n (start + 1), Nat.add_right_comm start 1 n,
            Nat.add_assoc]

theorem Snippet.ofSource_lookup (source : String) (errorLine context : Int) (column : Option Int)
    {n : Nat} (begins : errorLine - context ≤ n + 1) (ends : n + 1 ≤ errorLine + context) :
    (ofSource source errorLine context column).lines.lookup (n + 1 : Int) =
      (sourceLines source)[n]? := by
  unfold ofSource
  dsimp only
  generalize sourceLines source = all
  obtain ⟨first, hfirst⟩ : ∃ first : Nat, max 0 (errorLine - 1 - context) = first :=
    ⟨_, (Int.toNat_of_nonneg (Int.le_max_left _ _)).symm⟩
  obtain ⟨k, rfl⟩ : ∃ k, n = first + k := ⟨n - first, by omega⟩
  have place : ((first + k : Nat) + 1 : Int) = first + (0 + k : Nat) + 1 := by omega
  rw [hfirst, place, lookup_zipIdx, List.getElem?_take, List.getElem?_drop, Int.toNat_natCast]
  split
  · rfl
  · next beyond =>
      rw [eq_comm, List.getElem?_eq_none_iff]
      omega

/-- What an error shows of its line: the text with the number of the line, and a caret below. -/
def caretSnippet (p : Pos) : Option String → List String
  | none => []
  | some text =>
      [gutter, paddedNumber p.line ++ " | " ++ text, gutter ++ " " ++ blanks p.col ++ "^"]

theorem SourceError.snippetLines_eq {e : SourceError} {text : String} {p : Pos}
    (source : e.source = some text) (line : e.line = some (p.line : Int))
    (column : e.column = some (p.col : Int)) (first : 1 ≤ p.line) :
    e.snippetLines = caretSnippet p (sourceLines text)[p.line - 1]? := by
  have given : givenLine (some (p.line : Int)) = some (p.line : Int) := by
    simp only [givenLine, Option.filter_some, ne_eq, decide_not, Bool.not_eq_eq_eq_not,
      Bool.not_true, decide_eq_false_iff_not, ite_eq_left_iff]
    omega
  rw [snippetLines, source, line, column, given]
  by_cases empty : text = ""
  · subst empty
    rfl
  · rw [Option.filter_some, if_pos (by simpa using empty)]
    dsimp only
    rw [if_neg (by omega), Int.toNat_natCast]
    cases (sourceLines text)[p.line - 1]? <;> rfl

theorem Setting.snippetAt_lookup (s : Setting) {line : Nat} (first : 1 ≤ line) :
    (s.snippetAt line).bind (fun snippet => snippet.lines.lookup (line : Int)) =
      (sourceLines s.source)[line - 1]? := by
  obtain ⟨n, rfl⟩ := Nat.exists_eq_add_of_le' first
  rw [snippetAt]
  by_cases empty : s.source = ""
  · rw [if_pos (.inl empty), empty]
    rfl
  · rw [if_neg (by simp [empty])]
    exact Snippet.ofSource_lookup _ _ _ _ (by omega) (by omega)

theorem Setting.renderError_eq (s : Setting) (line : Nat) {fault : Fault}
    (wraps : ∀ d, fault ≠ .diagnostic d) :
    ∃ e : RenderError, s.renderError line fault = .render e ∧ e.line = reachedLine line ∧
      e.snippet = s.snippetAt line := by
  cases fault with
  | diagnostic d => exact absurd rfl (wraps d)
  | _ => exact ⟨_, rfl, rfl, rfl⟩

/-- An error that stands at a place of a source, and shows the line of that place if all lines up to
there are unbroken. -/
structure SourceError.PointsAt (e : SourceError) (text : String) (p : Pos) : Prop where
  line : e.line = some (p.line : Int)
  column : e.column = some (p.col : Int)
  inside : p.Inside text.toList
  shows : Text.UnbrokenTo p.line text.toList →
    e.snippetLines = caretSnippet p (countedText? text (p.line - 1))

theorem sourceLines_line {text : String} {line : Nat} (first : 1 ≤ line)
    (unbroken : Text.UnbrokenTo line text.toList) :
    (sourceLines text)[line - 1]? = countedText? text (line - 1) :=
  sourceLines_getElem? (by rwa [Nat.sub_add_cancel first])

theorem SourceError.pointsAt {e : SourceError} {text : String} {p : Pos}
    (source : e.source = some text) (line : e.line = some (p.line : Int))
    (column : e.column = some (p.col : Int)) (inside : p.Inside text.toList) :
    e.PointsAt text p where
  line := line
  column := column
  inside := inside
  shows unbroken := by
    rw [snippetLines_eq source line column inside.first, sourceLines_line inside.first unbroken]

/-- What the errors of a source show as the line that they give: it is the line that contains the
error, if no character but a line feed, or a carriage return in front of one, ends a line up to
there. The caret stands in that line or right behind it. The text beside any line number is that
line under the same condition, and under no weaker one. -/
theorem Source.shows_countedLine (s : Source) :
    (∀ limit d, s.template limit = .error d →
      ∃ e pos, d = .source e ∧ e.PointsAt s.text pos) ∧
    (∀ (setting : Setting) code context generators fault u,
      (executeAll (setting.of s) code).run (World.start context generators) = (.error fault, u) →
      (∀ d, fault ≠ .diagnostic d) → 1 ≤ u.line → ∃ e,
        (renderCode (setting.of s) code context generators).outcome = .error (.render e) ∧
          e.line = some (u.line : Int) ∧
          (Text.UnbrokenTo u.line s.text.toList →
            e.snippet.bind (fun snippet => snippet.lines.lookup (u.line : Int)) =
              countedText? s.text (u.line - 1))) ∧
    (∀ (errorLine context : Int) column (n : Nat), errorLine - context ≤ n + 1 →
      n + 1 ≤ errorLine + context → Text.UnbrokenTo (n + 1) s.text.toList →
      (Snippet.ofSource s.text errorLine context column).lines.lookup (n + 1 : Int) =
        countedText? s.text n) ∧
    ∀ n, (∀ i < n, (sourceLines s.text)[i]? = countedText? s.text i) ↔
      Text.UnbrokenTo n s.text.toList := by
  refine ⟨?_, ?_, ?_, sourceLines_unbrokenTo_iff s.text⟩
  · intro limit d refused
    cases Source.refuses_of_template refused with
    | tokens fault inside => exact ⟨_, _, rfl, SourceError.pointsAt rfl rfl rfl inside⟩
    | grammar moves inside => exact ⟨_, _, rfl, SourceError.pointsAt rfl rfl rfl inside⟩
  · intro setting code context generators fault u run wraps first
    obtain ⟨e, isRender, line, snippet⟩ := (setting.of s).renderError_eq u.line wraps
    refine ⟨e, ?_, ?_, fun unbroken => ?_⟩
    · rw [renderCode_error run, isRender]
    · rw [line, Setting.reachedLine, if_neg (by omega)]
    · rw [snippet, Setting.snippetAt_lookup _ first]
      exact sourceLines_line first unbroken
  · intro errorLine context column n begins ends unbroken
    rw [Snippet.ofSource_lookup _ _ _ _ begins ends, sourceLines_getElem? unbroken]

def Source.refusal? (s : Source) (limit : Int) : Option Diagnostic :=
  match s.template limit with
  | .ok _ => none
  | .error d => some d

theorem Source.refusal?_eq_some {s : Source} {limit : Int} {d : Diagnostic}
    (refused : s.refusal? limit = some d) : s.template limit = .error d := by
  unfold refusal? at refused
  split at refused
  · cases refused
  · next same =>
      cases refused
      exact same

/-- A page that is refused for a stray character behind the lines before. -/
def strayPage (before : String) : Source := ⟨before ++ "\x7b\x7b ! \x7d\x7d", some "page", none⟩

def strayAt (before : String) (pos : Pos) : Diagnostic :=
  (strayPage before).error .tokens "Unexpected character '!' in expression" pos .unexpectedCharacter
    none

theorem shows_countedLine_strayPage : ∃ e, (strayPage "a\r\n").template 100 = .error (.source e) ∧
    e.snippetLines = ["   |", "  2 | \x7b\x7b ! \x7d\x7d", "   |    ^"] := by
  have refused : (strayPage "a\r\n").template 100 = .error (strayAt "a\r\n" ⟨2, 3⟩) :=
    Source.refusal?_eq_some (by decide +kernel)
  obtain ⟨e, ⟨line, col⟩, isSource, points⟩ := (strayPage "a\r\n").shows_countedLine.1 100 _ refused
  cases isSource
  cases Int.ofNat_inj.mp (Option.some.inj points.line)
  cases Int.ofNat_inj.mp (Option.some.inj points.column)
  refine ⟨_, refused, (points.shows (by decide +kernel)).trans (by decide +kernel)⟩

/-- After a form feed the wrong line is shown, with a caret behind its end. -/
theorem stray_not_pointsAt : ¬ ∀ (s : Source) (limit : Int) (e : SourceError) (pos : Pos),
    s.template limit = .error (.source e) → e.line = some (pos.line : Int) →
    e.column = some (pos.col : Int) →
      e.snippetLines = caretSnippet pos (countedText? s.text (pos.line - 1)) := by
  intro shows
  have refused : (strayPage "a\x0cb\n").template 100 = .error (strayAt "a\x0cb\n" ⟨2, 3⟩) :=
    Source.refusal?_eq_some (by decide +kernel)
  have shown := shows _ _ _ ⟨2, 3⟩ refused rfl rfl
  revert shown
  decide +kernel

end Stencil
