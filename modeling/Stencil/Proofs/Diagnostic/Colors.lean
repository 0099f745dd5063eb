import Stencil.Proofs.Diagnostic.Styled

/-!
Colours change no text. A diagnostic that is shown with colours is, without its display sequences,
the diagnostic that is shown without colours, as long as no text that it is made of has the escape
character. The compact form looks for the code of the diagnostic in the header as it is shown; no
code can reach over the edge of a coloured run, so colours do not change what it finds.
-/

namespace Stencil

/-! The texts that diagnostics are made of. -/

def Snippet.texts (s : Snippet) : List String := s.lines.map (·.2)

def SourceError.texts (e : SourceError) : List String :=
  e.message :: (e.name.toList ++ e.filename.toList ++ e.source.toList ++ e.suggestion.toList)

def UnknownName.texts (e : UnknownName) : List String :=
  e.name :: (e.available ++ e.template.toList)

def ShownValue.texts (v : ShownValue) : List String := [v.name, v.text, v.type]

def RenderError.texts (e : RenderError) : List String :=
  e.message :: (e.expression.toList ++ e.values.flatMap ShownValue.texts ++ e.template.toList ++
    e.suggestion.toList ++ e.snippet.toList.flatMap Snippet.texts)

def UndefinedReference.texts (e : UndefinedReference) : List String :=
  e.name :: (e.template.toList ++ e.available ++ e.detail.toList ++
    e.snippet.toList.flatMap Snippet.texts)

def Diagnostic.texts : Diagnostic → List String
  | general message | notFound message | unsafePath message => [message]
  | tooLarge name _ _ => [name]
  | recursion chain _ => chain
  | source e => e.texts
  | unknownName e => e.texts
  | render e => e.texts
  | undefinedReference e => e.texts

/-! Diagnostics whose texts have no display sequences. -/

theorem colorless_placeText {name : String} (free : Colorless name) (line : Option Int) :
    Colorless (placeText name line) := by
  unfold placeText
  split
  · simp +decide [free]
  · exact free

theorem colorless_of_given {text? : Option String} (free : ∀ text ∈ text?, Colorless text)
    {text : String} (given : text?.filter (· ≠ "") = some text) : Colorless text :=
  free text (Option.filter_eq_some_iff.mp given).1

theorem colorless_didYouMean {suggestion : Option String}
    (free : ∀ text ∈ suggestion, Colorless text) : (didYouMean suggestion).Colorless := by
  unfold didYouMean
  split
  · next text given =>
      simp +decide [colorless_of_given free given]
  · simp

@[simp] theorem colorless_code (code : ErrorCode) : Colorless code.text := by
  cases code <;> decide

theorem colorless_headline {code : Option ErrorCode} {message : Styled}
    (free : message.Colorless) : (headline code message).Colorless := by
  cases code with
  | none => exact free
  | some code => simp +decide [headline, free]

namespace Snippet

theorem colorless_numberedLine {content : String} (free : Colorless content) (line : Int)
    (isError : Bool) : (numberedLine line content isError).Colorless := by
  cases isError <;> simp +decide [numberedLine, free]

theorem colorless_caretLine (column : Int) : (caretLine column).Colorless := by
  simp +decide [caretLine, gutter]

theorem colorless_format {s : Snippet} (free : ∀ text ∈ s.texts, Colorless text) :
    s.format.Colorless := by
  have border : (Styled.styled .dim gutter).Colorless := by simp +decide [gutter]
  rw [texts, List.forall_mem_map] at free
  rw [format, Styled.colorless_ofLines]
  simp only [List.forall_mem_cons, List.forall_mem_append, List.forall_mem_map, border, true_and]
  refine ⟨⟨fun line listed => colorless_numberedLine (free line listed) _ _, ?_⟩, List.forall_mem_nil _⟩
  cases s.column with
  | none => exact List.forall_mem_nil _
  | some column => exact List.forall_mem_singleton.mpr (colorless_caretLine column)

end Snippet

namespace SourceError

/-- Whether no display sequence begins in any text of an error, text by text. -/
structure Free (e : SourceError) : Prop where
  message : Colorless e.message
  name : ∀ text ∈ e.name, Colorless text
  filename : ∀ text ∈ e.filename, Colorless text
  source : ∀ text ∈ e.source, Colorless text
  suggestion : ∀ text ∈ e.suggestion, Colorless text

variable {e : SourceError}

theorem free_of_texts (free : ∀ text ∈ e.texts, Colorless text) : e.Free := by
  simp only [texts, List.forall_mem_cons, List.forall_mem_append, Option.mem_toList] at free
  obtain ⟨message, ⟨⟨name, filename⟩, source⟩, suggestion⟩ := free
  exact ⟨message, name, filename, source, suggestion⟩

theorem colorless_location (free : e.Free) : Colorless e.location :=
  colorless_placeText
    (colorless_firstGiven (by simpa using ⟨free.filename, free.name⟩) (by decide)) _

theorem colorless_snippetLines (free : e.Free) : ∀ line ∈ e.snippetLines, Colorless line := by
  unfold snippetLines
  split
  · next source line given _ =>
      have listed := colorless_sourceLines (colorless_of_given free.source given)
      split
      · exact List.forall_mem_nil _
      · split
        · exact List.forall_mem_nil _
        · next text shown =>
            have free := listed text (List.mem_of_getElem? shown)
            cases e.column <;> simp +decide [gutter, free]
  · exact List.forall_mem_nil _

theorem colorless_fullText (free : e.Free) : Colorless e.fullText := by
  refine (colorless_append _ _).mpr ⟨colorless_intercalate (by decide)
    (List.forall_mem_cons.mpr ⟨?_, colorless_snippetLines free⟩), ?_⟩
  · simp +decide only [colorless_append, free.message, colorless_location free, true_and]
    split
    · simp +decide
    · decide
  · split
    · next text given =>
        simp +decide [colorless_of_given free.suggestion given]
    · decide

theorem colorless_compactText (free : e.Free) : Colorless e.compactText := by
  have border : Colorless gutter := by decide
  refine colorless_intercalate (by decide) ?_
  simp only [List.forall_mem_cons, colorless_append, free.message, colorless_location free]
  refine ⟨?_, ?_, ?_⟩
  · simp +decide
  · decide
  · split
    · exact List.forall_mem_nil _
    · next shown =>
        rw [List.forall_mem_append, List.forall_mem_singleton]
        exact ⟨colorless_snippetLines free, border⟩

end SourceError

theorem UnknownName.colorless_message {e : UnknownName}
    (free : ∀ text ∈ e.texts, Colorless text) : e.message.Colorless := by
  simp only [texts, List.forall_mem_cons, List.forall_mem_append, Option.mem_toList] at free
  obtain ⟨name, available, template⟩ := free
  have suggested : ∀ text ∈ e.suggestion, Colorless text :=
    fun text found => available text (closest?_mem found)
  simp only [message, Styled.colorless_append, Styled.colorless_plain]
  refine ⟨⟨?_, ?_⟩, colorless_didYouMean suggested⟩
  · cases e.kind <;> simp +decide [NameKind.title, name]
  · split
    · exact Styled.colorless_nil
    · have place : Colorless ((e.template.filter (· ≠ "")).getD unnamed) := by
        cases given : e.template.filter (· ≠ "") with
        | none => decide
        | some text => exact colorless_of_given template given
      rw [Styled.colorless_append, Styled.colorless_plain, Styled.colorless_styled]
      exact ⟨by decide, colorless_placeText place _⟩

namespace RenderError

structure Free (e : RenderError) : Prop where
  message : Colorless e.message
  expression : ∀ text ∈ e.expression, Colorless text
  values : ∀ v ∈ e.values, ∀ text ∈ v.texts, Colorless text
  template : ∀ text ∈ e.template, Colorless text
  suggestion : ∀ text ∈ e.suggestion, Colorless text
  snippet : ∀ s ∈ e.snippet, s.format.Colorless

variable {e : RenderError}

theorem free_of_texts (free : ∀ text ∈ e.texts, Colorless text) : e.Free := by
  simp only [texts, List.forall_mem_cons, List.forall_mem_append, List.forall_mem_flatMap,
    Option.mem_toList] at free
  obtain ⟨message, ⟨⟨⟨expression, values⟩, template⟩, suggestion⟩, snippet⟩ := free
  exact ⟨message, expression, values, template, suggestion,
    fun s given => Snippet.colorless_format (snippet s given)⟩

theorem colorless_valueLine {v : ShownValue} (free : ∀ text ∈ v.texts, Colorless text) :
    Colorless (valueLine v) := by
  simp only [ShownValue.texts, List.forall_mem_cons] at free
  obtain ⟨name, text, type, -⟩ := free
  simp +decide only [valueLine, colorless_append, name, type, true_and, and_true]
  split
  · rw [colorless_append, colorless_ofList]
    exact ⟨fun member => text (List.mem_of_mem_take member), by decide⟩
  · exact text

theorem colorless_location (free : e.Free) : Colorless e.location :=
  colorless_placeText (colorless_firstGiven (by simpa using free.template) (by decide)) _

theorem colorless_locationLine (free : e.Free) : e.locationLine.Colorless := by
  simp +decide [locationLine, colorless_location free]

theorem colorless_expressionLines (free : e.Free) :
    ∀ line ∈ e.expressionLines, line.Colorless := by
  unfold expressionLines
  split
  · next text given =>
      simp +decide [colorless_of_given free.expression given]
  · exact List.forall_mem_nil _

theorem colorless_snippetLines (free : e.Free) : ∀ line ∈ e.snippetLines, line.Colorless := by
  unfold snippetLines
  split
  · next s given => exact List.forall_mem_singleton.mpr (free.snippet s given)
  · exact List.forall_mem_nil _

theorem colorless_fullText (free : e.Free) : e.fullText.Colorless := by
  rw [fullText, Styled.colorless_ofLines]
  simp only [List.forall_mem_cons, List.forall_mem_append, Styled.colorless_plain,
    colorless_append]
  refine ⟨⟨⟨⟨⟨⟨by decide, free.message⟩, ?_⟩, colorless_snippetLines free⟩,
    colorless_expressionLines free⟩, ?_⟩, ?_⟩
  · split
    · exact List.forall_mem_singleton.mpr (colorless_locationLine free)
    · exact List.forall_mem_nil _
  · split
    · exact List.forall_mem_nil _
    · rw [List.forall_mem_cons, List.forall_mem_map]
      exact ⟨by simp +decide, fun v listed =>
        (Styled.colorless_plain _).mpr (colorless_valueLine (free.values v listed))⟩
  · split
    · next text given =>
        simp +decide [colorless_of_given free.suggestion given]
    · exact List.forall_mem_nil _

theorem colorless_compact (free : e.Free) : e.compact.Colorless := by
  rw [compact, Styled.colorless_ofLines]
  simp only [List.forall_mem_cons, List.forall_mem_append]
  refine ⟨⟨⟨colorless_headline ((Styled.colorless_plain _).mpr free.message),
    colorless_locationLine free, colorless_snippetLines free⟩, colorless_expressionLines free⟩, ?_⟩
  split
  · next text given =>
      simp +decide [colorless_of_given free.suggestion given]
  · exact List.forall_mem_nil _

end RenderError

namespace UndefinedReference

structure Free (e : UndefinedReference) : Prop where
  name : Colorless e.name
  template : ∀ text ∈ e.template, Colorless text
  available : ∀ text ∈ e.available, Colorless text
  detail : ∀ text ∈ e.detail, Colorless text
  snippet : ∀ s ∈ e.snippet, s.format.Colorless

variable {e : UndefinedReference}

theorem free_of_texts (free : ∀ text ∈ e.texts, Colorless text) : e.Free := by
  simp only [texts, List.forall_mem_cons, List.forall_mem_append, List.forall_mem_flatMap,
    Option.mem_toList] at free
  obtain ⟨name, ⟨⟨template, available⟩, detail⟩, snippet⟩ := free
  exact ⟨name, template, available, detail,
    fun s given => Snippet.colorless_format (snippet s given)⟩

theorem colorless_headline (free : e.Free) : e.headline.Colorless := by
  have place : Colorless (firstGiven [e.template] unnamed) :=
    colorless_firstGiven (by simpa using free.template) (by decide)
  have suggested : ∀ text ∈ Text.closest? e.name e.available, Colorless text :=
    fun text found => free.available text (closest?_mem found)
  simp only [headline, Styled.colorless_append, Styled.colorless_plain, Styled.colorless_styled,
    colorless_append, free.name, colorless_placeText place, colorless_didYouMean suggested]
  decide

theorem colorless_hintLine (free : e.Free) : e.hintLine.Colorless := by
  simp +decide [hintLine, free.name]

theorem colorless_snippetLines (free : e.Free) : ∀ line ∈ e.snippetLines, line.Colorless := by
  unfold snippetLines
  split
  · next s given => exact List.forall_mem_singleton.mpr (free.snippet s given)
  · exact List.forall_mem_nil _

theorem colorless_message (free : e.Free) : e.message.Colorless := by
  rw [message, Styled.colorless_ofLines]
  simp only [List.forall_mem_cons, List.forall_mem_append]
  refine ⟨⟨⟨colorless_headline free, ?_⟩, colorless_snippetLines free⟩, colorless_hintLine free,
    List.forall_mem_nil _⟩
  split
  · next text given =>
      simp +decide [colorless_of_given free.detail given]
  · exact List.forall_mem_nil _

theorem colorless_compact (free : e.Free) : e.compact.Colorless := by
  rw [compact, Styled.colorless_ofLines]
  simp only [List.forall_mem_cons, List.forall_mem_append]
  exact ⟨⟨Stencil.colorless_headline (colorless_headline free), colorless_snippetLines free⟩,
    colorless_hintLine free, List.forall_mem_nil _⟩

end UndefinedReference

/-! Codes in headers. -/

section Headers

variable (code : ErrorCode)

theorem fence_notMem : ∀ x ∈ ['d', ' ', '.', '\''], x ∉ code.text.toList := by
  cases code <;> simp [ErrorCode.text]

theorem head?_didYouMean (suggestion : Option String) :
    ∀ x ∈ (Styled.text (didYouMean suggestion)).toList.head?, x = '.' := by
  intro x first
  unfold didYouMean at first
  split at first
  · rw [Styled.text, Styled.plain, List.append_assoc, List.singleton_append, Styled.render_cons,
      String.toList_append] at first
    exact (Option.some.inj first).symm
  · cases first

theorem fenced_didYouMean (suggestion : Option String) :
    (didYouMean suggestion).Fenced code.text.toList := by
  have fence := fence_notMem code
  unfold didYouMean
  split
  · exact ⟨apart_of_getLast? rfl (fence '\'' (by decide)) _,
      apart_of_head? rfl (fence '\'' (by decide)) _, .inr nofun, trivial⟩
  · trivial

theorem UnknownName.fenced_message (e : UnknownName) : e.message.Fenced code.text.toList := by
  have fence := fence_notMem code
  have suggested := fenced_didYouMean code e.suggestion
  have named : (e.kind.title ++ " '" ++ e.name ++ "' not found").toList.getLast? = some 'd' := by
    rw [String.toList_append, List.getLast?_append]
    rfl
  have apart := apart_of_getLast? named (fence 'd' (by decide))
  rw [message]
  split
  · exact ⟨apart _, suggested⟩
  · -- The place has a blank in front, and a period behind if there is anything more.
    refine ⟨apart _, apart_of_getLast? rfl (fence ' ' (by decide)) _, .inr fun x first => ?_,
      suggested⟩
    rw [head?_didYouMean e.suggestion x first]
    exact fence '.' (by decide)

end Headers

namespace Diagnostic

variable {d : Diagnostic}

theorem colorless_message (free : ∀ text ∈ d.texts, Colorless text) : d.message.Colorless := by
  cases d with
  | general message | notFound message | unsafePath message =>
      exact (Styled.colorless_plain _).mpr (free _ (.head _))
  | tooLarge name size limit =>
      have name := free _ (.head _)
      simp +decide [message, name]
  | recursion chain maxDepth =>
      have path : Colorless (String.intercalate " → " chain) :=
        colorless_intercalate (by decide) free
      cases maxDepth <;> simp +decide [message, path]
  | source e =>
      exact (Styled.colorless_plain _).mpr
        (SourceError.colorless_fullText (SourceError.free_of_texts free))
  | unknownName e => exact UnknownName.colorless_message free
  | render e => exact RenderError.colorless_fullText (RenderError.free_of_texts free)
  | undefinedReference e =>
      exact UndefinedReference.colorless_message (UndefinedReference.free_of_texts free)

theorem colorless_withCode {message : Styled} (free : message.Colorless)
    (code : Option ErrorCode) : (withCode code message).Colorless := by
  unfold withCode
  split
  · next code =>
      split
      · exact free
      · simp +decide [free]
  · exact free

theorem colorless_compact (free : ∀ text ∈ d.texts, Colorless text) : d.compact.Colorless := by
  cases d with
  | source e =>
      exact (Styled.colorless_plain _).mpr
        (SourceError.colorless_compactText (SourceError.free_of_texts free))
  | render e => exact RenderError.colorless_compact (RenderError.free_of_texts free)
  | undefinedReference e =>
      exact UndefinedReference.colorless_compact (UndefinedReference.free_of_texts free)
  | _ =>
      unfold compact
      exact colorless_withCode (colorless_message free) _

theorem headerWithCode_render {code : Option ErrorCode} {message : Styled}
    (fenced : ∀ c ∈ code, message.Fenced c.text.toList) (color : Bool) :
    headerWithCode code (message.render color) = (withCode code message).render color := by
  cases code with
  | none => rfl
  | some code =>
      have found : (Text.splitAt? code.text.toList (message.render color).toList).isSome =
          (Text.splitAt? code.text.toList message.text.toList).isSome := by
        cases color with
        | false => rfl
        | true =>
            rw [Bool.eq_iff_iff, Text.isSome_splitAt?_iff, Text.isSome_splitAt?_iff]
            exact Styled.infix_render code.findable (fenced code rfl)
      rw [headerWithCode, withCode, found]
      split
      · rfl
      · rw [Styled.plain, List.singleton_append, Styled.render_cons]
        cases color <;> rfl

theorem compactText_eq (d : Diagnostic) (color : Bool) :
    d.compactText color = d.compact.render color := by
  cases d with
  | source e => exact (Styled.render_plain color _).symm
  | render e | undefinedReference e => rfl
  | unknownName e => exact headerWithCode_render (fun c _ => e.fenced_message c) color
  | _ =>
      unfold compactText compact message
      exact headerWithCode_render (fun c _ => Styled.fenced_plain c.text.toList _) color

end Diagnostic

/-- What a terminal that shows colours is sent for a diagnostic, the full message and the compact
form, is without its display sequences what another terminal is sent. -/
theorem stripColors_diagnostic {d : Diagnostic} (free : ∀ text ∈ d.texts, Colorless text) :
    stripColors (d.message.render true) = d.message.render false ∧
      stripColors (d.compactText true) = d.compactText false := by
  rw [Diagnostic.compactText_eq, Diagnostic.compactText_eq]
  exact ⟨Styled.stripColors_render (Diagnostic.colorless_message free),
    Styled.stripColors_render (Diagnostic.colorless_compact free)⟩

theorem stripColors_diagnostic_snippet :
    let d : Diagnostic := .undefinedReference ⟨"titl", some "page.html", some 2, ["title"],
      some ⟨[(1, "<h1>"), (2, "titl</h1>")], 2, some 0⟩, none⟩
    (∀ text ∈ d.texts, Colorless text) ∧
      stripColors (d.message.render true) = d.message.render false ∧
      stripColors (d.compactText true) = d.compactText false := by
  intro d
  have free : ∀ text ∈ d.texts, Colorless text := by decide
  exact ⟨free, stripColors_diagnostic free⟩

end Stencil
