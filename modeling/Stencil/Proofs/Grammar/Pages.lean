import Stencil.Proofs.Grammar.Blocks

/-!
Reading inverts writing: the text of a page is cut into the lexemes of its segments, and these are
read as the template that the page means.
-/

namespace Stencil

open Lexeme Reader Grammar

/-! The segments of a page. -/

namespace Form

theorem tag_wellFormed {keyword : String} {inside : List Lexeme}
    (mem : keyword ∈ statementKeywords ++ continuationKeywords) (printable : Printable inside) :
    (tag (word keyword :: inside)).WellFormed := by
  have words : ∀ k ∈ statementKeywords ++ continuationKeywords, Scan.isWord k.toList = true := by
    decide
  exact .tag ((Printable.word (words keyword mem)).cons printable)
    fun _ => ⟨keyword, inside, rfl, mem⟩

theorem endTag_wellFormed (kind : BlockKind) (ending : Ending) : (endTag kind ending).WellFormed :=
  tag_wellFormed (List.mem_append_right _ (word_mem ending kind)) .nil

theorem segmentsAll_wellFormed {fs : List Form} (each : ∀ f ∈ fs, ∀ s ∈ f.segments, s.WellFormed) :
    ∀ s ∈ segmentsAll fs, s.WellFormed := by
  rw [segmentsAll_eq_flatMap]
  exact List.forall_mem_flatMap.mpr each

theorem segmentsOthers_wellFormed {others : List (ElseIf × Expr × List Form)}
    (conditions : ∀ x ∈ others, x.2.1.WellFormed)
    (bodies : ∀ x ∈ others, ∀ f ∈ x.2.2, ∀ s ∈ f.segments, s.WellFormed) :
    ∀ s ∈ segmentsOthers others, s.WellFormed := by
  induction others with
  | nil => exact nofun
  | cons x rest ih =>
      rw [List.forall_mem_cons] at conditions bodies
      rw [segmentsOthers, List.forall_mem_cons, List.forall_mem_append]
      exact ⟨tag_wellFormed (by cases x.1 <;> decide) conditions.1.printable,
        segmentsAll_wellFormed bodies.1, ih conditions.2 bodies.2⟩

theorem segmentsElse_wellFormed {keyword : String} {otherwise : Option (List Form)}
    (mem : keyword ∈ continuationKeywords)
    (each : ∀ fs ∈ otherwise, ∀ f ∈ fs, ∀ s ∈ f.segments, s.WellFormed) :
    ∀ s ∈ segmentsElse keyword otherwise, s.WellFormed := by
  cases otherwise with
  | none => exact nofun
  | some fs =>
      rw [segmentsElse, List.forall_mem_cons]
      exact ⟨tag_wellFormed (List.mem_append_right _ mem) .nil,
        segmentsAll_wellFormed (each fs rfl)⟩

theorem words_printable {ns : List String} (words : ∀ n ∈ ns, Scan.isWord n.toList = true) :
    Printable (ns.map word) := by
  induction ns with
  | nil => exact .nil
  | cons n ns ih =>
      rw [List.forall_mem_cons] at words
      exact (Printable.word words.1).cons (ih words.2)

theorem string_printable (value : String) : Printable [(.string, value)] := by
  have literal : (Literal.string value).WellFormed := trivial
  exact .constant literal

theorem target_printable {target : Target}
    (words : ∀ n ∈ target.names, Scan.isWord n.toList = true) : Printable target.lexemes := by
  cases target with
  | one item => exact .word (words _ List.mem_cons_self)
  | pair key value =>
      have second := words value.name (List.mem_cons_of_mem _ List.mem_cons_self)
      exact (Printable.word (words _ List.mem_cons_self)).cons
        ((Printable.symbol (by decide)).cons (.word second))

theorem mode_printable {mode : Option Lexeme}
    (known : ∀ l ∈ mode, (l.1 = .string ∨ l.1 = .name ∧ Scan.isWord l.2.toList = true) ∧
      (escapeMode? l.2).isSome = true) : Printable mode.toList := by
  cases mode with
  | none => exact .nil
  | some l =>
      obtain ⟨kind, text⟩ := l
      obtain ⟨rfl | ⟨rfl, isWord⟩, _⟩ := known _ rfl
      · exact string_printable text
      · exact .word isWord

theorem WellFormed.segments {room : Nat} {f : Form} (wf : f.WellFormed room) :
    ∀ s ∈ f.segments, s.WellFormed := by
  induction wf with
  | text whole => exact List.forall_mem_singleton.mpr whole
  | comment whole => exact List.forall_mem_singleton.mpr whole
  | verbatim whole => exact List.forall_mem_singleton.mpr whole
  | output expr =>
      refine List.forall_mem_singleton.mpr (.tag expr.printable ?_)
      split <;> exact nofun
  | branch first _ conditions _ _ inner bodies last =>
      simp only [Form.segments, List.forall_mem_cons, List.forall_mem_append]
      exact ⟨tag_wellFormed (by decide) first.printable, segmentsAll_wellFormed inner,
        segmentsOthers_wellFormed conditions bodies, segmentsElse_wellFormed (by decide) last,
        endTag_wellFormed _ _, nofun⟩
  | @loop _ _ _ _ start _ _ words expr _ _ inner last =>
      simp only [Form.segments, List.forall_mem_cons, List.forall_mem_append]
      have head := (target_printable words).append
        ((Printable.word (w := "in") (by decide)).cons expr.printable)
      exact ⟨tag_wellFormed (by decide) head, segmentsAll_wellFormed inner,
        segmentsElse_wellFormed (by cases start <;> decide) last, endTag_wellFormed _ _, nofun⟩
  | «while» expr _ inner =>
      simp only [Form.segments, List.forall_mem_cons, List.forall_mem_append]
      exact ⟨tag_wellFormed (by decide) expr.printable, segmentsAll_wellFormed inner,
        endTag_wellFormed _ _, nofun⟩
  | @block _ _ _ ending again isWord _ words inner =>
      simp only [Form.segments, List.forall_mem_cons, List.forall_mem_append]
      have last : Printable (again.toList.map word) :=
        words_printable fun n mem => words n (Option.mem_toList.mp mem)
      exact ⟨tag_wellFormed (by decide) (.word isWord), segmentsAll_wellFormed inner,
        tag_wellFormed (List.mem_append_right _ (word_mem ending .block)) last, nofun⟩
  | «include» _ =>
      exact List.forall_mem_singleton.mpr (tag_wellFormed (by decide) (string_printable _))
  | set isWord expr =>
      exact List.forall_mem_singleton.mpr (tag_wellFormed (by decide)
        ((Printable.word isWord).cons ((Printable.symbol (by decide)).cons expr.printable)))
  | spaceless _ inner =>
      simp only [Form.segments, List.forall_mem_cons, List.forall_mem_append]
      exact ⟨tag_wellFormed (by decide) .nil, segmentsAll_wellFormed inner, endTag_wellFormed _ _,
        nofun⟩
  | @debug _ value expr =>
      refine List.forall_mem_singleton.mpr (tag_wellFormed (by decide) ?_)
      cases value with
      | none => exact .nil
      | some e => exact (expr e rfl).printable
  | autoescape known _ inner =>
      simp only [Form.segments, List.forall_mem_cons, List.forall_mem_append]
      exact ⟨tag_wellFormed (by decide) (mode_printable known), segmentsAll_wellFormed inner,
        endTag_wellFormed _ _, nofun⟩

end Form

theorem Page.WellFormed.segments {room : Nat} {page : Page} (wf : page.WellFormed room) :
    ∀ s ∈ page.segments, s.WellFormed := by
  have all : ∀ {fs : List Form}, (∀ f ∈ fs, f.WellFormed room) →
      ∀ s ∈ Form.segmentsAll fs, s.WellFormed :=
    fun each => Form.segmentsAll_wellFormed fun f mem => (each f mem).segments
  rw [Page.segments, List.forall_mem_append]
  refine ⟨all wf.forms, ?_⟩
  cases parent : page.parent with
  | none => exact nofun
  | some x =>
      rw [List.forall_mem_cons]
      exact ⟨Form.tag_wellFormed (by decide) (Form.string_printable x.1),
        all (wf.parent x parent).2⟩

/-! The pieces of a form. -/

namespace Form

open Stmt (eraseAll)

/-- Whatever comes after it, a form is read piece by piece, and the pieces give its statements. -/
def Parsed (limit : Int) (room : Nat) (f : Form) : Prop :=
  ∀ (opened escape : Bool) (parent : Option Parent) (ts rest : List Token),
    Reader.lexemes ts = f.lexemes →
      ∃ as, Parse.Repeats (piece? limit (insideOf limit room) opened escape) parent (ts ++ rest) as
          parent rest ∧
        eraseAll as.flatten = eraseAll (f.stmts escape)

variable {limit : Int} {room : Nat}

theorem parsed_all {fs : List Form} (each : ∀ f ∈ fs, f.Parsed limit room) (opened escape : Bool)
    (parent : Option Parent) {ts : List Token} (written : Reader.lexemes ts = lexemesAll fs)
    (rest : List Token) :
    ∃ as, Parse.Repeats (piece? limit (insideOf limit room) opened escape) parent (ts ++ rest) as
        parent rest ∧
      eraseAll as.flatten = eraseAll (stmtsAll escape fs) := by
  induction fs generalizing ts with
  | nil =>
      cases List.map_eq_nil_iff.mp written
      exact ⟨[], .nil, rfl⟩
  | cons f fs ih =>
      rw [List.forall_mem_cons] at each
      rw [lexemesAll_cons] at written
      obtain ⟨ts₁, ts₂, rfl, first, others⟩ := List.map_eq_append_iff.mp written
      obtain ⟨as, repeats, same⟩ := each.1 opened escape parent ts₁ (ts₂ ++ rest) first
      obtain ⟨bs, repeats', same'⟩ := ih each.2 others
      refine ⟨as ++ bs, List.append_assoc ts₁ ts₂ rest ▸ repeats.append repeats', ?_⟩
      rw [List.flatten_append, Stmt.eraseAll_append, same, same', stmtsAll, Stmt.eraseAll_append]

/-- Inside a block, forms are the body up to the tag that goes on with the block or ends it. -/
theorem body_means {fs : List Form} (each : ∀ f ∈ fs, f.Parsed limit room) (escape : Bool) :
    Means (body limit room true escape) (lexemesAll fs) (stmtsAll escape fs) := by
  intro parent ts rest written tagged
  obtain ⟨as, repeats, same⟩ := parsed_all each true escape parent written rest
  refine ⟨as.flatten, ?_, same⟩
  rw [body_eq]
  exact bodyWith_ok repeats (piece?_tagged tagged)

theorem parsed_of_nothing {f : Form} (nothing : f.lexemes = [])
    (none : ∀ escape, f.stmts escape = []) : f.Parsed limit room := by
  intro opened escape parent ts rest written
  cases List.map_eq_nil_iff.mp (written.trans nothing)
  exact ⟨[], .nil, by rw [none]; rfl⟩

theorem parsed_of_text {f : Form} {value : String} (written : f.lexemes = [(.data, value)])
    (means : ∀ escape, f.stmts escape = [.text .start value]) : f.Parsed limit room := by
  intro opened escape parent ts rest tokens
  obtain ⟨t, ts, rfl, first, others⟩ := List.map_eq_cons_iff.mp (tokens.trans written)
  cases List.map_eq_nil_iff.mp others
  have kind : t.kind = .data := congrArg Prod.fst first
  have text : t.text = value := congrArg Prod.snd first
  refine ⟨_, .cons (piece?_text kind rest) (Nat.lt_succ_self _) .nil, ?_⟩
  rw [means, text]
  rfl

/-- A form that is one statement, whose tags are read by the reader of its keyword. -/
theorem parsed_of_statement {f : Form} {k : String} {ks : List Lexeme}
    (written : f.lexemes = opening .statement :: word k :: ks) (other : k ∉ continuationKeywords)
    (parses : ∀ (opened escape : Bool) (keyword : Token), keyword.text = k →
      Parse.Parses (statement limit (insideOf limit room) opened escape keyword) ks (fun _ => True)
        fun a => eraseAll a = eraseAll (f.stmts escape)) : f.Parsed limit room := by
  intro opened escape parent ts rest tokens
  obtain ⟨start, ts, rfl, first, more⟩ := List.map_eq_cons_iff.mp (tokens.trans written)
  obtain ⟨keyword, ts, rfl, second, inside⟩ := List.map_eq_cons_iff.mp more
  obtain ⟨ss, read, same⟩ :=
    parses opened escape keyword (congrArg Prod.snd second) parent ts rest inside trivial
  have piece := piece?_statement (congrArg Prod.fst first) second other read
  refine ⟨[ss], .cons piece ?_ .nil, by simpa using same⟩
  simp only [List.length_cons, List.length_append]
  omega

theorem parsed_of_output {value : Expr} (wf : value.WellFormed) (raw : Bool) :
    (Form.output value raw).Parsed limit room := by
  intro opened escape parent ts rest tokens
  have written : (Form.output value raw).lexemes =
      Lexeme.tag (if raw then .raw else .escaped) value.lexemes := by
    simp [Form.lexemes, segments, Segment.lexemes]
  obtain ⟨start, ts, rfl, first, inside⟩ := List.map_eq_cons_iff.mp (tokens.trans written)
  have reads : Reads (Grammar.output start (if raw then .raw else .escaped) escape)
      (value.lexemes ++ [closing (if raw then .raw else .escaped)]) (fun _ => True) _ :=
    output_reads wf start _ escape
  obtain ⟨s, read, a, rfl, like⟩ := reads ts rest inside trivial
  have same : a.erase = value.erase := like
  refine ⟨_, .cons (piece?_output (congrArg Prod.fst first) ?_ read) ?_ .nil, ?_⟩
  · cases raw <;> decide
  · simp only [List.cons_append, List.length_cons, List.length_append]
    omega
  · cases raw <;> simp [eraseAll, Stmt.erase, stmts, same]

theorem single_parses {r : Parse Stmt} {ks : List Lexeme} {Follow : List Lexeme → Prop} {s : Stmt}
    (parses : Parse.Parses r ks Follow fun a => a.erase = s.erase) :
    Parse.Parses (r >>= fun a => pure [a]) ks Follow fun a => eraseAll a = eraseAll [s] :=
  .last parses fun a same => .pure (by rw [eraseAll, eraseAll, same, eraseAll, eraseAll])

/-- A form that is one block, read by the reader of its keyword with one block less to open. -/
theorem parsed_of_block {f : Form} {k : String} {reader : Token → Parse (List Stmt) → Parse Stmt}
    {ks : List Lexeme} {s : Bool → Stmt} (known : blockReader? k = some reader)
    (written : f.lexemes = opening .statement :: word k :: ks)
    (means : ∀ escape, f.stmts escape = [s escape])
    (parses : ∀ (escape : Bool) (keyword : Token),
      Parse.Parses (reader keyword (body limit room true escape)) ks (fun _ => True)
        fun a => a.erase = (s escape).erase) : f.Parsed limit (room + 1) := by
  have opens := opens_of_blockReader? known
  refine parsed_of_statement written opens fun opened escape keyword text => ?_
  rw [insideOf, statement_block known text, means]
  exact single_parses (parses escape keyword)

theorem WellFormed.parsed {f : Form} (wf : f.WellFormed room) : f.Parsed limit room := by
  induction wf with
  | text _ => exact parsed_of_text rfl fun _ => rfl
  | comment _ => exact parsed_of_nothing rfl fun _ => rfl
  | @verbatim _ kind content _ =>
      by_cases empty : content = ""
      · exact parsed_of_nothing (by simp [Form.lexemes, Form.segments, Segment.lexemes, empty])
          fun _ => by simp [stmts, empty]
      · have written : (Form.verbatim kind content).lexemes = [(.data, content)] := by
          simp [Form.lexemes, Form.segments, Segment.lexemes, empty]
        exact parsed_of_text written fun _ => by simp [stmts, empty]
  | output expr => exact parsed_of_output expr _
  | @branch _ _ _ _ _ ending first _ conditions _ _ inner bodies last =>
      refine parsed_of_block (show blockReader? "if" = _ from rfl) ?_ (fun _ => rfl)
        fun escape keyword => branchBlock_parses first (body_means inner escape) conditions
          (fun x mem => body_means (bodies x mem) escape)
          (fun fs mem => body_means (last fs mem) escape) ending keyword
      simp [Form.lexemes, Form.segments, Segment.lexemes, lexemes_segmentsOthers, lexemesAll, tag,
        endTag]
  | @loop _ _ _ _ start _ ending _ expr _ _ inner last =>
      refine parsed_of_block (show blockReader? "for" = _ from rfl) ?_ (fun _ => rfl)
        fun escape keyword => loopBlock_parses start expr (body_means inner escape)
          (fun fs mem => body_means (last fs mem) escape) ending keyword
      simp [Form.lexemes, Form.segments, Segment.lexemes, lexemesAll, tag, endTag]
  | @«while» _ _ _ ending expr _ inner =>
      refine parsed_of_block (show blockReader? "while" = _ from rfl) ?_ (fun _ => rfl)
        fun escape keyword => whileBlock_parses expr (body_means inner escape) ending keyword
      simp [Form.lexemes, Form.segments, Segment.lexemes, lexemesAll, tag, endTag]
  | @block _ name _ ending again _ _ _ inner =>
      refine parsed_of_block (show blockReader? "block" = _ from rfl) ?_ (fun _ => rfl)
        fun escape keyword => namedBlock_parses (body_means inner escape) ending again keyword
      simp [Form.lexemes, Form.segments, Segment.lexemes, lexemesAll, tag]
  | «include» nonempty =>
      refine parsed_of_statement rfl (by decide) fun opened escape keyword text => ?_
      unfold statement
      simp only [text]
      refine .last (.read (templateName_reads nonempty "include")) ?_
      rintro _ rfl
      exact .pure rfl
  | @set _ target value _ expr =>
      refine parsed_of_statement rfl (by decide) fun opened escape keyword text => ?_
      unfold statement
      simp only [text]
      have reads : Parse.Parses (Parse.read (setStatement keyword))
          (word target :: symbol .assign :: (value.lexemes ++ [closing .statement])) (fun _ => True)
          fun s => s.erase = (Stmt.set .start ⟨.start, target⟩ value).erase :=
        .read (setStatement_reads expr keyword)
      simpa [Lexeme.tag, stmts] using single_parses reads
  | @spaceless _ _ ending _ inner =>
      refine parsed_of_block (show blockReader? "spaceless" = _ from rfl) ?_ (fun _ => rfl)
        fun escape keyword => spacelessBlock_parses (body_means inner escape) ending keyword
      simp [Form.lexemes, Form.segments, Segment.lexemes, lexemesAll, tag, endTag]
  | @debug _ value expr =>
      refine parsed_of_statement rfl (by decide) fun opened escape keyword text => ?_
      unfold statement
      simp only [text]
      have reads : Parse.Parses (Parse.read (debugStatement keyword))
          (value.elim [] Expr.lexemes ++ [closing .statement]) (fun _ => True)
          fun s => s.erase = (Stmt.debug .start value "").erase :=
        .read (debugStatement_reads expr keyword)
      simpa [Lexeme.tag, stmts] using single_parses reads
  | @autoescape _ mode body ending known _ inner =>
      have written : (Form.autoescape mode body ending).lexemes =
          opening .statement :: word "autoescape" ::
            (mode.toList ++ closing .statement :: (lexemesAll body ++
              Lexeme.tag .statement [word (ending.word .autoescape)])) := by
        simp [Form.lexemes, Form.segments, Segment.lexemes, lexemesAll, tag, endTag]
      refine parsed_of_statement written (by decide) fun opened escape keyword text => ?_
      unfold statement
      simp only [text]
      exact autoescapeBlock_parses known (body_means inner (escaping mode)) ending keyword

end Form

/-! Pages. -/

namespace Page

theorem template_ok {page : Page} {limit : Int} (wf : page.WellFormed limit.toNat)
    {ts : List Token} (written : lexemes ts = page.segments.flatMap Segment.lexemes) :
    ∃ t, Grammar.template limit ts = .ok t ∧ t.erase = page.template.erase := by
  have pieces : ∀ {fs : List Form}, (∀ f ∈ fs, f.WellFormed limit.toNat) →
      ∀ (parent : Option Parent) {ts : List Token}, lexemes ts = Form.lexemesAll fs →
        ∀ rest, ∃ as, Parse.Repeats (piece? limit (insideOf limit limit.toNat) false true) parent
            (ts ++ rest) as parent rest ∧
          Stmt.eraseAll as.flatten = Stmt.eraseAll (Form.stmtsAll true fs) :=
    fun each parent _ written =>
      Form.parsed_all (fun f mem => (each f mem).parsed) false true parent written
  obtain ⟨forms, parent⟩ := page
  rw [segments, List.flatMap_append] at written
  cases parent with
  | none =>
      rw [List.flatMap_nil, List.append_nil] at written
      obtain ⟨as, repeats, same⟩ := pieces wf.forms none written []
      rw [List.append_nil] at repeats
      refine ⟨_, Grammar.template_ok repeats, ?_⟩
      simp [Template.erase, Page.template, same, Form.stmtsAll]
  | some x =>
      obtain ⟨template, after⟩ := x
      obtain ⟨nonempty, each⟩ := wf.parent _ rfl
      have split : lexemes ts = Form.lexemesAll forms ++ opening .statement :: word "extends" ::
          ([(.string, template), closing .statement] ++ Form.lexemesAll after) := written
      obtain ⟨ts₁, ts₂, rfl, first, behind⟩ := List.map_eq_append_iff.mp split
      obtain ⟨start, ts₂, rfl, opens, behind⟩ := List.map_eq_cons_iff.mp behind
      obtain ⟨keyword, ts₂, rfl, second, behind⟩ := List.map_eq_cons_iff.mp behind
      obtain ⟨ts₂, ts₃, rfl, named, third⟩ := List.map_eq_append_iff.mp behind
      obtain ⟨as, repeats, same⟩ :=
        pieces wf.forms none first (start :: keyword :: (ts₂ ++ ts₃))
      obtain ⟨bs, repeats', same'⟩ := pieces each (some ⟨keyword.pos, template⟩) third []
      rw [List.append_nil] at repeats'
      have name : Reads (templateName "extends") [(.string, template), closing .statement]
          (fun _ => True) (· = template) := templateName_reads nonempty "extends"
      obtain ⟨given, read, equal⟩ := name ts₂ ts₃ named trivial
      rw [equal] at read
      have extended : piece? limit (insideOf limit limit.toNat) false true none
          (start :: keyword :: (ts₂ ++ ts₃)) = .ok ((some [], some ⟨keyword.pos, template⟩), ts₃) :=
        piece?_statement (congrArg Prod.fst opens) second (by decide)
          (statement_extends (congrArg Prod.snd second) read)
      have shorter : ts₃.length < (start :: keyword :: (ts₂ ++ ts₃)).length := by
        simp only [List.length_cons, List.length_append]
        omega
      refine ⟨_, Grammar.template_ok (repeats.append (.cons extended shorter repeats')), ?_⟩
      simp [Template.erase, Page.template, Stmt.eraseAll_append, same, same']

/-- The text of a well-formed page is read as the template that the page means, up to places and the
labels of debugging. -/
theorem template_text {page : Page} (limit : Int) (wf : page.WellFormed limit.toNat)
    (name filename : Option String) :
    ∃ t, Source.template ⟨page.text, name, filename⟩ limit = .ok t ∧
      t.erase = page.template.erase := by
  obtain ⟨stream, tokens, written⟩ :=
    TokenStream.ofSource?_of_cuts (Segment.cuts_all wf.segments wf.apart)
  obtain ⟨t, given, same⟩ := template_ok wf written
  refine ⟨t, Source.template_of_tokens ?_ given, same⟩
  rw [Source.tokens, text, String.toList_ofList, tokens]

/-- A page with a form of most kinds, and a parent named after the first of them. -/
def greeting : Page where
  forms :=
    [.text "Hello \x7b ", .comment " \x7b\x7b unread ",
      .branch (.name .start "user") [.output (.name .start "user") false]
        [(.elif, .const .start (.bool true),
          [.autoescape (some (word "OFF")) [.output (.name .start "note") false] .common])]
        (some [.verbatim .raw "\x7b\x7b x \x7d\x7d"]) .own]
  parent := some ("base",
    [.block "body"
      [.loop (.pair ⟨.start, "k"⟩ ⟨.start, "v"⟩) (.name .start "items") [.text "-"] .empty
        (some [.output (.name .start "none_left") true]) .common] .own (some "body"),
      .text "\x7b"])

theorem greeting_wellFormed : greeting.WellFormed 2 where
  forms := by
    have name : ∀ {n : String}, Scan.isWord n.toList = true → n ∉ reserved →
        Expr.WellFormed (.name .start n) := .name
    have literal : Expr.WellFormed (.const .start (.bool true)) := .const trivial
    have hello : (Segment.text "Hello \x7b ").WellFormed :=
      .text (by decide) (Scan.plain_of_splitText (by decide))
    have escaped : Form.WellFormed 1
        (.autoescape (some (word "OFF")) [.output (.name .start "note") false] .common) :=
      .autoescape (by decide) (by simpa using .output (name (by decide) (by decide)))
    have unread : Form.WellFormed 1 (.verbatim .raw "\x7b\x7b x \x7d\x7d") := by
      refine .verbatim (.verbatim fun first second _ _ found => ?_)
      exact absurd (found.subset (List.mem_cons_of_mem _ List.mem_cons_self)) (by decide)
    simp only [greeting, List.forall_mem_cons]
    refine ⟨.text hello, .comment (.comment (by decide)),
      .branch (name (by decide) (by decide)) ?_ ?_ ?_ ?_, nofun⟩
    · simpa using .output (name (by decide) (by decide))
    · simpa using literal
    · simpa using escaped
    · simpa using unread
  parent := by
    have items : Expr.WellFormed (.name .start "items") := .name (by decide) (by decide)
    have raw : Form.WellFormed 0 (.output (.name .start "none_left") true) :=
      .output (.name (by decide) (by decide))
    have dash : (Segment.text "-").WellFormed :=
      .text (by decide) (Scan.plain_of_splitText (by decide))
    have brace : (Segment.text "\x7b").WellFormed :=
      .text (by decide) (Scan.plain_of_splitText (by decide))
    have loop : Form.WellFormed 1 (.loop (.pair ⟨.start, "k"⟩ ⟨.start, "v"⟩)
        (.name .start "items") [.text "-"] .empty
        (some [.output (.name .start "none_left") true]) .common) :=
      .loop (by decide) items (by simpa using .text dash) (by simpa using raw)
    rintro _ ⟨⟩
    simp only [List.forall_mem_cons]
    exact ⟨by decide, .block (by decide) (by simpa using loop) (by decide), .text brace, nofun⟩
  apart := by decide

theorem template_text_greeting :
    greeting.WellFormed 2 ∧
      greeting.text = "Hello \x7b \x7b# \x7b\x7b unread #\x7d\x7b% if user %\x7d" ++
        "\x7b\x7b user \x7d\x7d\x7b% elif true %\x7d\x7b% autoescape OFF %\x7d" ++
        "\x7b\x7b note \x7d\x7d\x7b% end %\x7d\x7b% else %\x7d\x7b% raw %\x7d" ++
        "\x7b\x7b x \x7d\x7d\x7b% endraw %\x7d\x7b% endif %\x7d\x7b% extends \"base\" %\x7d" ++
        "\x7b% block body %\x7d\x7b% for k , v in items %\x7d-\x7b% empty %\x7d" ++
        "\x7b! none_left !\x7d\x7b% end %\x7d\x7b% endblock body %\x7d\x7b" ∧
      ∃ t, Source.template ⟨greeting.text, none, none⟩ 2 = .ok t ∧
        t.erase = ⟨[.text .start "Hello \x7b ",
          .branch .start (.name .start "user") [.output .start (.name .start "user") true]
            [(.const .start (.bool true), [.output .start (.name .start "note") false])]
            [.text .start "\x7b\x7b x \x7d\x7d"],
          .block .start "body" [.loop .start (.pair ⟨.start, "k"⟩ ⟨.start, "v"⟩)
            (.name .start "items") [.text .start "-"]
            [.output .start (.name .start "none_left") false]],
          .text .start "\x7b"], some ⟨.start, "base"⟩⟩ :=
  ⟨greeting_wellFormed, by decide +kernel, template_text 2 greeting_wellFormed none none⟩

end Page

end Stencil
