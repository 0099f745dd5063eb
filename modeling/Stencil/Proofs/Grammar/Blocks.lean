import Stencil.Proofs.Grammar.Page
import Stencil.Proofs.Grammar.RoundTrip

namespace Stencil.Grammar

open Lexeme Reader

variable {Follow : List Lexeme → Prop}

/-! Tags. -/

def Tagged (keywords : List String) (ls : List Lexeme) : Prop :=
  ∃ k ∈ keywords, ∃ more, ls = opening .statement :: word k :: more

theorem Tagged.mono {few many : List String} {ls : List Lexeme} (tagged : Tagged few ls)
    (sub : few ⊆ many) : Tagged many ls := by
  obtain ⟨k, mem, more, written⟩ := tagged
  exact ⟨k, sub mem, more, written⟩

theorem Tagged.tag {keywords : List String} {k : String} {inside more : List Lexeme}
    (mem : k ∈ keywords) : Tagged keywords (Lexeme.tag .statement (word k :: inside) ++ more) :=
  ⟨k, mem, _, rfl⟩

theorem atKeyword_ok {keywords : List String} {k : String} {ts : List Token}
    {more : List Lexeme} (written : lexemes ts = opening .statement :: word k :: more) :
    atKeyword keywords ts = .ok (keywords.contains k, ts) := by
  obtain ⟨⟨kind, text, p⟩, ts, rfl, first, written⟩ := List.map_eq_cons_iff.mp written
  obtain ⟨⟨kind', text', p'⟩, ts, rfl, second, _⟩ := List.map_eq_cons_iff.mp written
  cases first
  cases second
  rfl

theorem atKeyword_reads {α : Type} {P : α → Prop} {keywords : List String} {k : String}
    {f : Bool → Reader α} {ls : List Lexeme}
    (reads : Reads (f (keywords.contains k)) (opening .statement :: word k :: ls) Follow P) :
    Reads (atKeyword keywords >>= f) (opening .statement :: word k :: ls) Follow P := by
  intro ts rest written after
  obtain ⟨a, read, holds⟩ := reads ts rest written after
  have looked : atKeyword keywords (ts ++ rest) = .ok (keywords.contains k, ts ++ rest) :=
    atKeyword_ok (List.map_append.trans (congrArg (· ++ lexemes rest) written))
  exact ⟨a, (bind_ok looked).trans read, holds⟩

theorem skipKeyword_reads {k : String} :
    Reads skipKeyword [opening .statement, word k] Follow fun _ => True :=
  .cons .skip fun _ _ => .skip

theorem expectClosing_reads : Reads expectClosing [closing .statement] Follow fun _ => True :=
  .last .expect fun _ _ => .pure trivial

theorem endTag_reads (kind : BlockKind) (ending : Ending) (line : Nat) (again : Option String)
    (named : again = none ∨ kind = .block) :
    Reads (endTag kind line)
      (Lexeme.tag .statement (word (ending.word kind) :: again.toList.map word)) Follow
      fun _ => True := by
  have known : ["end", kind.endKeyword].contains (ending.word kind) = true := by
    cases ending <;> simp [Ending.word]
  refine .peek fun t _ => atKeyword_reads ?_
  simp only [known, if_true]
  have skipped : Reads skipKeyword [opening .statement, word (ending.word kind)] (fun _ => True)
      fun _ => True := skipKeyword_reads
  refine skipped.bind (fun _ _ => trivial) fun _ _ => ?_
  cases again with
  | none =>
      split
      · refine .missed (fun t first => ?_) expectClosing_reads
        have other : t.kind = .closing .statement := congrArg Prod.fst first
        simp [other]
      · exact expectClosing_reads
  | some n =>
      have isBlock : kind = .block := named.resolve_left (Option.some_ne_none n)
      rw [if_pos isBlock]
      exact .cons .accept fun _ _ => expectClosing_reads

/-! Pieces. -/

section Pieces

variable {limit : Int} {inside : Inside} {opened escape : Bool} {parent : Option Parent}

theorem piece?_text {t : Token} (kind : t.kind = .data) (rest : List Token) :
    piece? limit inside opened escape parent (t :: rest) =
      .ok ((some [.text t.pos t.text], parent), rest) := by
  refine (Parse.bind_of_ok (r := peek) rfl).trans ?_
  simp only [List.head?_cons, kind]
  rfl

theorem piece?_tagged {ts : List Token} (tagged : Tagged continuationKeywords (lexemes ts)) :
    piece? limit inside true escape parent ts = .ok ((none, parent), ts) := by
  obtain ⟨k, mem, more, written⟩ := tagged
  obtain ⟨start, ts, rfl, first, written⟩ := List.map_eq_cons_iff.mp written
  obtain ⟨keyword, ts, rfl, second, _⟩ := List.map_eq_cons_iff.mp written
  have kind : start.kind = .opening .statement := congrArg Prod.fst first
  have kind' : keyword.kind = .name := congrArg Prod.fst second
  have text : keyword.text = k := congrArg Prod.snd second
  have continues : isWord continuationKeywords keyword = true := by
    simp [isWord, kind', text, mem]
  refine (Parse.bind_of_ok (r := peek) rfl).trans ?_
  simp only [List.head?_cons, kind]
  refine (Parse.bind_of_ok (r := peekNext) rfl).trans ?_
  simp only [List.tail_cons, List.head?_cons, continues, if_true]
  rfl

theorem piece?_statement {start keyword : Token} {k : String} {ts rest : List Token}
    {parent' : Option Parent} {ss : List Stmt} (first : start.kind = .opening .statement)
    (second : keyword.lexeme = word k) (other : k ∉ continuationKeywords)
    (read : statement limit inside opened escape keyword parent ts = .ok ((ss, parent'), rest)) :
    piece? limit inside opened escape parent (start :: keyword :: ts) =
      .ok ((some ss, parent'), rest) := by
  have kind : keyword.kind = .name := congrArg Prod.fst second
  have text : keyword.text = k := congrArg Prod.snd second
  have ordinary : isWord continuationKeywords keyword = false := by
    simp [isWord, text, other]
  refine (Parse.bind_of_ok (r := peek) rfl).trans ?_
  simp only [List.head?_cons, first]
  refine (Parse.bind_of_ok (r := peekNext) rfl).trans ?_
  simp only [List.tail_cons, List.head?_cons, ordinary, Bool.false_eq_true, if_false]
  refine (Parse.bind_of_ok (r := skip) rfl).trans ?_
  simp only [kind, if_true]
  refine (Parse.bind_of_ok (r := skip) rfl).trans ?_
  exact Parse.bind_ok read

end Pieces

/-! Statements without a body. -/

theorem templateName_reads {template : String} (nonempty : template ≠ "") (keyword : String) :
    Reads (templateName keyword) [(.string, template), closing .statement] Follow
      (· = template) := by
  refine .cons .accept ?_
  rintro _ ⟨t, rfl, first⟩
  have text : t.text = template := congrArg Prod.snd first
  simp only [text, nonempty, if_false]
  exact .last expectClosing_reads fun _ _ => .pure rfl

theorem closedExpr_reads {α : Type} {P : α → Prop} {e : Expr} (wf : e.WellFormed)
    {f : Expr → Reader α} {ls : List Lexeme}
    (after : ∀ a, Like e a → Reads (f a) (closing .statement :: ls) Follow P) :
    Reads (expr >>= f) (e.lexemes ++ closing .statement :: ls) Follow P :=
  .bind (expr_reads wf) (fun _ _ => nofun) after

theorem setStatement_reads {target : String} {value : Expr} (wf : value.WellFormed)
    (keyword : Token) :
    Reads (setStatement keyword)
      (word target :: symbol .assign :: (value.lexemes ++ [closing .statement])) Follow fun s =>
        s.erase = (Stmt.set .start ⟨.start, target⟩ value).erase := by
  refine .cons .expect fun t first => .cons .expect fun _ _ => closedExpr_reads wf fun a like =>
    .last expectClosing_reads fun _ _ => .pure ?_
  have name : t.text = target := congrArg Prod.snd first
  have same : a.erase = value.erase := like
  simp [Stmt.erase, Binder.erase, name, same]

theorem debugStatement_reads {value : Option Expr} (wf : ∀ e ∈ value, e.WellFormed)
    (keyword : Token) :
    Reads (debugStatement keyword) (value.elim [] Expr.lexemes ++ [closing .statement]) Follow
      fun s => s.erase = (Stmt.debug .start value "").erase := by
  cases value with
  | none =>
      refine .cons .accept ?_
      rintro _ ⟨t, rfl, _⟩
      exact .pure rfl
  | some e =>
      have more : Reads (expr >>= fun value => expectClosing >>= fun _ =>
            pure (Stmt.debug keyword.pos (some value) value.label))
          (e.lexemes ++ [closing .statement]) Follow
          fun s => s.erase = (Stmt.debug .start (some e) "").erase :=
        closedExpr_reads (wf e rfl) fun a like => .last expectClosing_reads fun _ _ => .pure (by
          have same : a.erase = e.erase := like
          simp [Stmt.erase, same])
      obtain ⟨l, others, found, written, opens, _⟩ := (wf e rfl).readable.begins.opens
      rw [Option.elim_some]
      rw [written] at more ⊢
      refine .missed (fun t first => ?_) more
      have other : t.kind ≠ .closing .statement := by
        intro kind
        rw [← first, Token.lexeme, kind] at opens
        cases opens
      simp [other]

theorem escapeMode_reads {mode : Option Lexeme}
    (known : ∀ l ∈ mode, (l.1 = .string ∨ l.1 = .name ∧ Scan.isWord l.2.toList = true) ∧
      (escapeMode? l.2).isSome = true) :
    Reads escapeMode mode.toList (fun ls => ∃ more, ls = closing .statement :: more)
      (· = Form.escaping mode) := by
  cases mode with
  | none =>
      rintro ts rest written ⟨more, after⟩
      cases List.map_eq_nil_iff.mp written
      obtain ⟨t, rest, rfl, first, _⟩ := List.map_eq_cons_iff.mp after
      have other : t.kind = .closing .statement := congrArg Prod.fst first
      have missed : acceptWhere (fun t => t.kind == .name || t.kind == .string) (t :: rest) =
          .ok (none, t :: rest) := by simp [acceptWhere, other]
      exact ⟨true, bind_ok missed, rfl⟩
  | some l =>
      obtain ⟨fits, legal⟩ := known l rfl
      have accepted : ∀ t : Token, t.lexeme = l →
          (t.kind == .name || t.kind == .string) = true := by
        rintro t rfl
        rcases fits with kind | ⟨kind, _⟩
        · simp [show t.kind = .string from kind]
        · simp [show t.kind = .name from kind]
      refine .last (.acceptWhere accepted) ?_
      rintro _ ⟨t, rfl, rfl⟩
      cases found : escapeMode? t.text with
      | none => simp [Token.lexeme, found] at legal
      | some b =>
          simp only [found]
          exact .pure (by cases b <;> simp [Form.escaping, Token.lexeme, found])

theorem loopTarget_reads (target : Target) :
    Reads loopTarget target.lexemes (fun ls => ∃ more, ls = word "in" :: more) fun a =>
      a.erase = target.erase := by
  have halts : Halts (acceptSymbol .comma >>= fun found =>
      if found = true then expect .name >>= fun t => pure (some t) else pure none)
      (fun ls => ∃ more, ls = word "in" :: more) := by
    rintro rest ⟨more, after⟩
    obtain ⟨t, rest, rfl, first, _⟩ := List.map_eq_cons_iff.mp after
    have missed : acceptSymbol .comma (t :: rest) = .ok (false, t :: rest) :=
      acceptSymbol_other fun t' head => by
        cases head
        have kind : t.kind = .name := congrArg Prod.fst first
        simp [kind]
    exact bind_ok missed
  cases target with
  | one item =>
      refine (Spine.of_reads .expect).reads (fun _ after => after) halts ?_
      rintro first _ ⟨name, rfl⟩
      refine .pure ?_
      have text : first.text = item.name := congrArg Prod.snd name
      simp [Target.erase, Binder.erase, text]
  | pair key value =>
      have round : Reads (acceptSymbol .comma >>= fun found =>
          if found = true then expect .name >>= fun t => pure (some t) else pure none)
          [symbol .comma, word value.name] (fun _ => True)
          fun a => ∃ t, a = some t ∧ t.lexeme = word value.name := by
        refine .cons (acceptSymbol_reads .comma) ?_
        rintro _ rfl
        exact .last .expect fun t first => .pure ⟨t, rfl, first⟩
      have first : Reads (expect .name) [word key.name] (fun _ => True)
          fun t => t.lexeme = word key.name := .expect
      have spine := (Spine.of_reads first).snoc (by simp) (fun _ => trivial) round
      refine spine.reads (fun _ _ => trivial) halts ?_
      rintro start _ ⟨_, second, rfl, ⟨name, rfl⟩, name'⟩
      refine .pure ?_
      have text : start.text = key.name := congrArg Prod.snd name
      have text' : second.text = value.name := congrArg Prod.snd name'
      simp [Target.erase, Binder.erase, text, text']

/-! Blocks. -/

section Blocks

open Stmt (eraseAll)

/-- Up to the tag that goes on with its block or ends it, a body gives statements like these. -/
abbrev Means (body : Parse (List Stmt)) (ks : List Lexeme) (ss : List Stmt) : Prop :=
  Parse.Parses body ks (Tagged continuationKeywords) fun a => eraseAll a = eraseAll ss

theorem word_mem (ending : Ending) (kind : BlockKind) :
    ending.word kind ∈ continuationKeywords := by
  cases ending <;> cases kind <;> decide

variable {body : Parse (List Stmt)} {ks : List Lexeme} {ss : List Stmt}

theorem ended_parses {α : Type} {P : α → Prop} (kind : BlockKind) (ending : Ending) (line : Nat)
    (again : Option String) (named : again = none ∨ kind = .block) {a : α} (holds : P a) :
    Parse.Parses (Parse.read (endTag kind line) >>= fun _ => pure a)
      (Lexeme.tag .statement (word (ending.word kind) :: again.toList.map word)) Follow P :=
  .last (.read (endTag_reads kind ending line again named)) fun _ _ => .pure holds

theorem closing_parses : Parse.Parses (Parse.read expectClosing) [closing .statement]
    (fun _ => True) fun _ => True :=
  .read expectClosing_reads

theorem guarded_parses {e : Expr} (wf : e.WellFormed) (means : Means body ks ss) :
    Parse.Parses (guarded body) (e.lexemes ++ closing .statement :: ks)
      (Tagged continuationKeywords) fun x => x.1.erase = e.erase ∧ eraseAll x.2 = eraseAll ss :=
  .bind (.read (expr_reads wf)) (fun _ _ => nofun) fun _ like =>
    closing_parses.seq fun _ _ => .last means fun _ same => .pure ⟨like, same⟩

theorem whileBlock_parses {condition : Expr} (wf : condition.WellFormed) (means : Means body ks ss)
    (ending : Ending) (keyword : Token) :
    Parse.Parses (whileBlock keyword body) ((condition.lexemes ++ closing .statement :: ks) ++
      Lexeme.tag .statement [word (ending.word .while)]) Follow
      fun s => s.erase = (Stmt.while .start condition ss).erase := by
  refine .bind (guarded_parses wf means) (fun _ _ => .tag (word_mem ending .while)) ?_
  rintro ⟨a, inner⟩ ⟨same, same'⟩
  exact ended_parses .while ending _ none (.inl rfl) (by simp [Stmt.erase, same, same'])

theorem namedBlock_parses {name : String} (means : Means body ks ss) (ending : Ending)
    (again : Option String) (keyword : Token) :
    Parse.Parses (namedBlock keyword body) (word name :: closing .statement :: (ks ++
      Lexeme.tag .statement (word (ending.word .block) :: again.toList.map word))) Follow
      fun s => s.erase = (Stmt.block .start name ss).erase := by
  have named : Parse.Parses (Parse.read (accept .name)) [word name] (fun _ => True)
      fun a => ∃ t, a = some t ∧ t.lexeme = word name := .read .accept
  refine named.seq ?_
  rintro _ ⟨t, rfl, first⟩
  have text : t.text = name := congrArg Prod.snd first
  refine closing_parses.seq fun _ _ => ?_
  refine .bind means (fun _ _ => .tag (word_mem ending .block)) fun inner same => ?_
  exact ended_parses .block ending _ again (.inr rfl) (by simp [Stmt.erase, same, text])

theorem spacelessBlock_parses (means : Means body ks ss) (ending : Ending) (keyword : Token) :
    Parse.Parses (spacelessBlock keyword body) (closing .statement :: (ks ++
      Lexeme.tag .statement [word (ending.word .spaceless)])) Follow
      fun s => s.erase = (Stmt.spaceless .start ss).erase := by
  refine closing_parses.seq fun _ _ => ?_
  refine .bind means (fun _ _ => .tag (word_mem ending .spaceless)) fun inner same => ?_
  exact ended_parses .spaceless ending _ none (.inl rfl) (by simp [Stmt.erase, same])

theorem autoescapeBlock_parses {mode : Option Lexeme} {body : Bool → Parse (List Stmt)}
    (known : ∀ l ∈ mode, (l.1 = .string ∨ l.1 = .name ∧ Scan.isWord l.2.toList = true) ∧
      (escapeMode? l.2).isSome = true) (means : Means (body (Form.escaping mode)) ks ss)
    (ending : Ending) (keyword : Token) :
    Parse.Parses (autoescapeBlock keyword body) (mode.toList ++ closing .statement :: (ks ++
      Lexeme.tag .statement [word (ending.word .autoescape)])) Follow
      fun a => eraseAll a = eraseAll ss := by
  refine .bind (.read (escapeMode_reads known)) (fun _ _ => ⟨_, rfl⟩) ?_
  rintro _ rfl
  refine closing_parses.seq fun _ _ => ?_
  refine .bind means (fun _ _ => .tag (word_mem ending .autoescape)) fun inner same => ?_
  exact ended_parses .autoescape ending _ none (.inl rfl) same

theorem read_atKeyword {α : Type} {P : α → Prop} {keywords : List String} {k : String}
    {f : Bool → Parse α} {ls : List Lexeme}
    (parses : Parse.Parses (f (keywords.contains k)) (opening .statement :: word k :: ls) Follow
      P) :
    Parse.Parses (Parse.read (atKeyword keywords) >>= f) (opening .statement :: word k :: ls) Follow
      P := by
  intro parent ts rest written after
  obtain ⟨a, read, holds⟩ := parses parent ts rest written after
  have looked : atKeyword keywords (ts ++ rest) = .ok (keywords.contains k, ts ++ rest) :=
    atKeyword_ok (List.map_append.trans (congrArg (· ++ lexemes rest) written))
  exact ⟨a, (Parse.bind_of_ok looked).trans read, holds⟩

theorem read_atKeyword_other {α : Type} {keywords ends : List String} {f : Bool → Parse α}
    (others : ∀ k ∈ ends, keywords.contains k = false) {ts : List Token}
    (tagged : Tagged ends (lexemes ts)) (parent : Option Parent) :
    (Parse.read (atKeyword keywords) >>= f) parent ts = f false parent ts := by
  obtain ⟨k, mem, more, written⟩ := tagged
  have looked : atKeyword keywords ts = .ok (keywords.contains k, ts) := atKeyword_ok written
  rw [others k mem] at looked
  exact Parse.bind_of_ok looked

theorem skip_parses {k : String} :
    Parse.Parses (Parse.read skipKeyword) [opening .statement, word k] (fun _ => True)
      fun _ => True :=
  .read skipKeyword_reads

theorem continued_parses {keywords ends : List String} {keyword : String}
    {otherwise : Option (List Form)} {escape : Bool} (known : keywords.contains keyword = true)
    (others : ∀ k ∈ ends, keywords.contains k = false) (sub : ends ⊆ continuationKeywords)
    (means : ∀ fs ∈ otherwise, Means body (Form.lexemesAll fs) (Form.stmtsAll escape fs)) :
    Parse.Parses (continued keywords body)
      ((Form.segmentsElse keyword otherwise).flatMap Segment.lexemes) (Tagged ends)
      fun a => eraseAll a = eraseAll (Form.stmtsElse escape otherwise) := by
  cases otherwise with
  | none =>
      intro parent ts rest written tagged
      cases List.map_eq_nil_iff.mp written
      exact ⟨[], read_atKeyword_other others tagged parent, rfl⟩
  | some fs =>
      refine read_atKeyword ?_
      simp only [known, if_true]
      refine skip_parses.seq fun _ _ => closing_parses.seq fun _ _ => ?_
      exact (means fs rfl).mono (fun _ tagged => tagged.mono sub) fun _ same => same

def other? (body : Parse (List Stmt)) : Parse (Option (Expr × List Stmt)) := do
  if ← Parse.read (atKeyword ["elseif", "elif"]) then
    Parse.read skipKeyword
    return some (← guarded body)
  else return none

theorem other?_parses {x : ElseIf × Expr × List Form} (wf : x.2.1.WellFormed)
    (means : Means body (Form.lexemesAll x.2.2) ss) :
    Parse.Parses (other? body) (Form.lexemesOther x) (Tagged continuationKeywords)
      fun a? => ∃ a, a? = some a ∧ (a.1.erase, eraseAll a.2) = (x.2.1.erase, eraseAll ss) := by
  have known : ["elseif", "elif"].contains x.1.word = true := by cases x.1 <;> rfl
  rw [Form.lexemesOther, Lexeme.tag, List.cons_append, List.cons_append, List.cons_append,
    List.append_assoc]
  refine read_atKeyword ?_
  simp only [known, if_true]
  refine skip_parses.seq fun _ _ => ?_
  refine .last (guarded_parses wf means) ?_
  rintro a ⟨same, same'⟩
  exact .pure ⟨a, rfl, by rw [same, same']⟩

theorem others_parses {others : List (ElseIf × Expr × List Form)} {escape : Bool}
    {ends : List String} (conditions : ∀ x ∈ others, x.2.1.WellFormed)
    (means : ∀ x ∈ others, Means body (Form.lexemesAll x.2.2) (Form.stmtsAll escape x.2.2))
    (different : ∀ k ∈ ends, ["elseif", "elif"].contains k = false)
    (sub : ends ⊆ continuationKeywords) :
    Parse.Parses (Parse.many (other? body)) (others.flatMap Form.lexemesOther) (Tagged ends)
      fun a => Stmt.eraseOthers a = Stmt.eraseOthers (Form.stmtsOthers escape others) := by
  have rounds : Parse.Parses (Parse.many (other? body)) (others.flatMap Form.lexemesOther)
      (Tagged ends) fun a => a.map (fun x => (x.1.erase, eraseAll x.2)) =
        others.map fun x => (x.2.1.erase, eraseAll (Form.stmtsAll escape x.2.2)) := by
    refine .many Form.lexemesOther _ _ others (fun _ _ => List.cons_ne_nil _ _) ?_
      (fun _ tagged => tagged.mono sub)
      (fun x mem => other?_parses (conditions x mem) (means x mem))
      fun parent rest tagged => read_atKeyword_other different tagged parent
    intro x _ rest
    rw [Form.lexemesOther, List.append_assoc]
    exact .tag (by cases x.1 <;> decide)
  refine rounds.mono (fun _ tagged => tagged) fun a same => ?_
  rw [Stmt.eraseOthers_eq_map, Stmt.eraseOthers_eq_map, Form.stmtsOthers_eq_map, List.map_map]
  exact same

theorem branchBlock_parses {condition : Expr} {others : List (ElseIf × Expr × List Form)}
    {otherwise : Option (List Form)} {escape : Bool} (wf : condition.WellFormed)
    (means : Means body ks ss) (conditions : ∀ x ∈ others, x.2.1.WellFormed)
    (bodies : ∀ x ∈ others, Means body (Form.lexemesAll x.2.2) (Form.stmtsAll escape x.2.2))
    (last : ∀ fs ∈ otherwise, Means body (Form.lexemesAll fs) (Form.stmtsAll escape fs))
    (ending : Ending) (keyword : Token) :
    Parse.Parses (branchBlock keyword body) ((condition.lexemes ++ closing .statement :: ks) ++
      (others.flatMap Form.lexemesOther ++
        ((Form.segmentsElse "else" otherwise).flatMap Segment.lexemes ++
          Lexeme.tag .statement [word (ending.word .branch)]))) Follow
      fun s => s.erase = (Stmt.branch .start condition ss (Form.stmtsOthers escape others)
        (Form.stmtsElse escape otherwise)).erase := by
  have ended : ∀ rest, Tagged ["end", "endif"]
      (Lexeme.tag .statement [word (ending.word .branch)] ++ rest) :=
    fun _ => .tag (by cases ending <;> decide)
  have continued : ∀ rest, Tagged ["else", "end", "endif"]
      (((Form.segmentsElse "else" otherwise).flatMap Segment.lexemes ++
        Lexeme.tag .statement [word (ending.word .branch)]) ++ rest) := by
    intro rest
    cases otherwise with
    | none => exact (ended rest).mono (by decide)
    | some fs => exact ⟨"else", by decide, _, rfl⟩
  refine .bind (guarded_parses wf means) (fun rest _ => ?_) ?_
  · cases others with
    | nil => exact (continued rest).mono (by decide)
    | cons x others => exact ⟨x.1.word, by cases x.1 <;> decide, _, rfl⟩
  rintro ⟨a, first⟩ ⟨test, inner⟩
  refine .bind (others_parses conditions bodies (by decide) (by decide))
    (fun rest _ => continued rest) fun others' further => ?_
  refine .bind (continued_parses (by decide) (by decide) (by decide) last)
    (fun rest _ => ended rest) fun otherwise' final => ?_
  exact ended_parses .branch ending _ none (.inl rfl)
    (by simp [Stmt.erase, test, inner, further, final])

theorem loopBlock_parses {target : Target} {items : Expr} {empty : Option (List Form)}
    {escape : Bool} (start : ForEmpty) (wf : items.WellFormed) (means : Means body ks ss)
    (last : ∀ fs ∈ empty, Means body (Form.lexemesAll fs) (Form.stmtsAll escape fs))
    (ending : Ending) (keyword : Token) :
    Parse.Parses (loopBlock keyword body) (target.lexemes ++ word "in" :: (items.lexemes ++
      closing .statement :: (ks ++
        ((Form.segmentsElse start.word empty).flatMap Segment.lexemes ++
          Lexeme.tag .statement [word (ending.word .loop)])))) Follow
      fun s => s.erase =
        (Stmt.loop .start target items ss (Form.stmtsElse escape empty)).erase := by
  have ended : ∀ rest, Tagged ["end", "endfor"]
      (Lexeme.tag .statement [word (ending.word .loop)] ++ rest) :=
    fun _ => .tag (by cases ending <;> decide)
  refine .bind (.read (loopTarget_reads target)) (fun _ _ => ⟨_, rfl⟩) fun names same => ?_
  have separated : Parse.Parses (Parse.read (acceptWord "in")) [word "in"] (fun _ => True)
      fun a => ∃ t, a = some t ∧ t.lexeme = word "in" := .read (acceptWord_reads "in")
  refine separated.seq ?_
  rintro _ ⟨t, rfl, _⟩
  refine .bind (.read (expr_reads wf)) (fun _ _ => nofun) fun a like => ?_
  refine closing_parses.seq fun _ _ => ?_
  refine .bind means (fun rest _ => ?_) fun inner each => ?_
  · cases empty with
    | none => exact (ended rest).mono (by decide)
    | some fs => exact ⟨start.word, by cases start <;> decide, _, rfl⟩
  have known : ["else", "empty"].contains start.word = true := by cases start <;> rfl
  refine .bind (continued_parses known (by decide) (by decide) last) (fun rest _ => ended rest)
    fun empty' final => ?_
  have items' : a.erase = items.erase := like
  exact ended_parses .loop ending _ none (.inl rfl)
    (by simp [Stmt.erase, same, items', each, final])

/-! The readers of keywords. -/

def blockReader? : String → Option (Token → Parse (List Stmt) → Parse Stmt)
  | "if" => some branchBlock
  | "for" => some loopBlock
  | "while" => some whileBlock
  | "block" => some namedBlock
  | "spaceless" => some spacelessBlock
  | _ => none

theorem opens_of_blockReader? {k : String} {reader : Token → Parse (List Stmt) → Parse Stmt}
    (known : blockReader? k = some reader) : k ∉ continuationKeywords := by
  unfold blockReader? at known
  split at known <;> first | decide | cases known

theorem statement_block {limit : Int} {inside : Bool → Parse (List Stmt)} {opened escape : Bool}
    {k : String} {reader : Token → Parse (List Stmt) → Parse Stmt}
    (known : blockReader? k = some reader) {keyword : Token} (text : keyword.text = k) :
    statement limit (some inside) opened escape keyword =
      (reader keyword (inside escape) >>= fun s => pure [s]) := by
  unfold blockReader? at known
  unfold statement
  split at known <;> cases known
  all_goals
    simp only [text]
    rfl

theorem statement_extends {limit : Int} {inside : Inside} {escape : Bool} {keyword : Token}
    (text : keyword.text = "extends") {ts rest : List Token} {template : String}
    (read : templateName "extends" ts = .ok (template, rest)) :
    statement limit inside false escape keyword none ts =
      .ok (([], some ⟨keyword.pos, template⟩), rest) := by
  unfold statement
  simp only [text]
  have named : extendsStatement keyword false none ts =
      .ok (((), some ⟨keyword.pos, template⟩), rest) := by
    refine (Parse.bind_ok (r := get) rfl).trans ?_
    exact (Parse.bind_of_ok read).trans rfl
  exact Parse.bind_ok named

end Blocks

end Stencil.Grammar
