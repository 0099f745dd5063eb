import Stencil.Proofs.Grammar.Parsing
import Stencil.Proofs.Grammar.Precedence
import Stencil.Stmt.Source

/-!
Reading inverts printing: the text of an expression between the braces of an output is a template
of one output, whose expression is the printed one up to places.
-/

namespace Stencil

open Lexeme Reader Grammar

/-! What printed expressions begin with. -/

namespace Lexeme.Begins

variable {level : Level} {l : Lexeme} {ls more : List Lexeme}

theorem ordinary (opening : opening? l = some .operand) (other : l.1 ≠ .name) :
    Begins level (l :: ls) where
  opens := ⟨l, ls, .operand, rfl, opening, by cases level <;> decide⟩
  second := by
    rintro text _ _ equation
    exact absurd (congrArg Prod.fst (List.cons.inj equation).1) other

theorem single (opening : opening? l = some .operand) : Begins level [l] where
  opens := ⟨l, [], .operand, rfl, opening, by cases level <;> decide⟩
  second := nofun

theorem parenthesized : Begins level (Lexeme.parenthesized ls) := ordinary rfl nofun

theorem append (begins : Begins level ls)
    (follow : ∀ l, more.head? = some l → l.1 ≠ .symbol .assign ∧ l.1 ≠ .symbol .colon) :
    Begins level (ls ++ more) where
  opens := by
    obtain ⟨l, others, found, rfl, opening⟩ := begins.opens
    exact ⟨l, others ++ more, found, rfl, opening⟩
  second := by
    intro text l others split
    obtain ⟨first, behind, found, rfl, opening⟩ := begins.opens
    rw [List.cons_append] at split
    obtain ⟨rfl, shifted⟩ := List.cons.inj split
    cases behind with
    | nil => exact follow l (congrArg List.head? shifted)
    | cons next behind =>
        rw [List.cons_append] at shifted
        obtain ⟨rfl, _⟩ := List.cons.inj shifted
        exact begins.second text next behind rfl

theorem tighten (begins : Begins .comparison ls) : Begins .sign ls where
  opens := by
    obtain ⟨l, others, found, written, opening, le⟩ := begins.opens
    refine ⟨l, others, found, written, opening, ?_⟩
    unfold opening? at opening
    repeat' split at opening
    all_goals cases opening
    all_goals first | decide | exact absurd le (by decide)
  second := begins.second

end Lexeme.Begins

/-! Expressions in their places. -/

/-- An expression that the readers of the levels read, at every depth that its lexemes allow. -/
structure Readable (e : Expr) : Prop where
  begins : Begins e.level e.lexemes
  read : ∀ depth, e.lexemes.length ≤ depth → At (exprWithin depth) e.level e.lexemes e

namespace Readable

variable {e : Expr} {depth : Nat}

theorem inner (readable : Readable e) (lt : e.lexemes.length < depth) :
    Inner (exprWithin depth) e.lexemes e := by
  obtain ⟨depth, rfl⟩ := Nat.exists_eq_succ_of_ne_zero (Nat.ne_zero_of_lt lt)
  have le : Level.choice.rank ≤ e.level.rank := Nat.zero_le _
  exact ⟨readable.begins.mono le,
    At.mono readable.begins (readable.read depth (Nat.le_of_lt_succ lt)) le⟩

theorem operand (readable : Readable e) (lt : e.lexemes.length < depth) (outer : Level) :
    At (exprWithin depth) outer (Lexeme.parenthesized e.lexemes) e := by
  have read : At (exprWithin depth) .operand (Lexeme.parenthesized e.lexemes) e :=
    operand_parenthesized (readable.inner lt)
  exact At.mono .parenthesized read (by cases outer <;> decide)

theorem keyed (readable : Readable e) (lt : (Expr.keyed e.lexemes).length < depth) :
    Inner (exprWithin depth) (Expr.keyed e.lexemes) e := by
  have either : Expr.keyed e.lexemes = e.lexemes ∨
      Expr.keyed e.lexemes = Lexeme.parenthesized e.lexemes := by
    rw [Expr.keyed.eq_def]
    split
    · next word => exact .inr (word ▸ rfl)
    · exact .inl rfl
  rcases either with same | enclosed
  · rw [same] at lt ⊢
    exact readable.inner lt
  · rw [enclosed] at lt ⊢
    obtain ⟨depth, rfl⟩ := Nat.exists_eq_succ_of_ne_zero (Nat.ne_zero_of_lt lt)
    simp only [Lexeme.parenthesized, List.length_cons, List.length_append, List.length_nil] at lt
    exact ⟨.parenthesized, readable.operand (by omega) .choice⟩

theorem begins_at (readable : Readable e) (outer : Level) : Begins outer (e.lexemesAt outer) := by
  rw [Expr.lexemesAt, Expr.enclosed]
  split
  · next le => exact readable.begins.mono le
  · exact .parenthesized

theorem read_at (readable : Readable e) {outer : Level}
    (le : (e.lexemesAt outer).length ≤ depth) :
    At (exprWithin depth) outer (e.lexemesAt outer) e := by
  rw [Expr.lexemesAt, Expr.enclosed] at le ⊢
  split at le
  · next tight =>
      rw [if_pos tight]
      exact At.mono readable.begins (readable.read depth le) tight
  · next loose =>
      rw [if_neg loose]
      simp only [Lexeme.parenthesized, List.length_cons, List.length_append, List.length_nil] at le
      exact readable.operand (by omega) outer

end Readable

/-! Parts are no longer than the whole. -/

namespace Expr

theorem length_le_separated (separator : Lexeme) {parts : List (List Lexeme)} {ls : List Lexeme}
    (mem : ls ∈ parts) : ls.length ≤ (separated separator parts).length := by
  refine List.Sublist.length_le ?_
  cases parts with
  | nil => cases mem
  | cons part parts =>
      rw [separated, List.flatMap_def]
      rcases List.mem_cons.mp mem with rfl | mem
      · exact List.sublist_append_left _ _
      · refine List.Sublist.trans ?_ (List.sublist_append_right _ _)
        exact (List.sublist_cons_self separator ls).trans
          (List.sublist_flatten_of_mem (List.mem_map_of_mem mem))

theorem length_le_linkParts {x : CompareOp × Expr} {links : List (CompareOp × Expr)}
    (mem : x ∈ links) :
    (x.2.lexemesAt .concatenation).length ≤ (linkParts links).flatten.length := by
  refine List.Sublist.length_le ?_
  rw [linkParts_eq_map]
  exact (List.sublist_append_right x.1.lexemes _).trans
    (List.sublist_flatten_of_mem (List.mem_map_of_mem mem))

theorem linkParts_head {links : List (CompareOp × Expr)} {l : Lexeme}
    (head : (linkParts links).flatten.head? = some l) :
    l.1 ≠ .symbol .assign ∧ l.1 ≠ .symbol .colon := by
  cases links with
  | nil => cases head
  | cons link links =>
      obtain ⟨op, e⟩ := link
      cases op <;> (cases head; decide)

theorem lt_of_separated {parts : List (List Lexeme)} {depth : Nat}
    (lt : (separated (symbol .comma) parts).length < depth) : ∀ ls ∈ parts, ls.length < depth :=
  fun _ mem => Nat.lt_of_le_of_lt (length_le_separated _ mem) lt

theorem lt_of_optionalArguments {parts : List (List Lexeme)} {depth : Nat}
    (le : (optionalArguments parts).length ≤ depth) : ∀ ls ∈ parts, ls.length < depth := by
  cases parts with
  | nil => exact nofun
  | cons part parts =>
      simp only [optionalArguments, parenthesized, List.length_cons, List.length_append] at le
      exact lt_of_separated (by omega)

theorem enclosed_lexemes (outer : Level) (e : Expr) :
    enclosed outer e.level e.lexemes = e.lexemesAt outer := rfl

theorem mem_parts (outer : Level) {e : Expr} {es : List Expr} (mem : e ∈ es) :
    e.lexemesAt outer ∈ parts outer es := by
  rw [parts_eq_map]
  exact List.mem_map_of_mem mem

theorem mem_entryParts {x : Expr × Expr} {entries : List (Expr × Expr)} (mem : x ∈ entries) :
    entryLexemes x ∈ entryParts entries := by
  rw [entryParts_eq_map]
  exact List.mem_map_of_mem mem

theorem mem_namedParts {x : String × Expr} {named : List (String × Expr)} (mem : x ∈ named) :
    namedLexemes x ∈ namedParts named := by
  rw [namedParts_eq_map]
  exact List.mem_map_of_mem mem

end Expr

theorem inner_arguments (depth : Nat) {args : List Expr} {named : List (String × Expr)}
    (positional : ∀ e ∈ args, Readable e) (values : ∀ x ∈ named, Readable x.2)
    (bound : ∀ ls ∈ Expr.parts .choice args ++ Expr.namedParts named, ls.length < depth) :
    (∀ e ∈ args, Inner (exprWithin depth) e.lexemes e) ∧
      ∀ x ∈ named, Inner (exprWithin depth) x.2.lexemes x.2 := by
  refine ⟨fun e mem => ?_, fun x mem => ?_⟩
  · have lt := bound _ (List.mem_append_left _ (Expr.mem_parts .choice mem))
    rw [Expr.lexemesAt_choice] at lt
    exact (positional e mem).inner lt
  · have lt := bound _ (List.mem_append_right _ (Expr.mem_namedParts mem))
    simp only [Expr.namedLexemes, List.length_cons] at lt
    exact (values x mem).inner (by omega)

theorem begins_sign {op : SignOp} {ls : List Lexeme} (begins : Begins op.level ls) :
    Begins op.level (op.lexeme :: ls) where
  opens := ⟨op.lexeme, ls, op.level, rfl, by cases op <;> rfl, Nat.le_refl _⟩
  second := by
    rintro text l more equation
    obtain ⟨first, others, found, rfl, opening, _⟩ := begins.opens
    obtain ⟨_, behind⟩ := List.cons.inj equation
    obtain ⟨rfl, _⟩ := List.cons.inj behind
    obtain ⟨kind, _⟩ := first
    constructor <;> (rintro rfl; cases opening)

theorem word_plain (text : String) :
    (word text).1 ≠ .symbol .assign ∧ (word text).1 ≠ .symbol .colon := ⟨nofun, nofun⟩

theorem begins_separated {outer level : Level} {separator : Lexeme} {es : List Expr}
    (each : ∀ e ∈ es, Readable e) (several : 2 ≤ es.length) (le : level.rank ≤ outer.rank)
    (plain : separator.1 ≠ .symbol .assign ∧ separator.1 ≠ .symbol .colon) :
    Begins level (separated separator (Expr.parts outer es)) := by
  cases es with
  | nil => simp at several
  | cons e es =>
      refine (((each e List.mem_cons_self).begins_at outer).append ?_).mono le
      intro l head
      cases es with
      | nil => cases head
      | cons e es =>
          cases head
          exact plain

theorem Expr.WellFormed.readable {e : Expr} (wf : e.WellFormed) : Readable e := by
  induction wf with
  | @const p value literal =>
      refine ⟨.single ?_, fun depth _ => operand_const value⟩
      cases value with
      | bool b => cases b <;> rfl
      | _ => rfl
  | @name p n word free =>
      refine ⟨.single ?_, fun depth _ => operand_name free⟩
      have other : n ≠ "not" := by
        rintro rfl
        exact free (by decide)
      exact if_neg other
  | list _ each =>
      refine ⟨.ordinary rfl (by decide), fun depth le => operand_list fun e mem => ?_⟩
      simp only [lexemes, List.length_cons, List.length_append] at le
      have part := length_le_separated (symbol .comma) (mem_parts .choice mem)
      rw [lexemesAt_choice] at part
      exact (each e mem).inner (by omega)
  | dict _ _ keys values =>
      refine ⟨.ordinary rfl (by decide), fun depth le =>
        operand_dict (fun x mem => ?_) fun x mem => ?_⟩
      all_goals
        have part := length_le_separated (symbol .comma) (mem_entryParts mem)
        simp only [lexemes, entryLexemes, List.length_cons, List.length_append] at le part
      · exact (keys x mem).keyed (by omega)
      · exact (values x mem).inner (by omega)
  | attr _ word object =>
      refine ⟨(object.begins_at .access).append ?_, fun depth le => at_attr (object.read_at ?_)⟩
      · rintro _ ⟨⟩
        decide
      · simp only [lexemes, enclosed_lexemes, List.length_append] at le
        omega
  | item _ _ object key =>
      refine ⟨(object.begins_at .access).append ?_, fun depth le =>
        at_item (object.read_at ?_) (key.inner ?_)⟩
      · rintro _ ⟨⟩
        decide
      all_goals
        simp only [lexemes, enclosed_lexemes, List.length_append, List.length_cons] at le
        omega
  | call _ _ words _ distinct callee args values =>
      refine ⟨(callee.begins_at .access).append ?_, fun depth le => ?_⟩
      · rintro _ ⟨⟩
        decide
      · simp only [lexemes, enclosed_lexemes, parenthesized, List.length_append,
          List.length_cons] at le
        obtain ⟨positional, keywords⟩ :=
          inner_arguments depth args values (lt_of_separated (by omega))
        exact at_call (callee.read_at (by omega)) positional keywords distinct
  | filter _ _ _ words _ distinct value args values =>
      refine ⟨(value.begins_at .filter).append ?_, fun depth le => ?_⟩
      · rintro _ ⟨⟩
        decide
      · simp only [lexemes, enclosed_lexemes, List.length_append, List.length_cons] at le
        obtain ⟨positional, keywords⟩ :=
          inner_arguments depth args values (lt_of_optionalArguments (by omega))
        exact at_filter (value.read_at (by omega)) positional keywords distinct
  | test _ _ free _ value args =>
      refine ⟨((value.begins_at .comparison).append ?_).tighten.mono
        (show Level.test.rank ≤ Level.sign.rank by decide),
        fun depth le => ?_⟩
      · rintro _ ⟨⟩
        decide
      · simp only [lexemes, enclosed_lexemes, List.length_append, List.length_cons] at le
        have unnamed : ∀ x ∈ ([] : List (String × Expr)), Readable x.2 := List.forall_mem_nil _
        obtain ⟨positional, _⟩ := inner_arguments depth args unnamed (by
          rw [namedParts, List.append_nil]
          exact lt_of_optionalArguments (by omega))
        exact at_test (value.read_at (by omega)) free positional
  | @arith _ op _ _ _ _ left right =>
      refine ⟨(left.begins_at op.level).append ?_, fun depth le => ?_⟩
      · rintro _ ⟨⟩
        cases op <;> decide
      · simp only [lexemes, enclosed_lexemes, List.length_append, List.length_cons] at le
        exact at_arith (left.read_at (by omega)) (right.read_at (by omega))
  | @sign _ op _ _ operand =>
      refine ⟨begins_sign (operand.begins_at op.level), fun depth le => ?_⟩
      · simp only [lexemes, enclosed_lexemes, List.length_cons] at le
        exact at_sign (operand.read_at (by omega))
  | compare _ linked _ first links =>
      refine ⟨((first.begins_at .test).append ?_).mono
        (show Level.comparison.rank ≤ Level.test.rank by decide), fun depth le => ?_⟩
      · exact fun _ => linkParts_head
      · simp only [lexemes, enclosed_lexemes, List.length_append] at le
        refine at_compare (first.read_at (by omega)) linked fun x mem => (links x mem).read_at ?_
        have part := length_le_linkParts mem
        omega
  | @logic _ op _ several _ each =>
      refine ⟨begins_separated each several ?_ (word_plain _), fun depth le => ?_⟩
      · change op.level.rank ≤ op.partLevel.rank
        cases op <;> decide
      · refine at_logic several fun e mem => (each e mem).read_at ?_
        exact Nat.le_trans (length_le_separated _ (mem_parts _ mem)) le
  | choice _ _ _ condition ifTrue ifFalse =>
      refine ⟨((condition.begins_at .disjunction).append ?_).mono
        (show Level.choice.rank ≤ Level.disjunction.rank by decide), fun depth le => ?_⟩
      · rintro _ ⟨⟩
        decide
      · simp only [lexemes, enclosed_lexemes, List.length_append, List.length_cons] at le
        exact at_choice (condition.read_at (by omega)) (ifTrue.inner (by omega))
          (ifFalse.inner (by omega))
  | range _ _ first last =>
      refine ⟨((first.begins_at .filter).append ?_).mono
        (show Level.range.rank ≤ Level.filter.rank by decide), fun depth le => ?_⟩
      · rintro _ ⟨⟩
        decide
      · simp only [lexemes, enclosed_lexemes, List.length_append, List.length_cons] at le
        exact at_range (first.read_at (by omega)) (last.read_at (by omega))
  | concat several _ each =>
      refine ⟨begins_separated each several
        (show Level.concatenation.rank ≤ Level.sum.rank by decide) (by decide),
        fun depth le => ?_⟩
      refine at_concat several fun e mem => (each e mem).read_at ?_
      exact Nat.le_trans (length_le_separated _ (mem_parts _ mem)) le

theorem expr_reads {e : Expr} (wf : e.WellFormed) :
    Reads expr e.lexemes (Stops .choice) (Like e) := by
  intro ts rest written stops
  have enough : e.lexemes.length < (ts ++ rest).length + 1 := by
    rw [← written, List.length_map, List.length_append]
    omega
  exact (wf.readable.inner enough).reads ts rest written stops

theorem output_reads {e : Expr} (wf : e.WellFormed) (start : Token) (d : Delimiter)
    (escape : Bool) {Follow : List Lexeme → Prop} :
    Reads (output start d escape) (e.lexemes ++ [closing d]) Follow
      fun s => ∃ a, s = .output start.pos a (d == .escaped && escape) ∧ Like e a := by
  have more : Reads (output.more start d escape) (e.lexemes ++ [closing d]) Follow
      fun s => ∃ a, s = .output start.pos a (d == .escaped && escape) ∧ Like e a :=
    .bind (expr_reads wf) (fun _ _ => nofun) fun a like =>
      .cons .expect fun _ _ => .pure ⟨a, rfl, like⟩
  obtain ⟨l, others, found, written, opening, _⟩ := wf.readable.begins.opens
  rw [written] at more ⊢
  refine .peek fun t first => ?_
  have other : t.kind ≠ .closing d := by
    intro kind
    rw [← first, Token.lexeme, kind] at opening
    cases opening
  simp only [other, if_false]
  exact more

namespace Source

theorem template_of_tokens {s : Source} {stream : TokenStream} {limit : Int} {t : Template}
    (tokens : s.tokens = .ok stream) (given : Grammar.template limit stream.tokens = .ok t) :
    s.template limit = .ok t := by
  simp only [template, tokens, bind, Except.bind, given]

/-- Where the lexemes of an output are read, the template is the output, except for its places. -/
theorem output_of_lexemes {e : Expr} (wf : e.WellFormed) {source : Source} {stream : TokenStream}
    (tokens : source.tokens = .ok stream)
    (written : lexemes stream.tokens = Lexeme.tag .escaped e.lexemes) (limit : Int) :
    ∃ p value, source.template limit = .ok ⟨[.output p value true], none⟩ ∧
      value.erase = e.erase := by
  obtain ⟨start, ts, split, opening, inside⟩ := List.map_eq_cons_iff.mp written
  have reads : Reads (output start .escaped true) (e.lexemes ++ [closing .escaped]) (fun _ => True)
      fun s => ∃ a, s = .output start.pos a true ∧ Like e a := output_reads wf start .escaped true
  obtain ⟨s, read, a, rfl, like⟩ := reads ts [] inside trivial
  rw [List.append_nil] at read
  have first : piece? limit (insideOf limit limit.toNat) false true none (start :: ts) =
      .ok ((some [.output start.pos a true], none), []) :=
    piece?_output (congrArg Prod.fst opening) (by decide) read
  have given : Grammar.template limit stream.tokens =
      .ok ⟨[.output start.pos a true], none⟩ := by
    rw [split]
    exact template_ok (.cons first (Nat.zero_lt_succ _) .nil)
  exact ⟨start.pos, a, template_of_tokens tokens given, like⟩

def ofExpr (e : Expr) (name filename : Option String) : Source :=
  ⟨"\x7b\x7b " ++ e.text ++ " \x7d\x7d", name, filename⟩

theorem tokens_ofExpr {e : Expr} (wf : e.WellFormed) (name filename : Option String) :
    ∃ stream, (ofExpr e name filename).tokens = .ok stream ∧
      lexemes stream.tokens = Lexeme.tag .escaped e.lexemes := by
  have nonempty : e.lexemes ≠ [] := by
    obtain ⟨l, more, _, written, _⟩ := wf.readable.begins.opens
    rw [written]
    exact List.cons_ne_nil l more
  have chars : (ofExpr e name filename).text.toList = Delimiter.escaped.opener ++
      ((e.lexemes.flatMap fun l => ' ' :: l.chars) ++
        ' ' :: (Delimiter.escaped.closer ++ [])) := by
    rw [← blank_intercalate nonempty]
    simp [ofExpr, Expr.text, Delimiter.opener, Delimiter.closer]
  have cut : Scan.Cuts .text (Delimiter.escaped.opener ++
      ((e.lexemes.flatMap fun l => ' ' :: l.chars) ++ ' ' :: (Delimiter.escaped.closer ++ [])))
      (Lexeme.tag .escaped e.lexemes) .text [] :=
    wf.printable.writesAll.cuts_tag Text.space_isBlank (wf.printable.balanced 0)
      (absurd · (by decide))
  obtain ⟨stream, tokens, written⟩ := TokenStream.ofSource?_of_cuts (chars ▸ cut)
  exact ⟨stream, by rw [Source.tokens, tokens], written⟩

/-- The text of a well-formed expression, written as an output, is the template of this output:
the expression comes back as it was, except for its places. -/
theorem template_ofExpr {e : Expr} (wf : e.WellFormed) (name filename : Option String)
    (limit : Int) :
    ∃ p value, (ofExpr e name filename).template limit = .ok ⟨[.output p value true], none⟩ ∧
      value.erase = e.erase := by
  obtain ⟨stream, tokens, written⟩ := tokens_ofExpr wf name filename
  exact output_of_lexemes wf tokens written limit

end Source

/-- A sum to the right of a difference, a key that is a name, and braces inside a tag. -/
def Expr.priced : Expr :=
  .filter .start
    (.dict .start
      [(.name .start "key",
        .test .start
          (.arith .start .sub (.name .start "total")
            (.arith .start .add (.const .start (.nat 1)) (.const .start (.decimal 5 2))))
          "odd" [] true)])
    "default" [] [("value", .const .start (.string "\"\x7d\x7d"))]

theorem Expr.priced_wellFormed : priced.WellFormed := by
  have key : WellFormed (.name .start "key") := .name (by decide) (by decide)
  have sum : WellFormed
      (.arith .start .add (.const .start (.nat 1)) (.const .start (.decimal 5 2))) :=
    .arith (.const trivial) (.const Nat.two_pos)
  have total : WellFormed (.name .start "total") := .name (by decide) (by decide)
  have difference : WellFormed (.arith .start .sub (.name .start "total")
      (.arith .start .add (.const .start (.nat 1)) (.const .start (.decimal 5 2)))) :=
    .arith total sum
  refine .filter (.dict ?_ ?_) (by decide) nofun ?_ ?_ (by decide)
  · exact List.forall_mem_singleton.mpr key
  · exact List.forall_mem_singleton.mpr (.test difference (by decide) (by decide) nofun)
  · decide
  · exact List.forall_mem_singleton.mpr (.const trivial)

theorem Source.template_ofExpr_priced :
    Expr.priced.WellFormed ∧
      (ofExpr Expr.priced none none).text =
        "\x7b\x7b \x7b ( key ) : total - ( 1 + 0.05 ) is not odd \x7d " ++
          "| default ( value = \"\\\"\x7d\x7d\" ) \x7d\x7d" ∧
      ∃ p value, (ofExpr Expr.priced none none).template 50 =
        .ok ⟨[.output p value true], none⟩ ∧ value.erase = Expr.priced.erase :=
  ⟨Expr.priced_wellFormed, by decide +kernel, template_ofExpr Expr.priced_wellFormed none none 50⟩

end Stencil
