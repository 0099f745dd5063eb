import Stencil.Proofs.Grammar.Operands
import Stencil.Proofs.Step

namespace Stencil.Grammar

open Reader Lexeme

variable {whole : Reader Expr} {Follow : List Lexeme → Prop}

/-! Filters. -/

theorem application?_reads {n : String} {args : List Expr} {named : List (String × Expr)}
    (positional : ∀ e ∈ args, Inner whole e.lexemes e)
    (values : ∀ x ∈ named, Inner whole x.2.lexemes x.2)
    (distinct : (named.map Prod.fst).Nodup) (stops : ∀ rest, Follow rest → Stops .access rest) :
    Reads (application? whole)
      (symbol .pipe :: word n ::
        Expr.optionalArguments (Expr.parts .choice args ++ Expr.namedParts named)) Follow
      fun found => ∃ a, found = some a ∧ a.name = n ∧ a.args.map Expr.erase = args.map Expr.erase ∧
        a.kwargs.map (fun x => (x.1, x.2.erase)) = named.map fun x => (x.1, x.2.erase) := by
  refine .cons (acceptSymbol_reads _) fun _ accepted => ?_
  rw [if_pos accepted]
  refine .cons .accept fun _ found => ?_
  obtain ⟨t, rfl, lexeme⟩ := found
  refine .last (optionalArguments_reads positional values distinct stops) fun found same => .pure ?_
  exact ⟨_, rfl, congrArg Prod.snd lexeme, same⟩

theorem acceptSymbol_halts {level found : Level} {s : Symbol} {rest : List Token}
    (stops : Stops level (lexemes rest)) (continues : s.level? = some found)
    (le : level.rank ≤ found.rank) : acceptSymbol s rest = .ok (false, rest) := by
  refine acceptSymbol_other fun t head => ?_
  obtain ⟨rest', rfl⟩ := List.head?_eq_some_iff.mp head
  exact ne_symbol_of_stops stops continues le

theorem application?_halts {level : Level} (le : level.rank ≤ Level.filter.rank) :
    Halts (application? whole) (Stops level) :=
  fun _ stops => bind_ok (acceptSymbol_halts stops rfl le)

/-! Arithmetic. -/

theorem operation?_reads {op? : Symbol → Option ArithOp} {operand : Reader Expr}
    {ks : List Lexeme} {e : Expr} {op : ArithOp} (known : op? op.symbol = some op)
    (right : Reads operand ks Follow (Like e)) :
    Reads (operation? op? operand) (symbol op.symbol :: ks) Follow
      fun found => ∃ o, found = some o ∧ o.1 = op ∧ Like e o.2 := by
  refine .peek fun t first => ?_
  have kind : t.kind = .symbol op.symbol := congrArg Prod.fst first
  simp only [kind, known]
  exact .cons .skip fun _ _ => .last right fun a like => .pure ⟨_, rfl, rfl, like⟩

theorem operation?_halts {op? : Symbol → Option ArithOp} {operand : Reader Expr}
    {level found : Level} (continues : ∀ s op, op? s = some op → s.level? = some found)
    (le : level.rank ≤ found.rank) : Halts (operation? op? operand) (Stops level) := by
  intro rest stops
  refine (bind_ok (r := peek) rfl).trans ?_
  cases rest with
  | nil => rfl
  | cons t rest =>
      simp only [List.head?_cons]
      cases kind : t.kind with
      | symbol s =>
          cases known : op? s with
          | none =>
              simp only [known]
              rfl
          | some op => exact absurd kind (ne_symbol_of_stops stops (continues s op known) le)
      | _ => rfl

/-! Signs and negations. -/

theorem prefixed_cons {sign? : Reader (Option (Pos × SignOp))} {operand : Reader Expr}
    {t : Token} {ts rest : List Token} {p : Pos} {op : SignOp} {e : Expr}
    (sign : sign? (t :: ts) = .ok (some (p, op), ts))
    (more : prefixed sign? operand ts = .ok (e, rest)) :
    prefixed sign? operand (t :: ts) = .ok (.sign p op e, rest) := by
  obtain ⟨⟨signs, mid⟩, many, more⟩ := Except.bind_ok more
  obtain ⟨⟨a, rest'⟩, read, done⟩ := Except.bind_ok more
  cases done
  rw [prefixed, bind_ok ((many_cons sign).trans (bind_ok many))]
  exact bind_ok read

theorem prefixed_none {sign? : Reader (Option (Pos × SignOp))} {operand : Reader Expr}
    {ts rest : List Token} {e : Expr} (none : sign? ts = .ok (none, ts))
    (read : operand ts = .ok (e, rest)) : prefixed sign? operand ts = .ok (e, rest) := by
  rw [prefixed, bind_ok (Repeats.many .nil none)]
  exact bind_ok read

theorem prefixed_reads {sign? : Reader (Option (Pos × SignOp))} {operand : Reader Expr}
    {l : Lexeme} {ks : List Lexeme} {op : SignOp} {e : Expr}
    (sign : ∀ (t : Token) (ts : List Token), t.lexeme = l →
      sign? (t :: ts) = .ok (some (t.pos, op), ts))
    (more : Reads (prefixed sign? operand) ks Follow (Like e)) :
    Reads (prefixed sign? operand) (l :: ks) Follow
      fun a => ∃ p e', a = .sign p op e' ∧ Like e e' := by
  intro ts rest written after
  obtain ⟨t, ts, rfl, first, others⟩ := List.map_eq_cons_iff.mp written
  obtain ⟨e', read, like⟩ := more ts rest others after
  exact ⟨_, prefixed_cons (sign t _ first) read, t.pos, e', rfl, like⟩

theorem isWord_iff {w : String} {t : Token} : isWord [w] t = true ↔ t.lexeme = word w := by
  simp [isWord, Token.lexeme, word]

theorem acceptWord_reads (w : String) :
    Reads (acceptWord w) [word w] Follow fun a => ∃ t, a = some t ∧ t.lexeme = word w :=
  .acceptWhere fun _ lexeme => isWord_iff.mpr lexeme

theorem acceptWord_other {w : String} {ts : List Token}
    (other : (lexemes ts).head? ≠ some (word w)) : acceptWord w ts = .ok (none, ts) := by
  cases ts with
  | nil => rfl
  | cons t ts =>
      have different : isWord [w] t = false := by
        rw [← Bool.not_eq_true, isWord_iff]
        exact fun lexeme => other (congrArg some lexeme)
      simp [acceptWord, acceptWhere, different]

theorem notToken?_reads (t : Token) (ts : List Token) (lexeme : t.lexeme = SignOp.not.lexeme) :
    notToken? (t :: ts) = .ok (some (t.pos, .not), ts) := by
  have accepted : acceptWord "not" (t :: ts) = .ok (some t, ts) := by
    simp [acceptWord, acceptWhere, isWord_iff.mpr lexeme]
  exact bind_ok accepted

theorem notToken?_none {ts rest : List Token} (begins : Begins .comparison (lexemes ts)) :
    notToken? (ts ++ rest) = .ok (none, ts ++ rest) := by
  obtain ⟨l, more, found, written, opening, le⟩ := begins.opens
  obtain ⟨t, ts, rfl, rfl, _⟩ := List.map_eq_cons_iff.mp written
  have other : (lexemes (t :: ts ++ rest)).head? ≠ some (word "not") := by
    intro head
    rw [Option.some.inj head] at opening
    cases opening
    exact absurd le (by decide)
  exact bind_ok (acceptWord_other other)

theorem signToken?_reads {op : SignOp} (sign : op = .neg ∨ op = .pos) (t : Token)
    (ts : List Token) (lexeme : t.lexeme = op.lexeme) :
    signToken? (t :: ts) = .ok (some (t.pos, op), ts) := by
  refine (bind_ok (r := peek) rfl).trans ?_
  have kind : t.kind = op.lexeme.1 := congrArg Prod.fst lexeme
  rcases sign with rfl | rfl
  · simp only [List.head?_cons, kind]
    rfl
  · simp only [List.head?_cons, kind]
    rfl

theorem signToken?_none {ts rest : List Token} (begins : Begins .range (lexemes ts)) :
    signToken? (ts ++ rest) = .ok (none, ts ++ rest) := by
  obtain ⟨_, _, found, written, opening, le⟩ := begins.opens
  obtain ⟨t, ts, rfl, rfl, _⟩ := List.map_eq_cons_iff.mp written
  refine (bind_ok (r := peek) rfl).trans ?_
  have no_sign : ∀ s, t.kind = .symbol s → s ≠ .sub ∧ s ≠ .add := by
    intro s kind
    obtain ⟨_, text, pos⟩ := t
    cases kind
    constructor <;> (rintro rfl; cases opening; exact absurd le (by decide))
  simp only [List.cons_append, List.head?_cons]
  cases kind : t.kind with
  | symbol s =>
      obtain ⟨sub, add⟩ := no_sign s kind
      cases s <;> first | rfl | contradiction
  | _ => rfl

/-! Parts between separators. -/

theorem after?_reads {separator : Reader Bool} {part : Reader Expr} {l : Lexeme}
    {ks : List Lexeme} {e : Expr} (first : Reads separator [l] (fun _ => True) (· = true))
    (second : Reads part ks Follow (Like e)) :
    Reads (after? separator part) (l :: ks) Follow fun found => ∃ a, found = some a ∧ Like e a := by
  refine .cons first fun _ accepted => ?_
  rw [if_pos accepted]
  exact .last second fun a like => .pure ⟨a, rfl, like⟩

theorem after?_halts {separator : Reader Bool} {part : Reader Expr}
    (other : ∀ rest, Follow (lexemes rest) → separator rest = .ok (false, rest)) :
    Halts (after? separator part) Follow :=
  fun rest stops => bind_ok (other rest stops)

theorem wordSeparator_reads (w : String) : Reads (wordSeparator w) [word w] Follow (· = true) := by
  refine .last (acceptWord_reads w) fun _ found => .pure ?_
  obtain ⟨t, rfl, _⟩ := found
  rfl

theorem wordSeparator_other {w : String} {level found : Level} {rest : List Token}
    (stops : Stops level (lexemes rest))
    (continues : ∀ more, following (word w :: more) = some found)
    (le : level.rank ≤ found.rank) : wordSeparator w rest = .ok (false, rest) := by
  refine bind_ok (acceptWord_other fun head => ?_)
  obtain ⟨more, written⟩ := List.head?_eq_some_iff.mp head
  rw [written] at stops
  exact absurd (stops found (continues more)) (Nat.not_lt.mpr le)

/-! Comparisons and tests. -/

theorem comparison?_lexemes {op : CompareOp} {t : Token} {ts : List Token} (ls : List Lexeme)
    (written : lexemes (t :: ts) = op.lexemes ++ ls) :
    comparison? t ts.head? = some (op.lexemes.length, op) := by
  have symbolic : ∀ s : Symbol, op.lexemes = [symbol s] → compareOp? s = some op →
      comparison? t ts.head? = some (op.lexemes.length, op) := by
    intro s single known
    rw [single] at written ⊢
    have kind : t.kind = .symbol s := congrArg Prod.fst (List.cons.inj written).1
    simp [comparison?, kind, known]
  have worded : ∀ w next : String, op.lexemes = [word w, word next] →
      t.kind = .name ∧ t.text = w ∧ ts.head?.any (isWord [next]) = true := by
    intro w next double
    rw [double] at written
    obtain ⟨first, others⟩ := List.cons.inj written
    obtain ⟨u, us, rfl, second, _⟩ := List.map_eq_cons_iff.mp others
    exact ⟨congrArg Prod.fst first, congrArg Prod.snd first, isWord_iff.mpr second⟩
  cases op with
  | isIn =>
      obtain ⟨first, _⟩ := List.cons.inj written
      have kind : t.kind = .name := congrArg Prod.fst first
      have text : t.text = "in" := congrArg Prod.snd first
      simp [comparison?, kind, text, CompareOp.lexemes]
  | notIn =>
      obtain ⟨kind, text, next⟩ := worded _ _ rfl
      simp [comparison?, kind, text, next, CompareOp.lexemes]
  | startsWith =>
      obtain ⟨kind, text, next⟩ := worded _ _ rfl
      simp [comparison?, kind, text, next, CompareOp.lexemes]
  | endsWith =>
      obtain ⟨kind, text, next⟩ := worded _ _ rfl
      simp [comparison?, kind, text, next, CompareOp.lexemes]
  | eq => exact symbolic .eq rfl rfl
  | ne => exact symbolic .ne rfl rfl
  | lt => exact symbolic .lt rfl rfl
  | gt => exact symbolic .gt rfl rfl
  | le => exact symbolic .le rfl rfl
  | ge => exact symbolic .ge rfl rfl

theorem link?_compare {op : CompareOp} {ks : List Lexeme} {e : Expr}
    (right : Reads (concatenated whole) ks Follow (Like e)) :
    Reads (link? whole) (op.lexemes ++ ks) Follow
      fun found => ∃ l, found = some l ∧ ∃ a, l = .compare op a ∧ Like e a := by
  have operand : Reads (concatenated whole >>= fun a => pure (some (Link.compare op a))) ks Follow
      fun found => ∃ l, found = some l ∧ ∃ a, l = .compare op a ∧ Like e a :=
    .last right fun a like => .pure ⟨_, rfl, a, rfl, like⟩
  have skipped : Reads (do
      skip
      if op.lexemes.length = 2 then skip
      return some (Link.compare op (← concatenated whole))) (op.lexemes ++ ks) Follow
      fun found => ∃ l, found = some l ∧ ∃ a, l = .compare op a ∧ Like e a := by
    cases op <;>
      first
        | exact .cons .skip fun _ _ => .cons .skip fun _ _ => operand
        | exact .cons .skip fun _ _ => operand
  intro ts rest written after
  obtain ⟨a, read, result⟩ := skipped ts rest written after
  have nonempty : ∃ t more, ts = t :: more := by
    cases ts with
    | nil => cases op <;> cases written
    | cons t more => exact ⟨t, more, rfl⟩
  obtain ⟨t, more, rfl⟩ := nonempty
  have known : comparison? t (more ++ rest).head? = some (op.lexemes.length, op) :=
    comparison?_lexemes (ks ++ lexemes rest) (by
      rw [← List.append_assoc, ← written, ← List.map_append]
      rfl)
  refine ⟨a, ?_, result⟩
  refine (bind_ok (r := peek) rfl).trans ?_
  simp only [List.cons_append, List.head?_cons] at read ⊢
  refine (bind_ok (r := peekNext) rfl).trans ?_
  simp only [List.tail_cons, known]
  exact read

theorem testName_reads {n : String} {args : List Expr} (negated : Bool)
    (positional : ∀ e ∈ args, Inner whole e.lexemes e)
    (stops : ∀ rest, Follow rest → Stops .access rest) :
    Reads (accept .name >>= fun
      | none => fail .expectedTestName
      | some t => optionalArguments whole >>= fun
        | (args, kwargs) =>
            if kwargs.isEmpty then pure (Link.test t.text args negated) else fail .testKeyword)
      (word n :: Expr.optionalArguments (Expr.parts .choice args)) Follow
      fun l => ∃ as, l = .test n as negated ∧ as.map Expr.erase = args.map Expr.erase := by
  refine .cons .accept ?_
  rintro _ ⟨t, rfl, first⟩
  have text : t.text = n := congrArg Prod.snd first
  have given := optionalArguments_reads positional (List.forall_mem_nil _) .nil stops
  rw [Expr.namedParts, List.append_nil] at given
  refine .last given ?_
  rintro ⟨as, kwargs⟩ ⟨same, unnamed⟩
  cases List.map_eq_nil_iff.mp unnamed
  exact .pure ⟨as, by rw [text], same⟩

theorem testLink_reads {n : String} {args : List Expr} (negated : Bool) (free : n ≠ "not")
    (positional : ∀ e ∈ args, Inner whole e.lexemes e)
    (stops : ∀ rest, Follow rest → Stops .access rest) :
    Reads (testLink whole)
      ((if negated then [word "not"] else []) ++
        word n :: Expr.optionalArguments (Expr.parts .choice args)) Follow
      fun l => ∃ as, l = .test n as negated ∧ as.map Expr.erase = args.map Expr.erase := by
  cases negated with
  | true =>
      refine .cons (acceptWord_reads "not") ?_
      rintro _ ⟨t, rfl, _⟩
      exact testName_reads true positional stops
  | false =>
      refine .missed (fun t first => ?_) (testName_reads false positional stops)
      have text : t.text = n := congrArg Prod.snd first
      simp [isWord, text, free]

theorem link?_test {n : String} {args : List Expr} {negated : Bool} (free : n ≠ "not")
    (positional : ∀ e ∈ args, Inner whole e.lexemes e)
    (stops : ∀ rest, Follow rest → Stops .access rest) :
    Reads (link? whole)
      (word "is" :: ((if negated then [word "not"] else []) ++
        word n :: Expr.optionalArguments (Expr.parts .choice args))) Follow
      fun found => ∃ l, found = some l ∧
        ∃ as, l = .test n as negated ∧ as.map Expr.erase = args.map Expr.erase := by
  have tested := testLink_reads negated free positional stops
  intro ts rest written after
  obtain ⟨t, ts, rfl, first, others⟩ := List.map_eq_cons_iff.mp written
  obtain ⟨l, read, result⟩ := tested ts rest others after
  refine ⟨some l, ?_, l, rfl, result⟩
  have kind : t.kind = .name := congrArg Prod.fst first
  have text : t.text = "is" := congrArg Prod.snd first
  have plain : comparison? t (ts ++ rest).head? = none := by
    simp [comparison?, kind, text]
  refine (bind_ok (r := peek) rfl).trans ?_
  simp only [List.cons_append, List.head?_cons]
  refine (bind_ok (r := peekNext) rfl).trans ?_
  simp only [List.tail_cons, plain, isWord_iff.mpr first, if_true]
  exact (bind_ok (r := skip) rfl).trans (bind_ok read)

theorem any_isWord {w : String} {ts : List Token} (next : ts.head?.any (isWord [w]) = true) :
    (lexemes ts).head? = some (word w) := by
  cases ts with
  | nil => cases next
  | cons t ts => exact congrArg some (isWord_iff.mp next)

theorem following_of_comparison? {t : Token} {ts : List Token} {found : Nat × CompareOp}
    (known : comparison? t ts.head? = some found) :
    following (lexemes (t :: ts)) = some .comparison := by
  obtain ⟨kind, text, pos⟩ := t
  cases kind with
  | symbol s =>
      obtain ⟨op, known, _⟩ := Option.map_eq_some_iff.mp known
      cases s <;> first | rfl | cases known
  | name =>
      change wordLevel? text (lexemes ts).head? = some .comparison
      simp only [comparison?] at known
      split at known
      · next same => rw [same]; rfl
      · split at known
        · next same => rw [same.1, any_isWord same.2]; rfl
        · split at known
          · next same => rw [same.1, any_isWord same.2]; rfl
          · split at known
            · next same => rw [same.1, any_isWord same.2]; rfl
            · cases known
  | _ => cases known

theorem link?_halts {level : Level} (le : level.rank ≤ Level.comparison.rank) :
    Halts (link? whole) (Stops level) := by
  intro rest stops
  refine (bind_ok (r := peek) rfl).trans ?_
  cases rest with
  | nil => rfl
  | cons t rest =>
      have continues : ∀ {found : Level}, following (lexemes (t :: rest)) = some found →
          found ≠ .comparison := by
        rintro found equation rfl
        exact absurd (stops _ equation) (Nat.not_lt.mpr le)
      have plain : comparison? t rest.head? = none := by
        cases known : comparison? t rest.head? with
        | none => rfl
        | some found => exact absurd rfl (continues (following_of_comparison? known))
      have test : isWord ["is"] t = false := by
        rw [← Bool.not_eq_true, isWord_iff]
        intro lexeme
        have chained : following (lexemes (t :: rest)) = some .comparison := by
          rw [lexemes, List.map_cons, lexeme]
          rfl
        exact continues chained rfl
      simp only [List.head?_cons]
      refine (bind_ok (r := peekNext) rfl).trans ?_
      simp only [List.tail_cons, plain, test, Bool.false_eq_true, if_false]
      rfl

end Stencil.Grammar
