import Stencil.Proofs.Grammar.Levels
import Stencil.Proofs.Grammar.Printed

namespace Stencil.Grammar

open Reader Lexeme

variable {whole : Reader Expr} {Follow : List Lexeme → Prop}

/-- Inside brackets `ks` is read as `e`. -/
structure Inner (whole : Reader Expr) (ks : List Lexeme) (e : Expr) : Prop where
  begins : Begins .choice ks
  reads : Reads whole ks (Stops .choice) (Like e)

theorem Inner.reads_ends {ks : List Lexeme} {e : Expr} (inner : Inner whole ks e) :
    Reads whole ks Ends (Like e) :=
  inner.reads.mono (fun _ ends => ends.stops _) fun _ like => like

theorem Inner.starts {ks : List Lexeme} {e : Expr} (inner : Inner whole ks e) {close : Symbol}
    (ending : close = .rparen ∨ close = .rbracket ∨ close = .rbrace) :
    ∃ l more, ks = l :: more ∧ l.1 ≠ .symbol close := by
  obtain ⟨l, more, found, rfl, opening, _⟩ := inner.begins.opens
  refine ⟨l, more, rfl, ?_⟩
  obtain ⟨kind, text⟩ := l
  rintro rfl
  rcases ending with rfl | rfl | rfl <;> cases opening

/-! Words before a symbol. -/

theorem wordBefore?_reads (s : Symbol) (w : String) :
    Reads (wordBefore? s) [word w] (fun rest => ∃ more, rest = symbol s :: more)
      fun found => ∃ t, found = some t ∧ t.text = w := by
  intro ts rest written after
  obtain ⟨more, after⟩ := after
  obtain ⟨t, ts, rfl, first, last⟩ := List.map_eq_cons_iff.mp written
  cases List.map_eq_nil_iff.mp last
  obtain ⟨next, others, rfl, second, _⟩ := List.map_eq_cons_iff.mp after
  have name : t.kind = .name := congrArg Prod.fst first
  have kind : next.kind = .symbol s := congrArg Prod.fst second
  refine ⟨some t, ?_, t, rfl, congrArg Prod.snd first⟩
  refine (bind_ok (r := peek) rfl).trans ((bind_ok (r := peekNext) rfl).trans ?_)
  simp only [List.cons_append, List.nil_append, List.head?_cons, List.tail_cons, name, kind,
    and_self, if_true]
  exact bind_ok rfl

theorem wordBefore?_other {s : Symbol} {ts : List Token}
    (other : ∀ t next more, ts = t :: next :: more → ¬(t.kind = .name ∧ next.kind = .symbol s)) :
    wordBefore? s ts = .ok (none, ts) := by
  refine (bind_ok (r := peek) rfl).trans ((bind_ok (r := peekNext) rfl).trans ?_)
  cases ts with
  | nil => rfl
  | cons t ts =>
      cases ts with
      | nil => rfl
      | cons next more =>
          simp only [List.head?_cons, List.tail_cons, other t next more rfl, if_false]
          rfl

/-- An expression is no word before a symbol, unless it is a word and the symbol follows it. -/
theorem wordBefore?_begins {s : Symbol} (either : s = .assign ∨ s = .colon) {level : Level}
    {ts : List Token} (rest : List Token) (begins : Begins level (lexemes ts))
    (single : ∀ l, lexemes ts = [l] → l.1 ≠ .name ∨ ∀ t, rest.head? = some t → t.kind ≠ .symbol s) :
    wordBefore? s (ts ++ rest) = .ok (none, ts ++ rest) := by
  refine wordBefore?_other ?_
  rintro t next more split ⟨name, kind⟩
  obtain ⟨_, _, _, written, _⟩ := begins.opens
  obtain ⟨t, ts, rfl, rfl, rfl⟩ := List.map_eq_cons_iff.mp written
  rw [List.cons_append] at split
  obtain ⟨rfl, behind⟩ := List.cons.inj split
  cases ts with
  | nil =>
      rcases single t.lexeme rfl with other | other
      · exact other name
      · exact other next (congrArg List.head? behind) kind
  | cons u ts =>
      rw [List.cons_append] at behind
      obtain ⟨rfl, _⟩ := List.cons.inj behind
      obtain ⟨assign, colon⟩ := begins.second t.text u.lexeme (lexemes ts) (by
        simp [Token.lexeme, name])
      rcases either with rfl | rfl
      · exact assign kind
      · exact colon kind

/-! Arguments. -/

def Argument.erase : Argument → Argument
  | .positional e => .positional e.erase
  | .keyword n e => .keyword n e.erase

def Argument.lexemes : Argument → List Lexeme
  | .positional e => e.lexemes
  | .keyword n e => Expr.namedLexemes (n, e)

@[simp] theorem Argument.isKeyword_erase (a : Argument) : a.erase.isKeyword = a.isKeyword := by
  cases a <;> rfl

/-- The arguments of a call: first those without a name. -/
def written (args : List Expr) (named : List (String × Expr)) : List Argument :=
  args.map .positional ++ named.map fun x => .keyword x.1 x.2

theorem argument_positional {previous : List Argument} {e : Expr}
    (inner : Inner whole e.lexemes e)
    (positional : previous.any Argument.isKeyword = false) :
    Reads (argument whole previous) e.lexemes Ends
      fun a => a.erase = (Argument.positional e).erase := by
  intro ts rest written ends
  have none := wordBefore?_begins (.inl rfl) rest (written ▸ inner.begins)
    fun l _ => .inr fun t head => by
      obtain ⟨s, more, after, ending⟩ := ends
      obtain ⟨u, others, rfl, symbol, _⟩ := List.map_eq_cons_iff.mp after
      cases head
      have kind : t.kind = .symbol s := congrArg Prod.fst symbol
      rw [kind]
      rcases ending with rfl | rfl | rfl | rfl <;> decide
  obtain ⟨a, read, like⟩ := inner.reads_ends ts rest written ends
  refine ⟨.positional a, ?_, congrArg Argument.positional like⟩
  rw [argument, bind_ok none]
  simp only [positional, Bool.false_eq_true, if_false]
  exact bind_ok read

theorem argument_keyword {previous : List Argument} {n : String} {e : Expr}
    (inner : Inner whole e.lexemes e) :
    Reads (argument whole previous) (Expr.namedLexemes (n, e)) Ends
      fun a => a.erase = (Argument.keyword n e).erase := by
  refine .bind (wordBefore?_reads .assign n) (fun _ _ => ⟨_, rfl⟩) ?_
  rintro _ ⟨t, rfl, rfl⟩
  refine .cons .skip fun _ _ => ?_
  exact .last inner.reads_ends fun a like => .pure (congrArg (Argument.keyword t.text) like)

/-- All before a positional argument is positional. -/
theorem positional_before {args : List Expr} {named : List (String × Expr)} {e : Expr}
    {before behind : List Argument}
    (split : written args named = before ++ .positional e :: behind) :
    before.any Argument.isKeyword = false := by
  induction args generalizing before with
  | nil =>
      have mem : Argument.positional e ∈ written [] named := by simp [split]
      simp [written] at mem
  | cons arg args ih =>
      cases before with
      | nil => rfl
      | cons a before =>
          rw [written, List.map_cons, List.cons_append, List.cons_append] at split
          obtain ⟨rfl, others⟩ := List.cons.inj split
          change before.any Argument.isKeyword = false
          exact ih others

theorem setKeyword_fresh {n : String} {e : Expr} {named : List (String × Expr)}
    (fresh : n ∉ named.map Prod.fst) : setKeyword n e named = named ++ [(n, e)] := by
  induction named with
  | nil => rfl
  | cons x named ih =>
      simp only [List.map_cons, List.mem_cons, not_or] at fresh
      simp [setKeyword, Ne.symm fresh.1, ih fresh.2]

theorem splitArguments_written (args : List Expr) {named : List (String × Expr)}
    (distinct : (named.map Prod.fst).Nodup) :
    splitArguments (written args named) = (args, named) := by
  have unnamed : ∀ kwargs, (args.map Argument.positional).foldl (fun kwargs argument =>
      match argument with
      | .positional _ => kwargs
      | .keyword n e => setKeyword n e kwargs) kwargs = kwargs := by
    intro kwargs
    induction args with
    | nil => rfl
    | cons arg args ih => exact ih
  have collected : ∀ before : List (String × Expr), ((before ++ named).map Prod.fst).Nodup →
      named.foldl (fun kwargs x => setKeyword x.1 x.2 kwargs) before = before ++ named := by
    clear distinct
    induction named with
    | nil => simp
    | cons x named ih =>
        intro before distinct
        have fresh : x.1 ∉ before.map Prod.fst := by
          simp only [List.map_append, List.map_cons, List.nodup_append, List.mem_cons] at distinct
          exact fun mem => distinct.2.2 _ mem _ (.inl rfl) rfl
        rw [List.foldl_cons, setKeyword_fresh fresh, ih _ (by simpa using distinct),
          List.append_assoc]
        rfl
  have positional : (written args named).filterMap (fun
      | .positional e => some e
      | .keyword _ _ => none) = args := by
    simp [written, List.filterMap_map, Function.comp_def]
  have keywords : (written args named).foldl (fun kwargs argument =>
      match argument with
      | .positional _ => kwargs
      | .keyword n e => setKeyword n e kwargs) [] = named := by
    rw [written, List.foldl_append, unnamed, List.foldl_map]
    exact collected [] distinct
  exact Prod.ext positional keywords

/-- If each member that looks like a given one has the constructor `c`, so has the whole list. -/
theorem exists_eq_map {α β γ δ : Type} {f : α → γ} {c : β → α} (view : β → δ)
    (member : ∀ a x, f a = f (c x) → ∃ y, a = c y ∧ view y = view x) {found : List α}
    {xs : List β} (same : found.map f = (xs.map c).map f) :
    ∃ ys : List β, found = ys.map c ∧ ys.map view = xs.map view := by
  induction xs generalizing found with
  | nil => exact ⟨[], List.map_eq_nil_iff.mp same, rfl⟩
  | cons x xs ih =>
      obtain ⟨a, found, rfl, first, others⟩ := List.map_eq_cons_iff.mp same
      obtain ⟨ys, rfl, viewed⟩ := ih others
      obtain ⟨y, rfl, look⟩ := member a x first
      exact ⟨y :: ys, rfl, by rw [List.map_cons, List.map_cons, viewed, look]⟩

/-- Arguments that look like written ones are taken apart into what these were written from. -/
theorem splitArguments_of_erase {found : List Argument} {args : List Expr}
    {named : List (String × Expr)} (distinct : (named.map Prod.fst).Nodup)
    (same : found.map Argument.erase = (written args named).map Argument.erase) :
    (splitArguments found).1.map Expr.erase = args.map Expr.erase ∧
      (splitArguments found).2.map (fun x => (x.1, x.2.erase)) =
        named.map fun x => (x.1, x.2.erase) := by
  rw [written, List.map_append] at same
  obtain ⟨first, second, rfl, positional, keywords⟩ := List.map_eq_append_iff.mp same
  obtain ⟨args', rfl, erased⟩ := exists_eq_map Expr.erase (fun a e look => by
    cases a with
    | positional e' => exact ⟨e', rfl, Argument.positional.inj look⟩
    | keyword n e' => cases look) positional
  obtain ⟨named', rfl, alike⟩ := exists_eq_map (fun x => (x.1, x.2.erase))
    (fun a x look => by
      cases a with
      | positional e' => cases look
      | keyword n e' =>
          obtain ⟨name, value⟩ := Argument.keyword.inj look
          exact ⟨(n, e'), rfl, Prod.ext name value⟩) keywords
  have names : named'.map Prod.fst = named.map Prod.fst := by
    simpa [Function.comp_def] using congrArg (List.map Prod.fst) alike
  have taken := splitArguments_written args' (names ▸ distinct)
  rw [written] at taken
  rw [taken]
  exact ⟨erased, alike⟩

theorem arguments_reads {args : List Expr} {named : List (String × Expr)}
    (positional : ∀ e ∈ args, Inner whole e.lexemes e)
    (values : ∀ x ∈ named, Inner whole x.2.lexemes x.2)
    (distinct : (named.map Prod.fst).Nodup) :
    Reads (arguments whole)
      (parenthesized (separated (symbol .comma)
        (Expr.parts .choice args ++ Expr.namedParts named))) Follow
      fun found => found.1.map Expr.erase = args.map Expr.erase ∧
        found.2.map (fun x => (x.1, x.2.erase)) = named.map fun x => (x.1, x.2.erase) := by
  have chunks : Expr.parts .choice args ++ Expr.namedParts named =
      (written args named).map Argument.lexemes := by
    simp [written, Function.comp_def, Argument.lexemes]
  have member : ∀ a ∈ written args named, (∃ e ∈ args, a = .positional e) ∨
      ∃ x ∈ named, a = .keyword x.1 x.2 := by
    intro a mem
    simp only [written, List.mem_append, List.mem_map] at mem
    rcases mem with ⟨e, mem, rfl⟩ | ⟨x, mem, rfl⟩
    · exact .inl ⟨e, mem, rfl⟩
    · exact .inr ⟨x, mem, rfl⟩
  rw [chunks]
  refine .cons .expect fun _ _ => ?_
  refine .last (items_reads Argument.erase Argument.erase (.inl rfl) _ ?_ ?_)
    fun found same => .pure (splitArguments_of_erase distinct same)
  · intro a mem
    rcases member a mem with ⟨e, listed, rfl⟩ | ⟨x, listed, rfl⟩
    · exact (positional e listed).starts (.inl rfl)
    · exact ⟨_, _, rfl, TokenKind.noConfusion⟩
  · intro before a behind split previous viewed
    have mem : a ∈ written args named := by simp [split]
    rcases member a mem with ⟨e, listed, rfl⟩ | ⟨x, listed, rfl⟩
    · refine argument_positional (positional e listed) ?_
      have unnamed : (before.map Argument.erase).any Argument.isKeyword = false := by
        simpa using positional_before split
      rw [← List.any_reverse, ← viewed] at unnamed
      simpa using unnamed
    · exact argument_keyword (values x listed)

theorem optionalArguments_reads {args : List Expr} {named : List (String × Expr)}
    (positional : ∀ e ∈ args, Inner whole e.lexemes e)
    (values : ∀ x ∈ named, Inner whole x.2.lexemes x.2)
    (distinct : (named.map Prod.fst).Nodup) (stops : ∀ rest, Follow rest → Stops .access rest) :
    Reads (optionalArguments whole)
      (Expr.optionalArguments (Expr.parts .choice args ++ Expr.namedParts named)) Follow
      fun found => found.1.map Expr.erase = args.map Expr.erase ∧
        found.2.map (fun x => (x.1, x.2.erase)) = named.map fun x => (x.1, x.2.erase) := by
  have given : Reads _ _ Follow _ := arguments_reads positional values distinct
  cases parts : Expr.parts .choice args ++ Expr.namedParts named with
  | nil =>
      simp only [Expr.parts_eq_map, Expr.namedParts_eq_map, List.append_eq_nil_iff,
        List.map_eq_nil_iff] at parts
      obtain ⟨rfl, rfl⟩ := parts
      intro ts rest written after
      cases List.map_eq_nil_iff.mp written
      refine ⟨([], []), ?_, rfl, rfl⟩
      rw [List.nil_append, optionalArguments]
      refine (bind_ok (r := peek) rfl).trans ?_
      cases rest with
      | nil => rfl
      | cons t rest =>
          have other : t.kind ≠ .symbol .lparen :=
            ne_symbol_of_stops (stops _ after) rfl (Nat.le_refl _)
          simp only [List.head?_cons, other, if_false]
          rfl
  | cons part parts_ =>
      rw [parts] at given
      refine .peek fun t first => ?_
      have kind : t.kind = .symbol .lparen := congrArg Prod.fst first
      simp only [kind, if_true]
      exact given

/-! Operands. -/

theorem operand_word {n : String} {e : Expr}
    (read : ∀ pos, Like e (match constant? n with
      | some value => .const pos value
      | none => .name pos n)) :
    Reads (operand whole) [word n] Follow (Like e) := by
  refine .peek fun t first => ?_
  have kind : t.kind = .name := congrArg Prod.fst first
  have text : t.text = n := congrArg Prod.snd first
  have same := read t.pos
  simp only [kind, text]
  refine .cons .skip fun _ _ => ?_
  cases found : constant? n <;> rw [found] at same <;> exact .pure same

theorem operand_const {p : Pos} (value : Literal) :
    Reads (operand whole) [value.lexeme] Follow (Like (.const p value)) := by
  cases value with
  | null => exact operand_word fun _ => rfl
  | bool b => cases b <;> exact operand_word fun _ => rfl
  | nat n =>
      refine .peek fun t first => ?_
      have kind : t.kind = .integer := congrArg Prod.fst first
      have text : t.text = toString n := congrArg Prod.snd first
      simp only [kind, text, Literal.natOfDigits_toString]
      exact .cons .skip fun _ _ => .pure rfl
  | decimal digits places =>
      refine .peek fun t first => ?_
      have kind : t.kind = .decimal := congrArg Prod.fst first
      have text : t.text = String.ofList (Literal.decimalChars digits places) :=
        congrArg Prod.snd first
      simp only [kind, text, Literal.decimalOfText_decimalChars]
      exact .cons .skip fun _ _ => .pure rfl
  | string s =>
      refine .peek fun t first => ?_
      have kind : t.kind = .string := congrArg Prod.fst first
      have text : t.text = s := congrArg Prod.snd first
      simp only [kind, text]
      exact .cons .skip fun _ _ => .pure rfl

theorem operand_name {p : Pos} {n : String} (free : n ∉ reserved) :
    Reads (operand whole) [word n] Follow (Like (.name p n)) := by
  have ordinary : constant? n = none := by
    unfold constant?
    split <;> first | rfl | exact absurd free (by decide)
  exact operand_word fun _ => by
    rw [ordinary]
    rfl

theorem operand_parenthesized {ks : List Lexeme} {e : Expr} (inner : Inner whole ks e) :
    Reads (operand whole) (parenthesized ks) Follow (Like e) := by
  refine .peek fun t first => ?_
  have kind : t.kind = .symbol .lparen := congrArg Prod.fst first
  simp only [kind]
  refine .cons .skip fun _ _ => .bind inner.reads_ends (fun _ _ => ?_) fun a like => ?_
  · exact ⟨.rparen, _, rfl, .inr (.inl rfl)⟩
  · exact .cons .expect fun _ _ => .pure like

theorem operand_list {p : Pos} {items : List Expr} (each : ∀ e ∈ items, Inner whole e.lexemes e) :
    Reads (operand whole) (Expr.list p items).lexemes Follow (Like (.list p items)) := by
  refine .peek fun t first => ?_
  have kind : t.kind = .symbol .lbracket := congrArg Prod.fst first
  simp only [kind, Expr.parts_eq_map]
  refine .cons .skip fun _ _ => ?_
  refine .last (items_reads Expr.erase Expr.erase (.inr (.inl rfl)) items ?_ ?_)
    fun found same => .pure ?_
  · intro e mem
    rw [Expr.lexemesAt_choice]
    exact (each e mem).starts (.inr (.inl rfl))
  · intro before e behind split _ _
    rw [Expr.lexemesAt_choice]
    exact (each e (by simp [split])).reads_ends
  · simp [Like, Expr.erase, same]

theorem keyed_single {ks : List Lexeme} {l : Lexeme} (single : Expr.keyed ks = [l]) :
    l.1 ≠ .name := by
  rw [Expr.keyed.eq_def] at single
  split at single
  · cases single
  · next other =>
      obtain ⟨kind, text⟩ := l
      rintro rfl
      exact other text single

theorem entry_reads {key value : Expr} (first : Inner whole (Expr.keyed key.lexemes) key)
    (second : Inner whole value.lexemes value) :
    Reads (entry whole) (Expr.entryLexemes (key, value)) Ends
      fun found => (found.1.erase, found.2.erase) = (key.erase, value.erase) := by
  have behind : ∀ found, Like key found →
      Reads (expect (.symbol .colon) >>= fun _ => whole >>= fun v => pure (found, v))
        (symbol .colon :: value.lexemes) Ends
        fun found => (found.1.erase, found.2.erase) = (key.erase, value.erase) := by
    intro found like
    refine .cons .expect fun _ _ => .last second.reads_ends fun v same => .pure ?_
    rw [like, same]
  have known : Reads (whole >>= fun found =>
      expect (.symbol .colon) >>= fun _ => whole >>= fun v => pure (found, v))
      (Expr.entryLexemes (key, value)) Ends
      fun found => (found.1.erase, found.2.erase) = (key.erase, value.erase) :=
    .bind first.reads (fun _ _ => nofun) behind
  intro ts rest written ends
  have none : wordBefore? .colon (ts ++ rest) = .ok (none, ts ++ rest) := by
    obtain ⟨ts₁, ts₂, rfl, key, value⟩ := List.map_eq_append_iff.mp written
    rw [List.append_assoc]
    exact wordBefore?_begins (.inr rfl) _ (key ▸ first.begins) fun l single =>
      .inl (keyed_single (key.symm.trans single))
  obtain ⟨a, read, result⟩ := known ts rest written ends
  exact ⟨a, (bind_ok none).trans read, result⟩

theorem operand_dict {p : Pos} {entries : List (Expr × Expr)}
    (keys : ∀ x ∈ entries, Inner whole (Expr.keyed x.1.lexemes) x.1)
    (values : ∀ x ∈ entries, Inner whole x.2.lexemes x.2) :
    Reads (operand whole) (Expr.dict p entries).lexemes Follow (Like (.dict p entries)) := by
  refine .peek fun t first => ?_
  have kind : t.kind = .symbol .lbrace := congrArg Prod.fst first
  simp only [kind, Expr.entryParts_eq_map]
  refine .cons .skip fun _ _ => ?_
  refine .last (items_reads (fun x => (x.1.erase, x.2.erase))
    (fun x => (x.1.erase, x.2.erase)) (.inr (.inr rfl)) entries ?_ ?_)
    fun found same => .pure ?_
  · intro x mem
    obtain ⟨l, more, first, different⟩ := (keys x mem).starts (.inr (.inr rfl))
    exact ⟨l, _, by rw [Expr.entryLexemes, first]; rfl, different⟩
  · intro before x behind split _ _
    have mem : x ∈ entries := by simp [split]
    exact entry_reads (keys x mem) (values x mem)
  · simp [Like, Expr.erase, same]

/-! What follows an operand. -/

theorem suffix?_attr (n : String) :
    Reads (suffix? whole) [symbol .dot, word n] Follow
      fun found => ∃ s, found = some s ∧ ∃ p, s = .attr p n := by
  refine .peek fun t first => ?_
  have dot : t.kind = .symbol .dot := congrArg Prod.fst first
  simp only [dot]
  refine .cons .skip fun _ _ => .last (P := fun s => ∃ p, s = .attr p n) ?_ fun s found =>
    .pure ⟨s, rfl, found⟩
  refine .peek fun u second => ?_
  have name : u.kind = .name := congrArg Prod.fst second
  have text : u.text = n := congrArg Prod.snd second
  simp only [name, if_true]
  exact .cons .skip fun _ _ => .pure ⟨u.pos, by rw [text]⟩

theorem suffix?_item {key : Expr} (inner : Inner whole key.lexemes key) :
    Reads (suffix? whole) (symbol .lbracket :: (key.lexemes ++ [symbol .rbracket])) Follow
      fun found => ∃ s, found = some s ∧ ∃ p k, s = .item p k ∧ Like key k := by
  refine .peek fun t first => ?_
  have bracket : t.kind = .symbol .lbracket := congrArg Prod.fst first
  simp only [bracket]
  refine .cons .skip fun _ _ => .bind inner.reads_ends (fun _ _ => ?_) fun k like => ?_
  · exact ⟨.rbracket, _, rfl, .inr (.inr (.inl rfl))⟩
  · exact .cons .expect fun _ _ => .pure ⟨_, rfl, t.pos, k, rfl, like⟩

theorem suffix?_call {args : List Expr} {named : List (String × Expr)}
    (positional : ∀ e ∈ args, Inner whole e.lexemes e)
    (values : ∀ x ∈ named, Inner whole x.2.lexemes x.2)
    (distinct : (named.map Prod.fst).Nodup) :
    Reads (suffix? whole)
      (parenthesized (separated (symbol .comma)
        (Expr.parts .choice args ++ Expr.namedParts named))) Follow
      fun found => ∃ s, found = some s ∧ ∃ as ks, s = .call as ks ∧
        as.map Expr.erase = args.map Expr.erase ∧
        ks.map (fun x => (x.1, x.2.erase)) = named.map fun x => (x.1, x.2.erase) := by
  refine .peek fun t first => ?_
  have bracket : t.kind = .symbol .lparen := congrArg Prod.fst first
  simp only [bracket]
  exact .last (arguments_reads positional values distinct) fun found same =>
    .pure ⟨_, rfl, found.1, found.2, rfl, same⟩

theorem suffix?_halts {level : Level} (le : level.rank ≤ Level.access.rank) :
    Halts (suffix? whole) (Stops level) := by
  intro rest stops
  refine (bind_ok (r := peek) rfl).trans ?_
  cases rest with
  | nil => rfl
  | cons t rest =>
      have dot := ne_symbol_of_stops stops (s := .dot) rfl le
      have bracket := ne_symbol_of_stops stops (s := .lbracket) rfl le
      have paren := ne_symbol_of_stops stops (s := .lparen) rfl le
      simp only [List.head?_cons]
      rfl

end Stencil.Grammar
