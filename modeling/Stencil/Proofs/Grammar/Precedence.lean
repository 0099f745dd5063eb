import Stencil.Proofs.Grammar.Operators

namespace Stencil

open Lexeme Reader

namespace Level

def looser : Level → Level
  | choice | disjunction => choice
  | conjunction => disjunction
  | negation => conjunction
  | comparison => negation
  | test => comparison
  | concatenation => test
  | sum => concatenation
  | product => sum
  | sign => product
  | range => sign
  | filter => range
  | access => filter
  | operand => access

theorem rank_looser (n : Level) : n.looser.rank = n.rank - 1 := by
  cases n <;> rfl

theorem eq_of_rank_eq {m n : Level} (same : m.rank = n.rank) : m = n := by
  cases m <;> cases n <;> first | rfl | cases same

end Level

namespace Grammar

variable {whole : Reader Expr}

def Application.apply (e : Expr) (a : Application) : Expr :=
  .filter a.pos e a.name a.args a.kwargs

/-- `ks` is read as `e` at a level, so far that what comes after may go on at this level. -/
def At (whole : Reader Expr) (level : Level) (ks : List Lexeme) (e : Expr) : Prop :=
  match level with
  | .choice => Reads (choice whole) ks (Stops .choice) (Like e)
  | .disjunction => Reads (disjunction whole) ks (Stops .disjunction) (Like e)
  | .conjunction => Reads (conjunction whole) ks (Stops .conjunction) (Like e)
  | .negation => Reads (negated whole) ks (Stops .negation) (Like e)
  | .comparison =>
      Spine (concatenated whole) (link? whole) ks (Stops .concatenation) fun a links =>
        Like e (joinLinks a [] links)
  | .test =>
      Spine (concatenated whole) (link? whole) ks (Stops .concatenation) fun a links =>
        ∃ e', Like e e' ∧ ∀ more, joinLinks a [] (links ++ more) = joinLinks e' [] more
  | .concatenation => Reads (concatenated whole) ks (Stops .concatenation) (Like e)
  | .sum =>
      Spine (product whole) (operation? sumOp? (product whole)) ks (Stops .product) fun a os =>
        Like e (os.foldl applyArith a)
  | .product =>
      Spine (signed whole) (operation? productOp? (signed whole)) ks (Stops .sign) fun a os =>
        Like e (os.foldl applyArith a)
  | .sign => Reads (signed whole) ks (Stops .sign) (Like e)
  | .range => Reads (ranged whole) ks (Stops .range) (Like e)
  | .filter =>
      Spine (accessed whole) (application? whole) ks (Stops .access) fun a found =>
        Like e (found.foldl Application.apply a)
  | .access =>
      Spine (operand whole) (suffix? whole) ks (Stops .operand) fun a found =>
        Like e (found.foldl Suffix.apply a)
  | .operand => Reads (operand whole) ks (Stops .operand) (Like e)

theorem reads_stops {α : Type} {r : Reader α} {ks : List Lexeme} {P : α → Prop}
    {inner outer : Level} (read : Reads r ks (Stops inner) P) (le : outer.rank ≤ inner.rank) :
    Reads r ks (Stops outer) P :=
  read.mono (fun _ stops => stops.mono le) fun _ holds => holds

/-! Complete readings. -/

theorem leftward_reads {τ : Type} {first : Reader Expr} {next? : Reader (Option τ)}
    {apply : Expr → τ → Expr} {inner outer : Level} {ks : List Lexeme} {e : Expr}
    (spine : Spine first next? ks (Stops inner) fun a found => Like e (found.foldl apply a))
    (le : outer.rank ≤ inner.rank) (halts : Halts next? (Stops outer)) :
    Reads (leftward first next? apply) ks (Stops outer) (Like e) :=
  spine.reads (fun _ stops => stops.mono le) halts fun _ _ like => .pure like

theorem sumOp?_level {s : Symbol} {op : ArithOp} (known : sumOp? s = some op) :
    s.level? = some .sum := by
  cases s <;> first | rfl | cases known

theorem productOp?_level {s : Symbol} {op : ArithOp} (known : productOp? s = some op) :
    s.level? = some .product := by
  cases s <;> first | rfl | cases known

section Complete

variable {ks : List Lexeme} {e : Expr}

theorem At.accessed (read : At whole .access ks e) :
    Reads (accessed whole) ks (Stops .access) (Like e) :=
  leftward_reads read (by decide) (suffix?_halts (Nat.le_refl _))

theorem At.filtered (read : At whole .filter ks e) :
    Reads (filtered whole) ks (Stops .filter) (Like e) :=
  show Reads (leftward (Grammar.accessed whole) (application? whole) Application.apply) _ _ _ from
    leftward_reads read (by decide) (application?_halts (Nat.le_refl _))

theorem At.product (read : At whole .product ks e) :
    Reads (product whole) ks (Stops .product) (Like e) :=
  leftward_reads read (by decide)
    (operation?_halts (fun _ _ => productOp?_level) (Nat.le_refl _))

theorem At.sum (read : At whole .sum ks e) : Reads (sum whole) ks (Stops .sum) (Like e) :=
  leftward_reads read (by decide) (operation?_halts (fun _ _ => sumOp?_level) (Nat.le_refl _))

theorem At.compared (read : At whole .comparison ks e) :
    Reads (compared whole) ks (Stops .comparison) (Like e) :=
  Spine.reads read (fun _ stops => stops.mono (by decide)) (link?_halts (Nat.le_refl _))
    fun _ _ like => .pure like

theorem joined_single {part : Reader Expr} {next? : Reader (Option Expr)}
    {join : Expr → List Expr → Expr} {inner outer : Level}
    (read : Reads part ks (Stops inner) (Like e)) (le : outer.rank ≤ inner.rank)
    (halts : Halts next? (Stops outer)) :
    Reads (joined part next? join) ks (Stops outer) (Like e) := by
  refine (Spine.of_reads read).reads (fun _ stops => stops.mono le) halts ?_
  rintro a _ ⟨like, rfl⟩
  exact .pure like

theorem prefixed_plain {sign? : Reader (Option (Pos × SignOp))} {operand : Reader Expr}
    {Follow : List Lexeme → Prop}
    (none : ∀ ts rest, lexemes ts = ks → sign? (ts ++ rest) = .ok (none, ts ++ rest))
    (read : Reads operand ks Follow (Like e)) :
    Reads (prefixed sign? operand) ks Follow (Like e) := by
  intro ts rest written after
  obtain ⟨a, read, like⟩ := read ts rest written after
  exact ⟨a, prefixed_none (none ts rest written) read, like⟩

theorem At.looser {n : Level} (begins : Begins n ks) (read : At whole n ks e) :
    At whole n.looser ks e := by
  cases n with
  | choice => exact read
  | disjunction =>
      refine .last (reads_stops read (by decide)) fun a like ts rest written stops => ?_
      cases List.map_eq_nil_iff.mp written
      refine ⟨a, ?_, like⟩
      exact bind_ok (acceptSymbol_halts (s := .question) stops rfl (Nat.le_refl _))
  | conjunction =>
      exact joined_single read (by decide) (after?_halts fun _ stops =>
        wordSeparator_other stops (fun _ => rfl) (Nat.le_refl _))
  | negation =>
      exact joined_single read (by decide) (after?_halts fun _ stops =>
        wordSeparator_other stops (fun _ => rfl) (Nat.le_refl _))
  | comparison =>
      exact prefixed_plain (fun ts rest written => notToken?_none (written ▸ begins))
        (reads_stops (At.compared read) (by decide))
  | test =>
      refine Spine.mono read ?_
      rintro a links ⟨e', like, joined⟩
      have closed := joined []
      rw [List.append_nil] at closed
      rw [closed]
      exact like
  | concatenation =>
      refine (Spine.of_reads read).mono ?_
      rintro a _ ⟨like, rfl⟩
      exact ⟨a, like, fun _ => rfl⟩
  | sum =>
      exact joined_single (At.sum read) (by decide) (after?_halts fun _ stops =>
        acceptSymbol_halts stops rfl (Nat.le_refl _))
  | product =>
      refine (Spine.of_reads (At.product read)).mono ?_
      rintro a _ ⟨like, rfl⟩
      exact like
  | sign =>
      refine (Spine.of_reads read).mono ?_
      rintro a _ ⟨like, rfl⟩
      exact like
  | range =>
      exact prefixed_plain (fun ts rest written => signToken?_none (written ▸ begins))
        (reads_stops read (by decide))
  | filter =>
      refine .last (reads_stops (At.filtered read) (by decide))
        fun a like ts rest written stops => ?_
      cases List.map_eq_nil_iff.mp written
      refine ⟨a, ?_, like⟩
      exact bind_ok (acceptSymbol_halts (s := .range) stops rfl (Nat.le_refl _))
  | access =>
      refine (Spine.of_reads (At.accessed read)).mono ?_
      rintro a _ ⟨like, rfl⟩
      exact like
  | operand =>
      refine (Spine.of_reads read).mono ?_
      rintro a _ ⟨like, rfl⟩
      exact like

theorem At.mono {inner outer : Level} (begins : Begins inner ks) (read : At whole inner ks e)
    (le : outer.rank ≤ inner.rank) : At whole outer ks e := by
  obtain ⟨steps, equation⟩ := Nat.exists_eq_add_of_le le
  induction steps generalizing inner with
  | zero => exact Level.eq_of_rank_eq equation ▸ read
  | succ steps ih =>
      have rank := inner.rank_looser
      exact ih (begins.mono (by omega)) (At.looser begins read) (by omega) (by omega)

end Complete

/-! The forms, each at its own level. -/

theorem stops_of_following {level found : Level} {ls : List Lexeme}
    (known : following ls = some found) (lt : found.rank < level.rank) : Stops level ls := by
  intro found' equation
  cases known.symm.trans equation
  exact lt

theorem stops_operand (ls : List Lexeme) : Stops .operand ls := by
  intro found equation
  have below : found ≠ .operand := by
    rintro rfl
    unfold following at equation
    split at equation
    · next s _ _ => cases s <;> cases equation
    · unfold wordLevel? at equation
      repeat' split at equation
      all_goals cases equation
    · cases equation
  cases found <;> first | decide | contradiction

section Forms

variable {p : Pos} {e left right : Expr} {ks ls : List Lexeme}

theorem at_attr {n : String} (object : At whole .access ks e) :
    At whole .access (ks ++ [symbol .dot, word n]) (.attr p e n) := by
  refine (Spine.snoc object (by simp) (fun _ => stops_operand _) (suffix?_attr n)).mono ?_
  rintro a _ ⟨found, _, rfl, like, p', rfl⟩
  rw [List.foldl_append]
  exact congrArg (Expr.attr .start · n) like

theorem at_item {key : Expr} (object : At whole .access ks e)
    (index : Inner whole key.lexemes key) :
    At whole .access (ks ++ symbol .lbracket :: (key.lexemes ++ [symbol .rbracket]))
      (.item p e key) := by
  refine (Spine.snoc object (by simp) (fun _ => stops_operand _) (suffix?_item index)).mono ?_
  rintro a _ ⟨found, _, rfl, like, p', key', rfl, likeKey⟩
  rw [List.foldl_append]
  simp only [Like, List.foldl_cons, List.foldl_nil, Suffix.apply, Expr.erase] at like likeKey ⊢
  rw [like, likeKey]

theorem at_call {args : List Expr} {named : List (String × Expr)} (callee : At whole .access ks e)
    (positional : ∀ e ∈ args, Inner whole e.lexemes e)
    (values : ∀ x ∈ named, Inner whole x.2.lexemes x.2)
    (distinct : (named.map Prod.fst).Nodup) :
    At whole .access (ks ++ parenthesized (separated (symbol .comma)
      (Expr.parts .choice args ++ Expr.namedParts named))) (.call p e args named) := by
  refine (Spine.snoc callee (by simp [parenthesized]) (fun _ => stops_operand _)
    (suffix?_call positional values distinct)).mono ?_
  rintro a _ ⟨found, _, rfl, like, args', named', rfl, sameArgs, sameNamed⟩
  rw [List.foldl_append]
  simp only [Like, List.foldl_cons, List.foldl_nil, Suffix.apply, Expr.erase,
    Expr.eraseAll_eq_map, Expr.eraseNamed_eq_map] at like ⊢
  rw [like, sameArgs, sameNamed]

theorem at_filter {n : String} {args : List Expr} {named : List (String × Expr)}
    (value : At whole .filter ks e) (positional : ∀ e ∈ args, Inner whole e.lexemes e)
    (values : ∀ x ∈ named, Inner whole x.2.lexemes x.2)
    (distinct : (named.map Prod.fst).Nodup) :
    At whole .filter (ks ++ symbol .pipe :: word n ::
      Expr.optionalArguments (Expr.parts .choice args ++ Expr.namedParts named))
      (.filter p e n args named) := by
  refine (Spine.snoc value (by simp) (fun _ => stops_of_following rfl (by decide))
    (application?_reads positional values distinct fun _ stops => stops)).mono ?_
  rintro a _ ⟨found, o, rfl, like, rfl, sameArgs, sameNamed⟩
  rw [List.foldl_append]
  simp only [Like, List.foldl_cons, List.foldl_nil, Application.apply, Expr.erase,
    Expr.eraseAll_eq_map, Expr.eraseNamed_eq_map] at like ⊢
  rw [like, sameArgs, sameNamed]

theorem at_range (first : At whole .filter ks left) (last : At whole .filter ls right) :
    At whole .range (ks ++ symbol .range :: ls) (.range p left right) := by
  refine .bind (At.filtered first) (fun _ _ => stops_of_following rfl (by decide))
    fun a like => .cons (acceptSymbol_reads _) fun _ accepted => ?_
  rw [if_pos accepted]
  refine .last (reads_stops (At.filtered last) (by decide)) fun b like' => .pure ?_
  simp only [Like, Expr.erase] at like like' ⊢
  rw [like, like']

theorem at_sign {op : SignOp} (operand : At whole op.level ks e) :
    At whole op.level (op.lexeme :: ks) (.sign p op e) := by
  have applied : ∀ a, (∃ p' e', a = Expr.sign p' op e' ∧ Like e e') → Like (.sign p op e) a := by
    rintro _ ⟨p', e', rfl, like⟩
    exact congrArg (Expr.sign .start op) like
  cases op with
  | not => exact (prefixed_reads notToken?_reads operand).mono (fun _ stops => stops) applied
  | neg =>
      have reads := prefixed_reads (signToken?_reads (.inl rfl)) operand
      exact reads.mono (fun _ stops => stops) applied
  | pos =>
      have reads := prefixed_reads (signToken?_reads (.inr rfl)) operand
      exact reads.mono (fun _ stops => stops) applied

theorem operation_reads {first operand : Reader Expr} {op? : Symbol → Option ArithOp}
    {op : ArithOp} {inner : Level}
    (before : Spine first (operation? op? operand) ks (Stops inner) fun a os =>
      Like left (os.foldl applyArith a))
    (behind : Reads operand ls (Stops inner) (Like right)) (known : op? op.symbol = some op)
    (follow : ∀ rest, Stops inner (symbol op.symbol :: rest)) :
    Spine first (operation? op? operand) (ks ++ symbol op.symbol :: ls) (Stops inner) fun a os =>
      Like (.arith p op left right) (os.foldl applyArith a) := by
  refine (before.snoc (by simp) (fun _ => follow _) (operation?_reads known behind)).mono ?_
  rintro a _ ⟨os, ⟨op', b⟩, rfl, like, rfl, like'⟩
  rw [List.foldl_append]
  simp only [Like, List.foldl_cons, List.foldl_nil, applyArith, Expr.erase] at like like' ⊢
  rw [like, like']

theorem at_arith {op : ArithOp} (before : At whole op.level ks left)
    (behind : At whole op.rightLevel ls right) :
    At whole op.level (ks ++ symbol op.symbol :: ls) (.arith p op left right) := by
  cases op with
  | add =>
      exact operation_reads before (At.product behind) rfl fun _ =>
        stops_of_following rfl (by decide)
  | sub =>
      exact operation_reads before (At.product behind) rfl fun _ =>
        stops_of_following rfl (by decide)
  | mul => exact operation_reads before behind rfl fun _ => stops_of_following rfl (by decide)
  | div => exact operation_reads before behind rfl fun _ => stops_of_following rfl (by decide)
  | mod => exact operation_reads before behind rfl fun _ => stops_of_following rfl (by decide)

theorem at_choice {condition ifTrue ifFalse : Expr} (first : At whole .disjunction ks condition)
    (second : Inner whole ifTrue.lexemes ifTrue) (third : Inner whole ifFalse.lexemes ifFalse) :
    At whole .choice
      (ks ++ symbol .question :: (ifTrue.lexemes ++ symbol .colon :: ifFalse.lexemes))
      (.choice p condition ifTrue ifFalse) := by
  refine .bind first (fun _ _ => stops_of_following rfl (by decide)) fun a like => ?_
  refine .cons (acceptSymbol_reads _) fun _ accepted => ?_
  rw [if_pos accepted]
  refine .bind second.reads (fun _ _ => nofun) fun b like' => ?_
  refine .cons .expect fun _ _ => .last third.reads fun c like'' => .pure ?_
  simp only [Like, Expr.erase] at like like' like'' ⊢
  rw [like, like', like'']

theorem joined_reads {part : Reader Expr} {separator : Reader Bool}
    {join : Expr → List Expr → Expr} (inner : Level) {outer : Level} {l : Lexeme} {es : List Expr}
    {chunk : Expr → List Lexeme}
    (each : ∀ e ∈ es, Reads part (chunk e) (Stops inner) (Like e)) (several : 2 ≤ es.length)
    (separates : Reads separator [l] (fun _ => True) (· = true))
    (follow : ∀ rest, Stops inner (l :: rest)) (le : outer.rank ≤ inner.rank)
    (halts : Halts (after? separator part) (Stops outer))
    (same : ∀ a as, as.map Expr.erase = es.map Expr.erase → Like e (join a as)) :
    Reads (joined part (after? separator part) join) (separated l (es.map chunk)) (Stops outer)
      (Like e) := by
  obtain ⟨x, y, more, rfl⟩ : ∃ x y more, es = x :: y :: more := by
    cases es with
    | nil => simp at several
    | cons x es =>
        cases es with
        | nil => simp at several
        | cons y more => exact ⟨x, y, more, rfl⟩
  rw [List.forall_mem_cons] at each
  have first : Spine part (after? separator part) _ _ _ := .of_reads each.1
  have rounds := first.rounds (fun e => l :: chunk e) Expr.erase Expr.erase (y :: more)
    (fun _ _ => by simp) (fun _ _ _ => follow _)
    (fun e mem => after?_reads separates (each.2 e mem))
  have parts : separated l ((x :: y :: more).map chunk) =
      chunk x ++ (y :: more).flatMap fun e => l :: chunk e := by
    rw [List.map_cons, separated, List.flatMap_map]
  rw [parts]
  refine Spine.reads rounds (fun _ stops => stops.mono le) halts ?_
  rintro a _ ⟨_, others, rfl, ⟨like, rfl⟩, viewed⟩
  rw [List.nil_append]
  cases others with
  | nil => cases viewed
  | cons b others =>
      refine .pure (same a (a :: b :: others) ?_)
      rw [List.map_cons, viewed, like, List.map_cons (l := y :: more)]

theorem at_concat {es : List Expr} (several : 2 ≤ es.length)
    (each : ∀ e ∈ es, At whole .sum (e.lexemesAt .sum) e) :
    At whole .concatenation (separated (symbol .tilde) (Expr.parts .sum es)) (.concat p es) := by
  rw [Expr.parts_eq_map]
  refine joined_reads .sum (fun e mem => At.sum (each e mem)) several
    (acceptSymbol_reads _) (fun _ => stops_of_following rfl (by decide)) (by decide)
    (after?_halts fun _ stops => acceptSymbol_halts stops rfl (Nat.le_refl _)) fun a as same => ?_
  simp only [Like, Expr.erase, Expr.eraseAll_eq_map, same]

theorem at_logic {op : LogicOp} {es : List Expr} (several : 2 ≤ es.length)
    (each : ∀ e ∈ es, At whole op.partLevel (e.lexemesAt op.partLevel) e) :
    At whole op.level (separated (word op.text) (Expr.parts op.partLevel es)) (.logic p op es) := by
  rw [Expr.parts_eq_map]
  cases op with
  | and =>
      refine joined_reads .negation each several (wordSeparator_reads _)
        (fun _ => stops_of_following rfl (by decide)) (by decide)
        (after?_halts fun _ stops => wordSeparator_other stops (fun _ => rfl) (Nat.le_refl _))
        fun a as same => ?_
      simp only [Like, Expr.erase, Expr.eraseAll_eq_map, same]
  | or =>
      refine joined_reads .conjunction each several (wordSeparator_reads _)
        (fun _ => stops_of_following rfl (by decide)) (by decide)
        (after?_halts fun _ stops => wordSeparator_other stops (fun _ => rfl) (Nat.le_refl _))
        fun a as same => ?_
      simp only [Like, Expr.erase, Expr.eraseAll_eq_map, same]

/-- A test closes the chain before it and is the first operand of the chain after it. -/
theorem joinLinks_test (n : String) (args : List Expr) (negated : Bool) (more : List Link)
    (first : Expr) (open_ : List (CompareOp × Expr)) (links : List Link) :
    joinLinks first open_ (links ++ .test n args negated :: more) =
      joinLinks (.test first.pos (joinLinks first open_ links) n args negated) [] more := by
  induction links generalizing first open_ with
  | nil => rfl
  | cons link links ih =>
      cases link with
      | compare op e => exact ih first ((op, e) :: open_)
      | test n' args' negated' => exact ih _ []

theorem joinLinks_compare (first : Expr) (open_ links : List (CompareOp × Expr)) :
    joinLinks first open_ (links.map fun x => .compare x.1 x.2) =
      closeChain first (open_.reverse ++ links) := by
  induction links generalizing open_ with
  | nil => simp [joinLinks]
  | cons link links ih =>
      refine (ih (link :: open_)).trans ?_
      rw [List.reverse_cons, List.append_assoc]
      rfl

theorem at_test {n : String} {args : List Expr} {negated : Bool}
    (value : At whole .comparison ks e) (free : n ≠ "not")
    (positional : ∀ e ∈ args, Inner whole e.lexemes e) :
    At whole .test (ks ++ word "is" :: ((if negated then [word "not"] else []) ++
      word n :: Expr.optionalArguments (Expr.parts .choice args))) (.test p e n args negated) := by
  refine (Spine.snoc value (by simp) (fun _ => stops_of_following rfl (by decide))
    (link?_test free positional fun _ stops => stops.mono (by decide))).mono ?_
  rintro a _ ⟨links, _, rfl, like, args', rfl, sameArgs⟩
  refine ⟨.test a.pos (joinLinks a [] links) n args' negated, ?_, fun more => ?_⟩
  · simp only [Like, Expr.erase, Expr.eraseAll_eq_map] at like ⊢
    rw [like, sameArgs]
  · rw [List.append_assoc]
    exact joinLinks_test n args' negated more a [] links

theorem stops_compareOp (op : CompareOp) (rest : List Lexeme) :
    Stops .concatenation (op.lexemes ++ rest) := by
  cases op <;>
    exact stops_of_following (show following _ = some .comparison from rfl) (by decide)

def Link.erase : Link → Link
  | .compare op e => .compare op e.erase
  | .test n args negated => .test n (Expr.eraseAll args) negated

theorem at_compare {links : List (CompareOp × Expr)} (first : At whole .test ks e)
    (linked : links ≠ [])
    (each : ∀ x ∈ links, At whole .concatenation (x.2.lexemesAt .concatenation) x.2) :
    At whole .comparison (ks ++ (Expr.linkParts links).flatten) (.compare p e links) := by
  rw [Expr.linkParts_eq_map, ← List.flatMap_def]
  have rounds := Spine.rounds Expr.linkLexemes Link.erase (fun x => (Link.compare x.1 x.2).erase)
    first links
    (fun x _ => by
      obtain ⟨op, e⟩ := x
      cases op <;> exact List.cons_ne_nil _ _)
    (fun x _ rest => by
      rw [Expr.linkLexemes, List.append_assoc]
      exact stops_compareOp x.1 _)
    (fun x mem => (link?_compare (each x mem)).mono (fun _ stops => stops) fun found given => by
      obtain ⟨l, rfl, a, rfl, like⟩ := given
      exact ⟨_, rfl, congrArg (Link.compare x.1) like⟩)
  refine rounds.mono ?_
  rintro a _ ⟨before, found, rfl, ⟨e', like, joined⟩, viewed⟩
  obtain ⟨ys, rfl, same⟩ := exists_eq_map (f := Link.erase)
    (c := fun x : CompareOp × Expr => Link.compare x.1 x.2) (fun x => (x.1, x.2.erase))
    (fun a x look => by
      cases a with
      | test n args negated => cases look
      | compare op e =>
          obtain ⟨rfl, value⟩ := Link.compare.inj look
          exact ⟨(x.1, e), rfl, Prod.ext rfl value⟩) (by
      rw [viewed, List.map_map]
      rfl)
  rw [joined, joinLinks_compare]
  cases ys with
  | nil =>
      rw [List.map_nil] at same
      exact absurd (List.map_eq_nil_iff.mp same.symm) linked
  | cons y ys =>
      simp only [Like, List.reverse_nil, List.nil_append, closeChain, Expr.erase,
        Expr.eraseLinks_eq_map] at like ⊢
      rw [like, same]

end Forms

end Grammar

end Stencil
