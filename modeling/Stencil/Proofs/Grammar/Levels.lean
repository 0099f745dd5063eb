import Stencil.Grammar.Expr
import Stencil.Proofs.Grammar.Printer
import Stencil.Proofs.Grammar.Reading

namespace Stencil

open Lexeme

/-! The lexemes that continue an expression, and at which level. -/

def Symbol.level? : Symbol → Option Level
  | .question => some .choice
  | .eq | .ne | .lt | .gt | .le | .ge => some .comparison
  | .tilde => some .concatenation
  | .add | .sub => some .sum
  | .mul | .div | .mod => some .product
  | .range => some .range
  | .pipe => some .filter
  | .dot | .lbracket | .lparen => some .access
  | _ => none

namespace Lexeme

def wordLevel? (text : String) (next : Option Lexeme) : Option Level :=
  if text = "or" then some .disjunction
  else if text = "and" then some .conjunction
  else if text = "in" ∨ text = "is" then some .comparison
  else if text = "not" ∧ next = some (word "in") then some .comparison
  else if (text = "starts" ∨ text = "ends") ∧ next = some (word "with") then some .comparison
  else none

/-- The level at which the lexemes go on with an expression before them. -/
def following : List Lexeme → Option Level
  | (.symbol s, _) :: _ => s.level?
  | (.name, text) :: rest => wordLevel? text rest.head?
  | _ => none

def Stops (level : Level) (ls : List Lexeme) : Prop :=
  ∀ found, following ls = some found → found.rank < level.rank

theorem Stops.mono {inner outer : Level} {ls : List Lexeme} (stops : Stops outer ls)
    (le : outer.rank ≤ inner.rank) : Stops inner ls :=
  fun found equation => Nat.lt_of_lt_of_le (stops found equation) le

/-- The level of what a lexeme can begin: a sign, a negation, or an operand. -/
def opening? : Lexeme → Option Level
  | (.symbol s, _) =>
      match s with
      | .add | .sub => some .sign
      | .lparen | .lbracket | .lbrace => some .operand
      | _ => none
  | (.name, text) => if text = "not" then some .negation else some .operand
  | (.string, _) | (.integer, _) | (.decimal, _) => some .operand
  | _ => none

/-- Lexemes that can begin an expression of a level. After a word, neither of the two symbols that
make a name of it comes. -/
structure Begins (level : Level) (ls : List Lexeme) : Prop where
  opens : ∃ l more found, ls = l :: more ∧ opening? l = some found ∧ level.rank ≤ found.rank
  second : ∀ text l more, ls = (.name, text) :: l :: more →
    l.1 ≠ .symbol .assign ∧ l.1 ≠ .symbol .colon

theorem Begins.mono {inner outer : Level} {ls : List Lexeme} (begins : Begins inner ls)
    (le : outer.rank ≤ inner.rank) : Begins outer ls where
  opens := by
    obtain ⟨l, more, found, written, opening, tight⟩ := begins.opens
    exact ⟨l, more, found, written, opening, Nat.le_trans le tight⟩
  second := begins.second

def Ends (ls : List Lexeme) : Prop :=
  ∃ s more, ls = symbol s :: more ∧ (s = .comma ∨ s = .rparen ∨ s = .rbracket ∨ s = .rbrace)

theorem Ends.stops {ls : List Lexeme} (ends : Ends ls) (level : Level) : Stops level ls := by
  obtain ⟨s, more, rfl, rfl | rfl | rfl | rfl⟩ := ends <;> exact nofun

end Lexeme

namespace Grammar

open Reader

variable {whole : Reader Expr} {Follow : List Lexeme → Prop}

theorem ne_symbol_of_stops {level found : Level} {t : Token} {rest : List Token} {s : Symbol}
    (stops : Stops level (lexemes (t :: rest))) (continues : s.level? = some found)
    (le : level.rank ≤ found.rank) : t.kind ≠ .symbol s := by
  obtain ⟨kind, text, pos⟩ := t
  rintro rfl
  exact absurd (stops found continues) (Nat.not_lt.mpr le)

/-- An expression that differs from `e` at most in its places. -/
def Like (e a : Expr) : Prop := a.erase = e.erase

theorem acceptSymbol_reads (s : Symbol) : Reads (acceptSymbol s) [symbol s] Follow (· = true) := by
  refine .cons .accept fun found here => .pure ?_
  obtain ⟨t, rfl, _⟩ := here
  rfl

theorem acceptSymbol_other {s : Symbol} {ts : List Token}
    (other : ∀ t, ts.head? = some t → t.kind ≠ .symbol s) :
    acceptSymbol s ts = .ok (false, ts) := by
  cases ts with
  | nil => rfl
  | cons t ts =>
      have different := other t rfl
      have missed : accept (.symbol s) (t :: ts) = .ok (none, t :: ts) := by
        simp [accept, acceptWhere, different]
      exact bind_ok missed

section Items

variable {α γ ι : Type} {close : Symbol} {item : List α → Reader α} {chunk : ι → List Lexeme}
variable {view : α → γ} {out : ι → γ}

theorem itemsWithin_close {rounds : Nat} {previous : List α} {c : Token} {rest : List Token}
    (closing : c.kind = .symbol close) :
    itemsWithin close item (rounds + 1) previous (c :: rest) =
      .ok (previous.reverse, c :: rest) := by
  rw [itemsWithin]
  refine (bind_ok (r := peek) rfl).trans ?_
  simp only [List.head?_cons, closing, if_true]
  rfl

theorem itemsWithin_more {rounds : Nat} {previous : List α} {t : Token} {ts : List Token}
    (different : t.kind ≠ .symbol close) :
    itemsWithin close item (rounds + 1) previous (t :: ts) =
      itemsWithin.more close item rounds previous (t :: ts) := by
  rw [itemsWithin]
  refine (bind_ok (r := peek) rfl).trans ?_
  simp only [List.head?_cons, different, if_false]

/-- Items before a closing symbol are read in turn. The invariant: what was read so far, the
nearest first, looks like the items before those that are left. -/
theorem itemsWithin_reads (ending : close = .rparen ∨ close = .rbracket ∨ close = .rbrace)
    {xs : List ι} (starts : ∀ x ∈ xs, ∃ l more, chunk x = l :: more ∧ l.1 ≠ .symbol close)
    (each : ∀ before x behind, xs = before ++ x :: behind → ∀ previous : List α,
      previous.map view = (before.map out).reverse →
        Reads (item previous) (chunk x) Ends fun a => view a = out x)
    {c : Token} (closing : c.lexeme = symbol close) (rest : List Token) (behind before : List ι)
    (split : xs = before ++ behind) {ts : List Token}
    (written : lexemes ts = separated (symbol .comma) (behind.map chunk)) {rounds : Nat}
    (enough : ts.length < rounds) (previous : List α)
    (viewed : previous.map view = (before.map out).reverse) :
    ∃ as, itemsWithin close item rounds previous (ts ++ c :: rest) = .ok (as, c :: rest) ∧
      as.map view = xs.map out := by
  have kind : c.kind = .symbol close := congrArg Prod.fst closing
  induction behind generalizing before ts rounds previous with
  | nil =>
      obtain ⟨rounds, rfl⟩ := Nat.exists_eq_succ_of_ne_zero (Nat.ne_zero_of_lt enough)
      cases List.map_eq_nil_iff.mp written
      refine ⟨previous.reverse, itemsWithin_close kind, ?_⟩
      rw [List.map_reverse, viewed, List.reverse_reverse, split, List.append_nil]
  | cons x behind ih =>
      obtain ⟨rounds, rfl⟩ := Nat.exists_eq_succ_of_ne_zero (Nat.ne_zero_of_lt enough)
      have mem : x ∈ xs := by simp [split]
      obtain ⟨ts₁, ts₂, rfl, first, others⟩ := List.map_eq_append_iff.mp written
      have more : itemsWithin close item (rounds + 1) previous (ts₁ ++ ts₂ ++ c :: rest) =
          itemsWithin.more close item rounds previous (ts₁ ++ (ts₂ ++ c :: rest)) := by
        obtain ⟨l, more, chunked, different⟩ := starts x mem
        rw [chunked] at first
        obtain ⟨t, ts₁, rfl, rfl, _⟩ := List.map_eq_cons_iff.mp first
        rw [List.append_assoc]
        exact itemsWithin_more different
      have ends : Ends (lexemes (ts₂ ++ c :: rest)) := by
        rw [lexemes, List.map_append, others, List.map_cons, closing]
        cases behind with
        | nil => exact ⟨close, _, rfl, .inr ending⟩
        | cons y behind => exact ⟨.comma, _, rfl, .inl rfl⟩
      obtain ⟨a, read, same⟩ :=
        each before x behind split previous viewed ts₁ (ts₂ ++ c :: rest) first ends
      have viewed' : (a :: previous).map view = ((before ++ [x]).map out).reverse := by
        simp [same, viewed]
      rw [more, itemsWithin.more, bind_ok read]
      cases behind with
      | nil =>
          cases List.map_eq_nil_iff.mp others
          have last : acceptSymbol .comma (c :: rest) = .ok (false, c :: rest) := by
            refine acceptSymbol_other fun t head => ?_
            cases head
            rw [kind]
            rcases ending with rfl | rfl | rfl <;> decide
          refine ⟨(a :: previous).reverse, bind_ok last, ?_⟩
          rw [List.map_reverse, viewed', List.reverse_reverse, split]
      | cons y behind =>
          obtain ⟨t, ts₃, rfl, comma, written⟩ := List.map_eq_cons_iff.mp others
          have accepted : acceptSymbol .comma (t :: (ts₃ ++ c :: rest)) =
              .ok (true, ts₃ ++ c :: rest) := by
            have separator : Reads (acceptSymbol .comma) [symbol .comma] (fun _ => True)
                (· = true) := acceptSymbol_reads .comma
            obtain ⟨_, accepted, rfl⟩ := separator [t] _ (congrArg ([·]) comma) trivial
            exact accepted
          simp only [List.length_append, List.length_cons] at enough
          have fewer : ts₃.length < rounds := by omega
          obtain ⟨as, others, result⟩ :=
            ih (before ++ [x]) (by simp [split]) written fewer (a :: previous) viewed'
          exact ⟨as, (bind_ok accepted).trans others, result⟩

/-- Items up to a closing symbol: each is read where a comma or the closing symbol follows it. -/
theorem items_reads (view : α → γ) (out : ι → γ)
    (ending : close = .rparen ∨ close = .rbracket ∨ close = .rbrace) (xs : List ι)
    (starts : ∀ x ∈ xs, ∃ l more, chunk x = l :: more ∧ l.1 ≠ .symbol close)
    (each : ∀ before x behind, xs = before ++ x :: behind → ∀ previous : List α,
      previous.map view = (before.map out).reverse →
        Reads (item previous) (chunk x) Ends fun a => view a = out x) :
    Reads (items close item) (separated (symbol .comma) (xs.map chunk) ++ [symbol close]) Follow
      fun as => as.map view = xs.map out := by
  intro ts rest written _
  obtain ⟨ts₁, ts₂, rfl, inner, last⟩ := List.map_eq_append_iff.mp written
  obtain ⟨c, ts₂, rfl, closing, last⟩ := List.map_eq_cons_iff.mp last
  cases List.map_eq_nil_iff.mp last
  have kind : c.kind = .symbol close := congrArg Prod.fst closing
  have enough : ts₁.length < (ts₁ ++ c :: rest).length + 1 := by
    rw [List.length_append]
    omega
  obtain ⟨as, read, result⟩ :=
    itemsWithin_reads ending starts each closing rest xs [] rfl inner enough [] rfl
  have closed : expect (.symbol close) (c :: rest) = .ok (c, rest) := by simp [expect, kind]
  refine ⟨as, ?_, result⟩
  rw [List.append_assoc, List.cons_append, List.nil_append, items]
  refine (bind_ok (r := fun ts => itemsWithin close item (ts.length + 1) [] ts) read).trans ?_
  exact bind_ok closed

end Items

end Grammar

end Stencil
