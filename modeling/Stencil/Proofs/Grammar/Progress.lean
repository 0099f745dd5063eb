import Stencil.Grammar.Stmt
import Stencil.Proofs.Step

namespace Stencil

/-- A fault that is not for want of rounds, at a known token or at the end of the source. -/
def GrammarFault.Placed (known : Token → Prop) (fault : GrammarFault) : Prop :=
  fault.cause ≠ .stuck ∧ ∀ t ∈ fault.token, known t

namespace Reader

variable {α β : Type}

def Consumes (r : Reader α) : Prop := ∀ ts a rest, r ts = .ok (a, rest) → rest <:+ ts

/-- How reading ends that began at `ts`, if a value takes at least so many tokens. -/
def Settled (known : Token → Prop) (least : α → Nat) (ts : List Token) :
    Except GrammarFault (α × List Token) → Prop
  | .ok (a, rest) => rest <:+ ts ∧ rest.length + least a ≤ ts.length
  | .error fault => fault.Placed known

abbrev SettlesAt (known : Token → Prop) (least : α → Nat) (r : Reader α) (ts : List Token) : Prop :=
  Settled known least ts (r ts)

/-- What a reader does where fewer than `bound` tokens are left. -/
def Settles (known : Token → Prop) (bound : Nat) (least : α → Nat) (r : Reader α) : Prop :=
  ∀ ts, (∀ t ∈ ts, known t) → ts.length < bound → SettlesAt known least r ts

def SettlesBefore (t : Token) (known : Token → Prop) (bound : Nat) (least : α → Nat)
    (r : Reader α) : Prop :=
  ∀ rest, (∀ other ∈ t :: rest, known other) → (t :: rest).length < bound →
    SettlesAt known least r (t :: rest)

section Rules

variable {known : Token → Prop} {bound : Nat} {least : α → Nat} {need : β → Nat} {t : Token}

theorem SettlesAt.bind {r : Reader α} {f : α → Reader β} {ts : List Token}
    (hr : SettlesAt known least r ts)
    (hf : ∀ a rest, rest <:+ ts → rest.length + least a ≤ ts.length →
      SettlesAt known (fun b => need b - least a) (f a) rest) :
    SettlesAt known need (r >>= f) ts := by
  change Settled known need ts (r ts >>= fun read => f read.1 read.2)
  change Settled known least ts (r ts) at hr
  generalize r ts = read at hr ⊢
  rcases read with fault | ⟨a, mid⟩
  · exact hr
  · obtain ⟨isEnd, taken⟩ := hr
    have next := hf a mid isEnd taken
    change Settled known need ts (f a mid)
    change Settled known _ mid (f a mid) at next
    generalize f a mid = read at next ⊢
    rcases read with fault | ⟨b, rest⟩
    · exact next
    · obtain ⟨isRest, further⟩ := next
      refine ⟨isRest.trans isEnd, ?_⟩
      dsimp only at further
      omega

theorem Settles.bind {r : Reader α} {f : α → Reader β} (hr : Settles known bound least r)
    (hf : ∀ a, Settles known (bound - least a) (fun b => need b - least a) (f a)) :
    Settles known bound need (r >>= f) := by
  intro ts all short
  apply (hr ts all short).bind
  intro a rest isRest taken
  exact hf a rest (fun t mem => all t (isRest.mem mem)) (by omega)

theorem Settles.mono {r : Reader α} {fewer : Nat} {less : α → Nat}
    (hr : Settles known bound least r) (short : fewer ≤ bound) (weaker : ∀ a, less a ≤ least a) :
    Settles known fewer less r := by
  intro ts all shorter
  have settled := hr ts all (by omega)
  change Settled known least ts (r ts) at settled
  change Settled known less ts (r ts)
  generalize r ts = read at settled ⊢
  rcases read with fault | ⟨a, rest⟩
  · exact settled
  · obtain ⟨isRest, taken⟩ := settled
    exact ⟨isRest, by have := weaker a; omega⟩

theorem Settles.pure {a : α} (nothing : least a = 0) :
    Settles known bound least (Pure.pure a) := by
  intro ts _ _
  exact ⟨List.suffix_refl ts, by rw [nothing]; exact Nat.le_refl _⟩

theorem Settles.fail {cause : GrammarCause} (moves : cause ≠ .stuck) :
    Settles known bound least (Reader.fail cause) := by
  intro ts all _
  exact ⟨moves, fun t atFront => all t (List.mem_of_mem_head? atFront)⟩

theorem Settles.failAt {cause : GrammarCause} (moves : cause ≠ .stuck) (isKnown : known t) :
    Settles known bound least (Reader.failAt t cause) := by
  intro ts _ _
  refine ⟨moves, ?_⟩
  rintro _ ⟨⟩
  exact isKnown

theorem Settles.skip : Settles known bound (fun _ => 0) Reader.skip := by
  intro ts _ _
  exact ⟨List.tail_suffix ts, by simp⟩

theorem Settles.weaken {r : Reader α} (hr : Settles known bound least r) {fewer : Nat}
    (short : fewer ≤ bound) : Settles known fewer (fun _ => 0) r :=
  hr.mono short fun a => Nat.zero_le (least a)

theorem Settles.before {r : Reader α} (hr : Settles known bound least r) :
    SettlesBefore t known bound least r := fun rest => hr (t :: rest)

theorem Settles.peek {f : Option Token → Reader β} (atEnd : Settles known bound need (f none))
    (ahead : ∀ t, known t → SettlesBefore t known bound need (f (some t))) :
    Settles known bound need (Reader.peek >>= f) := by
  intro ts all short
  cases ts with
  | nil => exact atEnd [] all short
  | cons t rest => exact ahead t (all t List.mem_cons_self) rest all short

theorem Settles.peekNext {f : Option Token → Reader β}
    (atEnd : Settles known bound need (f none))
    (ahead : ∀ next, known next → Settles known bound need (f (some next))) :
    Settles known bound need (Reader.peekNext >>= f) := by
  intro ts all short
  cases last : ts.tail.head? with
  | none =>
      change Settled known need ts (f ts.tail.head? ts)
      rw [last]
      exact atEnd ts all short
  | some next =>
      change Settled known need ts (f ts.tail.head? ts)
      rw [last]
      exact ahead next (all next (List.mem_of_mem_tail (List.mem_of_mem_head? last))) ts all short

theorem SettlesBefore.peekNext {f : Option Token → Reader β}
    (atEnd : SettlesBefore t known bound need (f none))
    (ahead : ∀ next, known next → SettlesBefore t known bound need (f (some next))) :
    SettlesBefore t known bound need (Reader.peekNext >>= f) := by
  intro rest all short
  cases rest with
  | nil => exact atEnd [] all short
  | cons next rest =>
      exact ahead next (all next (List.mem_cons_of_mem t List.mem_cons_self)) _ all short

theorem SettlesBefore.skip {f : Unit → Reader β}
    (next : Settles known (bound - 1) (fun b => need b - 1) (f ())) :
    SettlesBefore t known bound need (Reader.skip >>= f) := by
  intro rest all short
  have skipped : SettlesAt known (fun _ => 1) Reader.skip (t :: rest) :=
    ⟨List.suffix_cons t rest, Nat.le_refl _⟩
  apply skipped.bind
  intro _ more isMore taken
  exact next more (fun other mem => all other (isMore.mem mem)) (by omega)

theorem Settles.acceptWhere {p : Token → Bool} {f : Option Token → Reader β}
    (missed : Settles known bound need (f none))
    (taken : ∀ t, known t → Settles known (bound - 1) (fun b => need b - 1) (f (some t))) :
    Settles known bound need (Reader.acceptWhere p >>= f) := by
  intro ts all short
  cases ts with
  | nil => exact missed [] all short
  | cons t rest =>
      change Settled known need (t :: rest)
        ((fun read : Option Token × List Token => f read.1 read.2)
          (if p t = true then (some t, rest) else (none, t :: rest)))
      by_cases fits : p t = true
      · rw [if_pos fits]
        have isKnown := all t List.mem_cons_self
        exact SettlesBefore.skip (f := fun _ => f (some t)) (taken t isKnown) rest all short
      · rw [if_neg fits]
        exact missed (t :: rest) all short

theorem Settles.accept {kind : TokenKind} {f : Option Token → Reader β}
    (missed : Settles known bound need (f none))
    (taken : ∀ t, known t → Settles known (bound - 1) (fun b => need b - 1) (f (some t))) :
    Settles known bound need (Reader.accept kind >>= f) := .acceptWhere missed taken

theorem Settles.acceptWord {word : String} {f : Option Token → Reader β}
    (missed : Settles known bound need (f none))
    (taken : ∀ t, known t → Settles known (bound - 1) (fun b => need b - 1) (f (some t))) :
    Settles known bound need (Reader.acceptWord word >>= f) := .acceptWhere missed taken

theorem Settles.accepts (p : Token → Bool) :
    Settles known bound (fun found => found.isSome.toNat) (Reader.acceptWhere p) := by
  rw [← bind_pure (Reader.acceptWhere p)]
  exact .acceptWhere (.pure rfl) fun _ _ => .pure rfl

theorem Settles.acceptSymbol (s : Symbol) :
    Settles known bound Bool.toNat (Reader.acceptSymbol s) :=
  .accept (.pure rfl) fun _ _ => .pure rfl

theorem Settles.expect (kind : TokenKind) :
    Settles known bound (fun _ => 1) (Reader.expect kind) := by
  intro ts all short
  cases ts with
  | nil => exact ⟨nofun, nofun⟩
  | cons t rest =>
      change Settled known _ (t :: rest) (if t.kind = kind then _ else _)
      by_cases fits : t.kind = kind
      · rw [if_pos fits]
        exact ⟨List.suffix_cons t rest, Nat.le_refl _⟩
      · rw [if_neg fits]
        refine ⟨nofun, ?_⟩
        rintro _ ⟨⟩
        exact all t List.mem_cons_self

/-- As many rounds as there are tokens are enough, and one more for the round that ends reading. -/
theorem Settles.manyWithin {r : Reader (Option α)} {rounds : Nat}
    (hr : Settles known bound (fun found => found.isSome.toNat) r) (enough : bound ≤ rounds) :
    Settles known bound (fun _ => 0) (Reader.manyWithin rounds r) := by
  induction rounds generalizing bound with
  | zero =>
      intro ts _ short
      omega
  | succ rounds ih =>
      refine hr.bind fun found => ?_
      cases found with
      | none => exact .pure rfl
      | some a =>
          have more := ih (hr.mono (Nat.sub_le bound 1) fun _ => Nat.le_refl _) (by omega)
          exact more.bind fun _ => .pure rfl

theorem Settles.many {r : Reader (Option α)}
    (hr : Settles known bound (fun found => found.isSome.toNat) r) :
    Settles known bound (fun _ => 0) (Reader.many r) := by
  intro ts all short
  have here := hr.mono (show ts.length + 1 ≤ bound from short) fun _ => Nat.le_refl _
  exact here.manyWithin (Nat.le_refl _) ts all (Nat.lt_succ_self _)

/-- Every round but the last takes a comma, so the items themselves need not take a token. -/
theorem Settles.itemsWithin {close : Symbol} {item : List α → Reader α} {rounds : Nat}
    (hitem : ∀ previous, Settles known bound (fun _ => 0) (item previous))
    (enough : bound ≤ rounds) (previous : List α) :
    Settles known bound (fun _ => 0) (Reader.itemsWithin close item rounds previous) := by
  induction rounds generalizing bound previous with
  | zero =>
      intro ts _ short
      omega
  | succ rounds ih =>
      have more : Settles known bound (fun _ => 0)
          (Reader.itemsWithin.more close item rounds previous) := by
        rw [Reader.itemsWithin.more]
        refine (hitem previous).bind fun a => (Settles.acceptSymbol .comma).bind fun comma => ?_
        cases comma with
        | false => exact .pure rfl
        | true =>
            have shorter := fun previous =>
              (hitem previous).mono (Nat.sub_le bound 1) fun _ => Nat.le_refl _
            exact ih shorter (by omega) (a :: previous)
      rw [Reader.itemsWithin]
      refine .peek more fun t _ => ?_
      dsimp only
      split
      · exact (Settles.pure rfl).before
      · exact more.before

theorem Settles.items {close : Symbol} {item : List α → Reader α}
    (hitem : ∀ previous, Settles known bound (fun _ => 0) (item previous)) :
    Settles known bound (fun _ => 1) (Reader.items close item) := by
  have found : Settles known bound (fun _ => 0)
      fun ts => Reader.itemsWithin close item (ts.length + 1) [] ts := by
    intro ts all short
    have here := fun previous =>
      (hitem previous).mono (show ts.length + 1 ≤ bound from short) fun _ => Nat.le_refl _
    exact Settles.itemsWithin here (Nat.le_refl _) [] ts all (Nat.lt_succ_self _)
  exact found.bind fun _ => (Settles.expect _).bind fun _ => .pure rfl

end Rules

theorem Consumes.of_settles {r : Reader α} {least : α → Nat}
    (hr : ∀ bound, Settles (fun _ => True) bound least r) : Consumes r := by
  intro ts a rest read
  have settled := hr (ts.length + 1) ts (fun _ _ => trivial) (Nat.lt_succ_self _)
  rw [SettlesAt, read] at settled
  exact settled.1

end Reader

/-! If whole expressions settle where fewer than `n` tokens are left, their levels do so
with one token more: what stands inside brackets comes after the bracket. -/

namespace Grammar

open Reader

section Levels

variable {known : Token → Prop} {bound n : Nat} {whole : Reader Expr}

theorem wordBefore?_settles (s : Symbol) :
    Settles known bound (fun word => word.isSome.toNat) (wordBefore? s) := by
  refine .peek (.peekNext (.pure rfl) fun _ _ => .pure rfl) fun t _ => ?_
  refine .peekNext (Settles.pure rfl).before fun next _ => ?_
  dsimp only
  split
  · exact .skip (.pure rfl)
  · exact (Settles.pure rfl).before

theorem argument_settles (hwhole : Settles known n (fun _ => 1) whole)
    (previous : List Argument) : Settles known n (fun _ => 0) (argument whole previous) := by
  refine (wordBefore?_settles _).bind fun word => ?_
  cases word with
  | some word =>
      exact Settles.skip.bind fun _ => (hwhole.weaken (Nat.sub_le n 1)).bind fun _ => .pure rfl
  | none =>
      dsimp only
      split
      · exact .fail nofun
      · exact (hwhole.weaken (Nat.le_refl n)).bind fun _ => .pure rfl

theorem arguments_settles (hwhole : Settles known n (fun _ => 1) whole) :
    Settles known (n + 1) (fun _ => 1) (arguments whole) :=
  (Settles.expect _).bind fun _ =>
    (Settles.items (argument_settles hwhole)).bind fun _ => .pure rfl

theorem optionalArguments_settles (hwhole : Settles known n (fun _ => 1) whole) :
    Settles known (n + 1) (fun _ => 0) (optionalArguments whole) := by
  refine .peek (.pure rfl) fun t _ => ?_
  dsimp only
  split
  · exact ((arguments_settles hwhole).weaken (Nat.le_refl _)).before
  · exact (Settles.pure rfl).before

theorem entry_settles (hwhole : Settles known n (fun _ => 1) whole) :
    Settles known n (fun _ => 0) (entry whole) := by
  have value : ∀ {fewer : Nat}, fewer ≤ n → ∀ key : Expr, Settles known fewer (fun _ => 0)
      (expect (.symbol .colon) >>= fun _ => whole >>= fun v => pure (key, v)) := by
    intro fewer short key
    refine (Settles.expect _).bind fun _ => ?_
    exact (hwhole.weaken (Nat.le_trans (Nat.sub_le fewer 1) short)).bind fun _ => .pure rfl
  refine (wordBefore?_settles _).bind fun word => ?_
  cases word with
  | some word =>
      have key : Settles known (n - 1) (fun _ => 0)
          (pure (Expr.const word.pos (.string word.text))) := .pure rfl
      exact key.bind (value (Nat.sub_le n 1))
  | none => exact (hwhole.weaken (Nat.le_refl n)).bind (value (Nat.le_refl n))

theorem operand_settles (hwhole : Settles known n (fun _ => 1) whole) :
    Settles known (n + 1) (fun _ => 1) (operand whole) := by
  have inner := hwhole.weaken (Nat.le_refl n)
  refine .peek (.fail nofun) fun t _ => ?_
  dsimp only
  split
  · exact .skip (.pure rfl)
  · exact .skip (.pure rfl)
  · exact .skip (.pure rfl)
  · refine .skip ?_
    split
    · exact .pure rfl
    · exact .pure rfl
  · exact .skip (inner.bind fun _ => (Settles.expect _).bind fun _ => .pure rfl)
  · exact .skip ((Settles.items fun _ => inner).bind fun _ => .pure rfl)
  · exact .skip ((Settles.items fun _ => entry_settles hwhole).bind fun _ => .pure rfl)
  · exact Settles.before (.fail nofun)

theorem member_settles : Settles known bound (fun _ => 0) member := by
  refine .peek (.fail nofun) fun t _ => ?_
  dsimp only
  split
  · exact .skip (.pure rfl)
  · split
    · exact .skip (.pure rfl)
    · exact Settles.before (.fail nofun)

theorem suffix?_settles (hwhole : Settles known n (fun _ => 1) whole) :
    Settles known (n + 1) (fun found => found.isSome.toNat) (suffix? whole) := by
  refine .peek (.pure rfl) fun t _ => ?_
  dsimp only
  split
  · exact .skip (member_settles.bind fun _ => .pure rfl)
  · exact .skip (hwhole.bind fun _ => (Settles.expect _).bind fun _ => .pure rfl)
  · exact ((arguments_settles hwhole).bind fun _ => .pure rfl).before
  · exact (Settles.pure rfl).before

theorem leftward_settles {τ : Type} {first : Reader Expr} {next? : Reader (Option τ)}
    {apply : Expr → τ → Expr} (hfirst : Settles known bound (fun _ => 1) first)
    (hnext : Settles known bound (fun found => found.isSome.toNat) next?) :
    Settles known bound (fun _ => 1) (leftward first next? apply) := by
  have further := hnext.many.weaken (Nat.sub_le bound 1)
  exact hfirst.bind fun _ => further.bind fun _ => .pure rfl

theorem application?_settles (hwhole : Settles known n (fun _ => 1) whole) :
    Settles known (n + 1) (fun found => found.isSome.toNat) (application? whole) := by
  refine (Settles.acceptSymbol _).bind fun piped => ?_
  cases piped with
  | false => exact .pure rfl
  | true =>
      refine .accept (.fail nofun) fun t _ => ?_
      have given := (optionalArguments_settles hwhole).weaken (show n - 1 ≤ n + 1 by omega)
      exact given.bind fun _ => .pure rfl

theorem filtered_settles (hwhole : Settles known n (fun _ => 1) whole) :
    Settles known (n + 1) (fun _ => 1) (filtered whole) :=
  leftward_settles (leftward_settles (operand_settles hwhole) (suffix?_settles hwhole))
    (application?_settles hwhole)

theorem ranged_settles (hwhole : Settles known n (fun _ => 1) whole) :
    Settles known (n + 1) (fun _ => 1) (ranged whole) := by
  have last := (filtered_settles hwhole).weaken (show n - 1 ≤ n + 1 by omega)
  refine (filtered_settles hwhole).bind fun first => (Settles.acceptSymbol _).bind fun isRange => ?_
  cases isRange with
  | false => exact .pure rfl
  | true => exact last.bind fun _ => .pure rfl

theorem signToken?_settles :
    Settles known bound (fun sign => sign.isSome.toNat) signToken? := by
  refine .peek (.pure rfl) fun t _ => ?_
  dsimp only
  split
  · exact .skip (.pure rfl)
  · exact .skip (.pure rfl)
  · exact (Settles.pure rfl).before

theorem prefixed_settles {sign? : Reader (Option (Pos × SignOp))} {operand : Reader Expr}
    (hsign : Settles known bound (fun sign => sign.isSome.toNat) sign?)
    (hoperand : Settles known bound (fun _ => 1) operand) :
    Settles known bound (fun _ => 1) (prefixed sign? operand) :=
  hsign.many.bind fun _ => hoperand.bind fun _ => .pure rfl

theorem operation?_settles {op? : Symbol → Option ArithOp} {operand : Reader Expr}
    (hoperand : Settles known bound (fun _ => 1) operand) :
    Settles known bound (fun found => found.isSome.toNat) (operation? op? operand) := by
  refine .peek (.pure rfl) fun t _ => ?_
  dsimp only
  split
  · split
    · exact .skip ((hoperand.weaken (Nat.sub_le bound 1)).bind fun _ => .pure rfl)
    · exact (Settles.pure rfl).before
  · exact (Settles.pure rfl).before

theorem sum_settles (hwhole : Settles known n (fun _ => 1) whole) :
    Settles known (n + 1) (fun _ => 1) (sum whole) := by
  have hsigned : Settles known (n + 1) (fun _ => 1) (signed whole) :=
    prefixed_settles signToken?_settles (ranged_settles hwhole)
  have hproduct : Settles known (n + 1) (fun _ => 1) (product whole) :=
    leftward_settles hsigned (operation?_settles hsigned)
  exact leftward_settles hproduct (operation?_settles hproduct)

theorem joined_settles {part : Reader Expr} {separator : Reader Bool}
    {join : Expr → List Expr → Expr} (hpart : Settles known bound (fun _ => 1) part)
    (hseparator : Settles known bound Bool.toNat separator) :
    Settles known bound (fun _ => 1) (joined part (after? separator part) join) := by
  have hafter : Settles known bound (fun found => found.isSome.toNat)
      (after? separator part) := by
    refine hseparator.bind fun found => ?_
    cases found with
    | false => exact .pure rfl
    | true => exact (hpart.weaken (Nat.sub_le bound 1)).bind fun _ => .pure rfl
  refine hpart.bind fun first => (hafter.many.weaken (Nat.sub_le bound 1)).bind fun rest => ?_
  split
  · exact .pure rfl
  · exact .pure rfl

theorem concatenated_settles (hwhole : Settles known n (fun _ => 1) whole) :
    Settles known (n + 1) (fun _ => 1) (concatenated whole) :=
  joined_settles (sum_settles hwhole) (.acceptSymbol _)

/-- What follows `is`, and `not` if that stands there. -/
def testNamed (whole : Reader Expr) (negated : Bool) : Reader Link :=
  accept .name >>= fun word => match word with
    | none => fail .expectedTestName
    | some t => optionalArguments whole >>= fun given =>
        if given.2.isEmpty then pure (.test t.text given.1 negated) else fail .testKeyword

theorem testNamed_settles {fewer : Nat} (hwhole : Settles known n (fun _ => 1) whole)
    (short : fewer ≤ n) (negated : Bool) :
    Settles known fewer (fun _ => 0) (testNamed whole negated) := by
  refine .accept (.fail nofun) fun t _ => ?_
  refine ((optionalArguments_settles hwhole).weaken (by omega)).bind fun given => ?_
  split
  · exact .pure rfl
  · exact .fail nofun

theorem testLink_settles (hwhole : Settles known n (fun _ => 1) whole) :
    Settles known n (fun _ => 0) (testLink whole) :=
  .acceptWord (testNamed_settles hwhole (Nat.le_refl n) false) fun _ _ =>
    testNamed_settles hwhole (Nat.sub_le n 1) true

def linkAt (whole : Reader Expr) (t : Token) (next : Option Token) : Reader (Option Link) :=
  match comparison? t next with
  | some (count, op) => do
      skip
      if count = 2 then skip
      return some (.compare op (← concatenated whole))
  | none =>
      if isWord ["is"] t then do
        skip
        return some (← testLink whole)
      else return none

theorem linkAt_settles (hwhole : Settles known n (fun _ => 1) whole) (t : Token)
    (next : Option Token) :
    SettlesBefore t known (n + 1) (fun found => found.isSome.toNat) (linkAt whole t next) := by
  have operand := (concatenated_settles hwhole).weaken (Nat.le_succ n)
  unfold linkAt
  split
  · refine .skip ?_
    split
    · exact Settles.skip.bind fun _ => operand.bind fun _ => .pure rfl
    · exact operand.bind fun _ => .pure rfl
  · split
    · exact .skip ((testLink_settles hwhole).bind fun _ => .pure rfl)
    · exact (Settles.pure rfl).before

theorem link?_settles (hwhole : Settles known n (fun _ => 1) whole) :
    Settles known (n + 1) (fun found => found.isSome.toNat) (link? whole) := by
  refine .peek (.pure rfl) fun t _ => ?_
  exact .peekNext (linkAt_settles hwhole t none) fun next _ => linkAt_settles hwhole t (some next)

theorem wordSeparator_settles (word : String) :
    Settles known bound Bool.toNat (wordSeparator word) :=
  .acceptWord (.pure rfl) fun _ _ => .pure rfl

theorem choice_settles (hwhole : Settles known n (fun _ => 1) whole) :
    Settles known (n + 1) (fun _ => 1) (choice whole) := by
  have hcompared : Settles known (n + 1) (fun _ => 1) (compared whole) := by
    have further := (link?_settles hwhole).many.weaken (Nat.le_succ n)
    exact (concatenated_settles hwhole).bind fun _ => further.bind fun _ => .pure rfl
  have hnot : Settles known (n + 1) (fun sign => sign.isSome.toNat) notToken? :=
    .acceptWord (.pure rfl) fun _ _ => .pure rfl
  have hconjunction : Settles known (n + 1) (fun _ => 1) (conjunction whole) :=
    joined_settles (prefixed_settles hnot hcompared) (wordSeparator_settles _)
  have hdisjunction : Settles known (n + 1) (fun _ => 1) (disjunction whole) :=
    joined_settles hconjunction (wordSeparator_settles _)
  refine hdisjunction.bind fun condition => (Settles.acceptSymbol _).bind fun asked => ?_
  cases asked with
  | false => exact .pure rfl
  | true =>
      refine (hwhole.weaken (Nat.sub_le n 1)).bind fun _ => ?_
      refine (Settles.expect _).bind fun _ => ?_
      exact (hwhole.weaken (show n - 1 - 1 ≤ n by omega)).bind fun _ => .pure rfl

end Levels

section Whole

variable {known : Token → Prop} {bound : Nat}

theorem exprWithin_settles (depth : Nat) :
    Settles known depth (fun _ => 1) (exprWithin depth) := by
  induction depth with
  | zero => exact fun ts _ short => absurd short (Nat.not_lt_zero _)
  | succ depth ih => exact choice_settles ih

theorem expr_settles : Settles known bound (fun _ => 1) expr :=
  fun ts all _ => exprWithin_settles (ts.length + 1) ts all (Nat.lt_succ_self _)

end Whole

/-! Readers of statements. -/

section Statements

variable {known : Token → Prop} {bound : Nat}

theorem atKeyword_settles (keywords : List String) :
    Settles known bound (fun _ => 0) (atKeyword keywords) := by
  refine .peek (.peekNext (.pure rfl) fun _ _ => .pure rfl) fun t _ => Settles.before ?_
  exact .peekNext (.pure rfl) fun _ _ => .pure rfl

theorem skipKeyword_settles : Settles known bound (fun _ => 0) skipKeyword :=
  Settles.skip.bind fun _ => .skip

theorem expectClosing_settles : Settles known bound (fun _ => 0) expectClosing :=
  ((Settles.expect _).weaken (Nat.le_refl bound)).bind fun _ => .pure rfl

theorem endTag_settles (kind : BlockKind) (line : Nat) :
    Settles known bound (fun _ => 0) (endTag kind line) := by
  refine .peek (.fail nofun) fun t _ => Settles.before ?_
  refine (atKeyword_settles _).bind fun found => ?_
  split
  · refine skipKeyword_settles.bind fun _ => ?_
    split
    · exact .accept expectClosing_settles fun _ _ => expectClosing_settles
    · exact expectClosing_settles
  · exact .peekNext (.fail nofun) fun keyword isKnown => .failAt nofun isKnown

theorem loopTarget_settles : Settles known bound (fun _ => 0) loopTarget := by
  have further : Settles known bound (fun found => found.isSome.toNat)
      (acceptSymbol .comma >>= fun found =>
        if found = true then expect .name >>= fun t => pure (some t) else pure none) := by
    refine (Settles.acceptSymbol _).bind fun found => ?_
    cases found with
    | false => exact .pure rfl
    | true => exact (Settles.expect _).bind fun _ => .pure rfl
  have rest := further.many.weaken (Nat.sub_le bound 1)
  refine (Settles.expect _).bind fun first => rest.bind fun rest => ?_
  split
  · exact .pure rfl
  · exact .pure rfl
  · exact .fail nofun

theorem output_settles {start : Token} (isKnown : known start) (d : Delimiter) (escape : Bool) :
    Settles known bound (fun _ => 0) (output start d escape) := by
  have more : Settles known bound (fun _ => 0) (output.more start d escape) :=
    expr_settles.bind fun _ => (Settles.expect _).bind fun _ => .pure rfl
  refine .peek more fun t _ => Settles.before ?_
  dsimp only
  split
  · exact .failAt nofun isKnown
  · exact more

theorem templateName_settles (keyword : String) :
    Settles known bound (fun _ => 0) (templateName keyword) := by
  refine .accept (.fail nofun) fun t isKnown => ?_
  dsimp only
  split
  · exact .failAt nofun isKnown
  · exact expectClosing_settles.bind fun _ => .pure rfl

theorem escapeMode_settles : Settles known bound (fun _ => 0) escapeMode := by
  refine .acceptWhere (.pure rfl) fun t isKnown => ?_
  dsimp only
  split
  · exact .pure rfl
  · exact .failAt nofun isKnown

theorem setStatement_settles (keyword : Token) :
    Settles known bound (fun _ => 0) (setStatement keyword) :=
  (Settles.expect _).bind fun _ => (Settles.expect _).bind fun _ => expr_settles.bind fun _ =>
    expectClosing_settles.bind fun _ => .pure rfl

theorem debugStatement_settles (keyword : Token) :
    Settles known bound (fun _ => 0) (debugStatement keyword) :=
  .accept (expr_settles.bind fun _ => expectClosing_settles.bind fun _ => .pure rfl)
    fun _ _ => .pure rfl

end Statements

end Grammar

end Stencil
