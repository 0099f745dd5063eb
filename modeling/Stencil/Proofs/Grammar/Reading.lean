import Stencil.Grammar.Reader
import Stencil.Proofs.Token.Lexeme

namespace Stencil

namespace Reader

variable {α β γ ι : Type}

abbrev lexemes (ts : List Token) : List Lexeme := ts.map Token.lexeme

def Reads (r : Reader α) (ks : List Lexeme) (Follow : List Lexeme → Prop) (P : α → Prop) : Prop :=
  ∀ ts rest, lexemes ts = ks → Follow (lexemes rest) → ∃ a, r (ts ++ rest) = .ok (a, rest) ∧ P a

theorem bind_ok {r : Reader α} {f : α → Reader β} {ts rest : List Token} {a : α}
    (first : r ts = .ok (a, rest)) : (r >>= f) ts = f a rest := by
  change (r ts >>= fun x => f x.1 x.2) = f a rest
  rw [first]
  rfl

namespace Reads

variable {Follow Follow' : List Lexeme → Prop} {P Q : α → Prop}

theorem pure {a : α} (holds : P a) : Reads (Pure.pure a) [] Follow P := by
  intro ts rest written _
  cases List.map_eq_nil_iff.mp written
  exact ⟨a, rfl, holds⟩

theorem bind {r : Reader α} {f : α → Reader β} {ks ls : List Lexeme} {R : β → Prop}
    (first : Reads r ks Follow P) (follow : ∀ rest, Follow' rest → Follow (ls ++ rest))
    (second : ∀ a, P a → Reads (f a) ls Follow' R) : Reads (r >>= f) (ks ++ ls) Follow' R := by
  intro ts rest written after
  obtain ⟨ts₁, ts₂, rfl, written₁, written₂⟩ := List.map_eq_append_iff.mp written
  have between : Follow (lexemes (ts₂ ++ rest)) := by
    rw [lexemes, List.map_append, written₂]
    exact follow _ after
  obtain ⟨a, read₁, holds⟩ := first ts₁ (ts₂ ++ rest) written₁ between
  obtain ⟨b, read₂, result⟩ := second a holds ts₂ rest written₂ after
  refine ⟨b, ?_, result⟩
  rw [List.append_assoc, bind_ok read₁, read₂]

theorem cons {r : Reader α} {f : α → Reader β} {l : Lexeme} {ls : List Lexeme} {R : β → Prop}
    (first : Reads r [l] (fun _ => True) P) (second : ∀ a, P a → Reads (f a) ls Follow R) :
    Reads (r >>= f) (l :: ls) Follow R :=
  bind first (fun _ _ => trivial) second

theorem last {r : Reader α} {f : α → Reader β} {ks : List Lexeme} {R : β → Prop}
    (first : Reads r ks Follow P) (second : ∀ a, P a → Reads (f a) [] Follow R) :
    Reads (r >>= f) ks Follow R := by
  rw [← List.append_nil ks]
  exact bind first (fun _ after => after) second

theorem mono {r : Reader α} {ks : List Lexeme} (reads : Reads r ks Follow P)
    (follow : ∀ rest, Follow' rest → Follow rest) (weaker : ∀ a, P a → Q a) :
    Reads r ks Follow' Q := by
  intro ts rest written after
  obtain ⟨a, read, holds⟩ := reads ts rest written (follow _ after)
  exact ⟨a, read, weaker a holds⟩

/-- A reader that looks at the current token first. -/
theorem peek {f : Option Token → Reader α} {l : Lexeme} {ls : List Lexeme}
    (reads : ∀ t : Token, t.lexeme = l → Reads (f (some t)) (l :: ls) Follow P) :
    Reads (Reader.peek >>= f) (l :: ls) Follow P := by
  intro ts rest written after
  obtain ⟨t, ts, rfl, first, _⟩ := List.map_eq_cons_iff.mp written
  exact reads t first _ rest written after

theorem skip {l : Lexeme} : Reads Reader.skip [l] Follow (fun _ => True) := by
  intro ts rest written _
  obtain ⟨t, ts, rfl, _, written⟩ := List.map_eq_cons_iff.mp written
  cases List.map_eq_nil_iff.mp written
  exact ⟨(), rfl, trivial⟩

theorem acceptWhere {p : Token → Bool} {l : Lexeme}
    (fits : ∀ t : Token, t.lexeme = l → p t = true) :
    Reads (Reader.acceptWhere p) [l] Follow (fun a => ∃ t, a = some t ∧ t.lexeme = l) := by
  intro ts rest written _
  obtain ⟨t, ts, rfl, first, written⟩ := List.map_eq_cons_iff.mp written
  cases List.map_eq_nil_iff.mp written
  refine ⟨some t, ?_, t, rfl, first⟩
  simp [Reader.acceptWhere, fits t first]

theorem missed {p : Token → Bool} {f : Option Token → Reader α} {l : Lexeme} {ls : List Lexeme}
    (other : ∀ t : Token, t.lexeme = l → p t = false) (reads : Reads (f none) (l :: ls) Follow P) :
    Reads (Reader.acceptWhere p >>= f) (l :: ls) Follow P := by
  intro ts rest written after
  obtain ⟨a, read, holds⟩ := reads ts rest written after
  obtain ⟨t, ts, rfl, first, _⟩ := List.map_eq_cons_iff.mp written
  have none : Reader.acceptWhere p (t :: (ts ++ rest)) = .ok (none, t :: (ts ++ rest)) := by
    simp [Reader.acceptWhere, other t first]
  exact ⟨a, (bind_ok none).trans read, holds⟩

theorem accept {kind : TokenKind} {text : String} :
    Reads (Reader.accept kind) [(kind, text)] Follow
      (fun a => ∃ t, a = some t ∧ t.lexeme = (kind, text)) :=
  acceptWhere fun t first => by
    have same : t.kind = kind := congrArg Prod.fst first
    simp [same]

theorem expect {kind : TokenKind} {text : String} :
    Reads (Reader.expect kind) [(kind, text)] Follow (fun t => t.lexeme = (kind, text)) := by
  intro ts rest written _
  obtain ⟨t, ts, rfl, first, written⟩ := List.map_eq_cons_iff.mp written
  cases List.map_eq_nil_iff.mp written
  refine ⟨t, ?_, first⟩
  have same : t.kind = kind := congrArg Prod.fst first
  simp [Reader.expect, same]

end Reads

/-! Repetitions. -/

/-- The rounds of a repetition: each gives something and leaves fewer tokens. -/
inductive Repeats (r : Reader (Option α)) : List Token → List α → List Token → Prop
  | nil {ts : List Token} : Repeats r ts [] ts
  | cons {ts mid rest : List Token} {a : α} {as : List α} (read : r ts = .ok (some a, mid))
      (shorter : mid.length < ts.length) (more : Repeats r mid as rest) :
      Repeats r ts (a :: as) rest

namespace Repeats

variable {r : Reader (Option α)} {ts mid rest : List Token} {as bs : List α}

theorem append (first : Repeats r ts as mid) (second : Repeats r mid bs rest) :
    Repeats r ts (as ++ bs) rest := by
  induction first with
  | nil => exact second
  | cons read shorter _ ih => exact .cons read shorter (ih second)

theorem manyWithin (repeats : Repeats r ts as rest) (last : r rest = .ok (none, rest))
    {rounds : Nat} (enough : ts.length < rounds) :
    Reader.manyWithin rounds r ts = .ok (as, rest) := by
  induction repeats generalizing rounds with
  | nil =>
      cases rounds with
      | zero => omega
      | succ rounds => exact bind_ok last
  | cons read shorter _ ih =>
      cases rounds with
      | zero => omega
      | succ rounds =>
          refine (bind_ok read).trans ?_
          exact bind_ok (ih last (by omega))

theorem many (repeats : Repeats r ts as rest) (last : r rest = .ok (none, rest)) :
    Reader.many r ts = .ok (as, rest) :=
  repeats.manyWithin last (Nat.lt_succ_self _)

end Repeats

theorem many_cons {r : Reader (Option α)} {t : Token} {ts : List Token} {a : α}
    (read : r (t :: ts) = .ok (some a, ts)) :
    Reader.many r (t :: ts) = (Reader.many r >>= fun as => Pure.pure (a :: as)) ts :=
  bind_ok read

/-- A reader gives nothing and reads nothing before what `Follow` admits. -/
def Halts (r : Reader (Option α)) (Follow : List Lexeme → Prop) : Prop :=
  ∀ rest, Follow (lexemes rest) → r rest = .ok (none, rest)

/-- At tokens with the lexemes `ks`, `first` and then rounds of `next?` read exactly these tokens,
and `Q` holds of what they give. -/
def Spine (first : Reader α) (next? : Reader (Option β)) (ks : List Lexeme)
    (Follow : List Lexeme → Prop) (Q : α → List β → Prop) : Prop :=
  ∀ ts rest, lexemes ts = ks → Follow (lexemes rest) →
    ∃ a mid bs, first (ts ++ rest) = .ok (a, mid) ∧ Repeats next? mid bs rest ∧ Q a bs

namespace Spine

variable {first : Reader α} {next? : Reader (Option β)} {ks : List Lexeme}
variable {Follow Follow' : List Lexeme → Prop} {P : α → Prop} {Q R : α → List β → Prop}

theorem of_reads (reads : Reads first ks Follow P) :
    Spine first next? ks Follow fun a bs => P a ∧ bs = [] := by
  intro ts rest written after
  obtain ⟨a, read, holds⟩ := reads ts rest written after
  exact ⟨a, rest, [], read, .nil, holds, rfl⟩

theorem mono (spine : Spine first next? ks Follow Q) (weaker : ∀ a bs, Q a bs → R a bs) :
    Spine first next? ks Follow R := by
  intro ts rest written after
  obtain ⟨a, mid, bs, read, repeats, holds⟩ := spine ts rest written after
  exact ⟨a, mid, bs, read, repeats, weaker a bs holds⟩

theorem snoc {ls : List Lexeme} {P : β → Prop} (spine : Spine first next? ks Follow Q)
    (nonempty : ls ≠ []) (follow : ∀ rest, Follow (ls ++ rest))
    (round : Reads next? ls Follow fun b? => ∃ b, b? = some b ∧ P b) :
    Spine first next? (ks ++ ls) Follow fun a bs => ∃ bs' b, bs = bs' ++ [b] ∧ Q a bs' ∧ P b := by
  intro ts rest written after
  obtain ⟨ts₁, ts₂, rfl, written₁, written₂⟩ := List.map_eq_append_iff.mp written
  have between : Follow (lexemes (ts₂ ++ rest)) := by
    rw [lexemes, List.map_append, written₂]
    exact follow _
  obtain ⟨a, mid, bs, read, repeats, holds⟩ := spine ts₁ (ts₂ ++ rest) written₁ between
  obtain ⟨_, round, b, rfl, result⟩ := round ts₂ rest written₂ after
  have shorter : rest.length < (ts₂ ++ rest).length := by
    have positive : 0 < ts₂.length := by
      rw [← List.length_map (f := Token.lexeme), written₂]
      exact List.length_pos_iff.mpr nonempty
    rw [List.length_append]
    omega
  refine ⟨a, mid, bs ++ [b], ?_, repeats.append (.cons round shorter .nil), bs, b, rfl, holds,
    result⟩
  rw [List.append_assoc, read]

theorem rounds (chunk : ι → List Lexeme) (view : β → γ) (out : ι → γ)
    (spine : Spine first next? ks Follow Q) (xs : List ι) (nonempty : ∀ x ∈ xs, chunk x ≠ [])
    (follow : ∀ x ∈ xs, ∀ rest, Follow (chunk x ++ rest))
    (each : ∀ x ∈ xs, Reads next? (chunk x) Follow fun b? => ∃ b, b? = some b ∧ view b = out x) :
    Spine first next? (ks ++ xs.flatMap chunk) Follow fun a bs =>
      ∃ bs' cs, bs = bs' ++ cs ∧ Q a bs' ∧ cs.map view = xs.map out := by
  induction xs generalizing ks Q with
  | nil =>
      rw [List.flatMap_nil, List.append_nil]
      exact spine.mono fun a bs holds => ⟨bs, [], (List.append_nil _).symm, holds, rfl⟩
  | cons x xs ih =>
      rw [List.forall_mem_cons] at nonempty follow each
      have longer := ih (spine.snoc nonempty.1 follow.1 each.1) nonempty.2 follow.2 each.2
      rw [List.flatMap_cons, ← List.append_assoc]
      refine longer.mono ?_
      rintro a bs ⟨_, cs, rfl, ⟨bs', b, rfl, holds, viewed⟩, others⟩
      exact ⟨bs', b :: cs, by simp, holds, by rw [List.map_cons, viewed, others, List.map_cons]⟩

/-- The rounds end where `next?` has nothing to read. -/
theorem reads {f : α → List β → Reader γ} {P : γ → Prop} (spine : Spine first next? ks Follow Q)
    (follow : ∀ rest, Follow' rest → Follow rest) (halts : Halts next? Follow')
    (finish : ∀ a bs, Q a bs → Reads (f a bs) [] Follow' P) :
    Reads (first >>= fun a => many next? >>= fun bs => f a bs) ks Follow' P := by
  intro ts rest written after
  obtain ⟨a, mid, bs, read, repeats, holds⟩ := spine ts rest written (follow _ after)
  obtain ⟨c, last, result⟩ := finish a bs holds [] rest rfl after
  refine ⟨c, ?_, result⟩
  rw [bind_ok read, bind_ok (repeats.many (halts rest after))]
  exact last

end Spine

end Reader

end Stencil
