import Stencil.Grammar.Stmt
import Stencil.Proofs.Grammar.Reading

namespace Stencil.Grammar

open Reader

namespace Parse

variable {α β : Type}

theorem bind_ok {r : Parse α} {f : α → Parse β} {parent parent' : Option Parent}
    {ts rest : List Token} {a : α} (first : r parent ts = .ok ((a, parent'), rest)) :
    (r >>= f) parent ts = f a parent' rest := by
  change (r parent ts >>= fun x => f x.1.1 x.1.2 x.2) = f a parent' rest
  rw [first]
  rfl

theorem read_of_ok {r : Reader α} {ts rest : List Token} {a : α} (parent : Option Parent)
    (first : r ts = .ok (a, rest)) : Parse.read r parent ts = .ok ((a, parent), rest) := by
  rw [Parse.read, first]

theorem bind_of_ok {r : Reader α} {f : α → Parse β} {parent : Option Parent}
    {ts rest : List Token} {a : α} (first : r ts = .ok (a, rest)) :
    (Parse.read r >>= f) parent ts = f a parent rest :=
  bind_ok (read_of_ok parent first)

def Parses (r : Parse α) (ks : List Lexeme) (Follow : List Lexeme → Prop) (P : α → Prop) : Prop :=
  ∀ parent ts rest, lexemes ts = ks → Follow (lexemes rest) →
    ∃ a, r parent (ts ++ rest) = .ok ((a, parent), rest) ∧ P a

namespace Parses

variable {Follow Follow' : List Lexeme → Prop} {P : α → Prop} {Q : β → Prop}
variable {ks ls : List Lexeme}

theorem pure {a : α} (holds : P a) : Parses (Pure.pure a) [] Follow P := by
  intro parent ts rest written _
  cases List.map_eq_nil_iff.mp written
  exact ⟨a, rfl, holds⟩

theorem read {r : Reader α} (reads : Reads r ks Follow P) : Parses (Parse.read r) ks Follow P := by
  intro parent ts rest written after
  obtain ⟨a, first, holds⟩ := reads ts rest written after
  exact ⟨a, read_of_ok parent first, holds⟩

theorem bind {r : Parse α} {f : α → Parse β} (first : Parses r ks Follow P)
    (follow : ∀ rest, Follow' rest → Follow (ls ++ rest))
    (second : ∀ a, P a → Parses (f a) ls Follow' Q) : Parses (r >>= f) (ks ++ ls) Follow' Q := by
  intro parent ts rest written after
  obtain ⟨ts₁, ts₂, rfl, written₁, written₂⟩ := List.map_eq_append_iff.mp written
  have between : Follow (lexemes (ts₂ ++ rest)) := by
    rw [lexemes, List.map_append, written₂]
    exact follow _ after
  obtain ⟨a, read₁, holds⟩ := first parent ts₁ (ts₂ ++ rest) written₁ between
  obtain ⟨b, read₂, result⟩ := second a holds parent ts₂ rest written₂ after
  refine ⟨b, ?_, result⟩
  rw [List.append_assoc, bind_ok read₁, read₂]

theorem seq {r : Parse α} {f : α → Parse β} (first : Parses r ks (fun _ => True) P)
    (second : ∀ a, P a → Parses (f a) ls Follow Q) : Parses (r >>= f) (ks ++ ls) Follow Q :=
  bind first (fun _ _ => trivial) second

theorem last {r : Parse α} {f : α → Parse β} (first : Parses r ks Follow P)
    (second : ∀ a, P a → Parses (f a) [] Follow Q) : Parses (r >>= f) ks Follow Q := by
  rw [← List.append_nil ks]
  exact bind first (fun _ after => after) second

theorem mono {Q : α → Prop} {r : Parse α} (parses : Parses r ks Follow P)
    (follow : ∀ rest, Follow' rest → Follow rest) (weaker : ∀ a, P a → Q a) :
    Parses r ks Follow' Q := by
  intro parent ts rest written after
  obtain ⟨a, read, holds⟩ := parses parent ts rest written (follow _ after)
  exact ⟨a, read, weaker a holds⟩

end Parses

/-- The rounds of a repetition: each gives something and leaves fewer tokens. -/
inductive Repeats (r : Parse (Option α)) :
    Option Parent → List Token → List α → Option Parent → List Token → Prop
  | nil {parent : Option Parent} {ts : List Token} : Repeats r parent ts [] parent ts
  | cons {parent parent' parent'' : Option Parent} {ts mid rest : List Token} {a : α}
      {as : List α} (read : r parent ts = .ok ((some a, parent'), mid))
      (shorter : mid.length < ts.length) (more : Repeats r parent' mid as parent'' rest) :
      Repeats r parent ts (a :: as) parent'' rest

namespace Repeats

variable {r : Parse (Option α)} {parent parent' parent'' : Option Parent}
variable {ts mid rest : List Token} {as bs : List α}

theorem append (first : Repeats r parent ts as parent' mid)
    (second : Repeats r parent' mid bs parent'' rest) :
    Repeats r parent ts (as ++ bs) parent'' rest := by
  induction first with
  | nil => exact second
  | cons read shorter _ ih => exact .cons read shorter (ih second)

theorem manyWithin (repeats : Repeats r parent ts as parent' rest)
    (last : r parent' rest = .ok ((none, parent'), rest)) {rounds : Nat}
    (enough : ts.length < rounds) :
    Parse.manyWithin rounds r parent ts = .ok ((as, parent'), rest) := by
  induction repeats generalizing rounds with
  | nil =>
      cases rounds with
      | zero => omega
      | succ rounds => exact bind_ok last
  | cons read shorter _ ih =>
      cases rounds with
      | zero => omega
      | succ rounds =>
          refine (bind_ok read).trans ?_
          exact bind_ok (ih last (by omega))

theorem many (repeats : Repeats r parent ts as parent' rest)
    (last : r parent' rest = .ok ((none, parent'), rest)) :
    Parse.many r parent ts = .ok ((as, parent'), rest) :=
  repeats.manyWithin last (Nat.lt_succ_self _)

end Repeats

/-- Rounds for the members of a list, up to where `r` has nothing to read. -/
theorem Parses.many {γ ι : Type} {r : Parse (Option α)} {Follow Follow' : List Lexeme → Prop}
    (chunk : ι → List Lexeme) (view : α → γ) (out : ι → γ) (xs : List ι)
    (nonempty : ∀ x ∈ xs, chunk x ≠ [])
    (follow : ∀ x ∈ xs, ∀ rest, Follow (chunk x ++ rest))
    (follow' : ∀ rest, Follow' rest → Follow rest)
    (each : ∀ x ∈ xs, Parses r (chunk x) Follow fun a? => ∃ a, a? = some a ∧ view a = out x)
    (halts : ∀ parent rest, Follow' (lexemes rest) → r parent rest = .ok ((none, parent), rest)) :
    Parses (Parse.many r) (xs.flatMap chunk) Follow' fun as => as.map view = xs.map out := by
  intro parent ts rest written after
  have rounds : ∃ as, Repeats r parent (ts ++ rest) as parent rest ∧ as.map view = xs.map out := by
    clear halts
    induction xs generalizing ts with
    | nil =>
        cases List.map_eq_nil_iff.mp written
        exact ⟨[], .nil, rfl⟩
    | cons x xs ih =>
        rw [List.forall_mem_cons] at nonempty follow each
        obtain ⟨ts₁, ts₂, rfl, written₁, written₂⟩ := List.map_eq_append_iff.mp written
        have between : Follow (lexemes (ts₂ ++ rest)) := by
          rw [lexemes, List.map_append, written₂]
          cases xs with
          | nil => exact follow' _ after
          | cons y ys =>
              rw [List.map_cons, List.flatten_cons, List.append_assoc]
              exact follow.2 y List.mem_cons_self _
        obtain ⟨_, read, a, rfl, same⟩ := each.1 parent ts₁ (ts₂ ++ rest) written₁ between
        obtain ⟨as, repeats, others⟩ := ih nonempty.2 follow.2 each.2 ts₂ written₂
        have positive : 0 < ts₁.length := by
          rw [← List.length_map (f := Token.lexeme), written₁]
          exact List.length_pos_iff.mpr nonempty.1
        rw [List.append_assoc]
        refine ⟨a :: as, .cons read ?_ repeats, by rw [List.map_cons, same, others, List.map_cons]⟩
        simp only [List.length_append]
        omega
  obtain ⟨as, repeats, viewed⟩ := rounds
  exact ⟨as, repeats.many (halts parent rest after), viewed⟩

end Parse

/-! Bodies. -/

section Bodies

open Parse

variable {limit : Int} {inside : Inside} {opened escape : Bool} {parent : Option Parent}

theorem piece?_output {start : Token} {d : Delimiter} {ts rest : List Token} {s : Stmt}
    (kind : start.kind = .opening d) (other : d ≠ .statement)
    (read : output start d escape ts = .ok (s, rest)) :
    piece? limit inside opened escape parent (start :: ts) = .ok ((some [s], parent), rest) := by
  refine (bind_of_ok (r := peek) rfl).trans ?_
  cases d with
  | statement => exact absurd rfl other
  | escaped | raw =>
      simp only [List.head?_cons, kind]
      refine (bind_of_ok (r := skip) rfl).trans ?_
      exact (bind_of_ok read).trans rfl

theorem piece?_nil :
    piece? limit inside opened escape parent [] = .ok ((none, parent), []) := rfl

/-- How the statements of a block are read where `room` more blocks may be opened. -/
def insideOf (limit : Int) : (room : Nat) → Inside
  | 0 => none
  | room + 1 => some fun inner => body limit room true inner

theorem body_eq (room : Nat) :
    body limit room opened escape = bodyWith limit (insideOf limit room) opened escape := by
  cases room <;> rfl

theorem bodyWith_ok {parent' : Option Parent} {ts rest : List Token} {as : List (List Stmt)}
    (repeats : Repeats (piece? limit inside opened escape) parent ts as parent' rest)
    (last : piece? limit inside opened escape parent' rest = .ok ((none, parent'), rest)) :
    bodyWith limit inside opened escape parent ts = .ok ((as.flatten, parent'), rest) :=
  bind_ok (repeats.many last)

theorem template_ok {parent' : Option Parent} {ts : List Token} {as : List (List Stmt)}
    (repeats : Repeats (piece? limit (insideOf limit limit.toNat) false true) none ts as parent'
      []) :
    template limit ts = .ok ⟨as.flatten, parent'⟩ := by
  rw [template, body_eq, bodyWith_ok repeats piece?_nil]

end Bodies

end Stencil.Grammar
