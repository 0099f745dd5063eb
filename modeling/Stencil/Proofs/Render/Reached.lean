import Stencil.Proofs.Render.Execute

namespace Stencil

open Eval

section Reach

variable (s : Setting)

def loopStep (target : Target) (id : Option Nat) (body : List Code) (e : Value × Nat) :
    Eval (List Fragment) := do
  atItem target id e.1 e.2
  executeAll s body

/-- Whether a statement that begins in one world comes to carry out a body in another one. -/
inductive Enters : Code → World → List Code → World → Prop
  | body {condition : Expr} {body otherwise : List Code} {others : List (Expr × List Code)}
      {w u : World} : (holds s condition).run w = (.ok true, u) →
      Enters (.branch condition body others otherwise) w body u
  | other {condition next : Expr} {body first otherwise part : List Code}
      {others : List (Expr × List Code)} {w u v : World} :
      (holds s condition).run w = (.ok false, u) →
      Enters (.branch next first others otherwise) u part v →
      Enters (.branch condition body ((next, first) :: others) otherwise) w part v
  | otherwise {condition : Expr} {body otherwise : List Code} {w u : World} :
      (holds s condition).run w = (.ok false, u) →
      Enters (.branch condition body [] otherwise) w otherwise u
  | empty {target : Target} {tracked : Bool} {items : Expr} {body empty : List Code} {v : Value}
      {w u u' : World} : (evaluate s items).run w = (.ok v, u) →
      (v.loopItems target.isPair).run u = (.ok [], u') →
      Enters (.loop target tracked items body empty) w empty u'
  | item {target : Target} {tracked : Bool} {items : Expr} {body empty : List Code} {v : Value}
      {found : List Value} {entered : Option Nat × Nat} {before after : List (Value × Nat)}
      {e : Value × Nat} {written : List Fragment} {w u u' start middle here : World} :
      (evaluate s items).run w = (.ok v, u) →
      (v.loopItems target.isPair).run u = (.ok found, u') →
      (enterLoop target tracked found).run u' = (.ok entered, start) →
      found.zipIdx = before ++ e :: after →
      (forEach (loopStep s target entered.1 body) before []).run start = (.ok written, middle) →
      (atItem target entered.1 e.1 e.2).run middle = (.ok (), here) →
      Enters (.loop target tracked items body empty) w body here
  | round {condition : Expr} {body : List Code} {w u : World} :
      (holds s condition).run w = (.ok true, u) → Enters (.while condition body) w body u
  | again {condition : Expr} {body part : List Code} {written : List Fragment}
      {w u middle here : World} : (holds s condition).run w = (.ok true, u) →
      (executeAll s body).run u = (.ok written, middle) →
      Enters (.while condition body) middle part here → Enters (.while condition body) w part here
  | spaceless {body : List Code} {w : World} : Enters (.spaceless body) w body w

/-- Whether code that begins in one world comes to a statement in another one. -/
inductive Reaches : List Code → World → Code → World → Prop
  | first {c : Code} {rest : List Code} {w : World} : Reaches (c :: rest) w c w
  | further {c d : Code} {rest : List Code} {written : List Fragment} {w u v : World} :
      (execute s c).run w = (.ok written, u) → Reaches rest u d v → Reaches (c :: rest) w d v
  | within {c d : Code} {rest part : List Code} {w u v : World} : Enters s c w part u →
      Reaches part u d v → Reaches (c :: rest) w d v

end Reach

namespace Eval.Keeps

variable {α : Type} {P : α → Prop}

theorem run_ok {x : Eval α} (keeps : Keeps P x) {w u : World} (clean : w.Clean) {a : α}
    (run : x.run w = (.ok a, u)) : u.Clean ∧ P a := by
  obtain ⟨kept, given⟩ := keeps w clean
  rw [run] at kept given
  exact ⟨kept, given a rfl⟩

end Eval.Keeps

variable {s : Setting}

def Code.bodies : Code → List (List Code)
  | .branch _ body others otherwise => body :: otherwise :: others.map Prod.snd
  | .loop _ _ _ body empty => [body, empty]
  | .while _ body | .spaceless body => [body]
  | .text _ | .mark _ | .output _ _ | .set _ _ | .debug _ _ => []

theorem Enters.mem_bodies {c : Code} {part : List Code} {w u : World}
    (enters : Enters s c w part u) : part ∈ c.bodies := by
  induction enters with
  | body _ | item _ _ _ _ _ _ | round _ | spaceless => exact List.mem_cons_self
  | otherwise _ | empty _ _ => exact List.mem_cons_of_mem _ List.mem_cons_self
  | other _ _ ih =>
      simp only [Code.bodies, List.map_cons, List.mem_cons] at ih ⊢
      rcases ih with isFirst | isOtherwise | isFurther
      · exact .inr (.inr (.inl isFirst))
      · exact .inr (.inl isOtherwise)
      · exact .inr (.inr (.inr isFurther))
  | again _ _ _ ih => exact ih

theorem Reaches.mem {all code : List Code} {c : Code} {w u : World}
    (closed : ∀ d ∈ all, ∀ part ∈ d.bodies, part ⊆ all) (reaches : Reaches s code w c u)
    (within : code ⊆ all) : c ∈ all := by
  induction reaches with
  | first => exact within List.mem_cons_self
  | further _ _ ih => exact ih fun d member => within (List.mem_cons_of_mem _ member)
  | within enters _ ih => exact ih (closed _ (within List.mem_cons_self) _ enters.mem_bodies)

theorem loopStep_writes (tame : s.Tame) (target : Target) (id : Option Nat)
    {body : List Code} (escapes : Code.EscapesAll body) {e : Value × Nat} (clean : e.1.Clean) :
    Writes (loopStep s target id body e) :=
  (atItem_keeps target id e.2 clean).bind fun _ _ => executeAll_writes tame body escapes

theorem Enters.clean (tame : s.Tame) {c : Code} {part : List Code}
    {w u : World} (enters : Enters s c w part u) (escapes : c.Escapes) (clean : w.Clean) :
    Code.EscapesAll part ∧ u.Clean := by
  induction enters with
  | body run => exact ⟨escapes.1, ((holds_keeps tame _).run_ok clean run).1⟩
  | other run _ ih =>
      obtain ⟨_, ⟨hfirst, hothers⟩, hotherwise⟩ := escapes
      exact ih ⟨hfirst, hothers, hotherwise⟩ ((holds_keeps tame _).run_ok clean run).1
  | otherwise run => exact ⟨escapes.2.2, ((holds_keeps tame _).run_ok clean run).1⟩
  | empty evaluated listed =>
      obtain ⟨between, hv⟩ := (evaluate_keeps tame _).run_ok clean evaluated
      exact ⟨escapes.2, ((Value.loopItems_keeps hv _).run_ok between listed).1⟩
  | @item target tracked _ _ _ _ found entered before after current _ _ _ _ _ _ _
      evaluated listed started split repeated bound =>
      obtain ⟨between, hv⟩ := (evaluate_keeps tame _).run_ok clean evaluated
      obtain ⟨atStart, all⟩ := (Value.loopItems_keeps hv _).run_ok between listed
      have items : ∀ e ∈ before ++ current :: after, e.1.Clean := by
        intro e member
        rw [← split] at member
        exact all e.1 (List.fst_mem_of_mem_zipIdx member)
      have inLoop := ((enterLoop_keeps target tracked all).run_ok atStart started).1
      have steps : Writes (forEach (loopStep s target entered.1 _) before []) :=
        forEach_keeps (P := Fragment.Safe) (fun e member => loopStep_writes tame target
          entered.1 escapes.1 (items e (List.mem_append_left _ member))) (by simp)
      have middle := (steps.run_ok inLoop repeated).1
      have here := (atItem_keeps target entered.1 current.2 (items current (by simp))).run_ok middle
        bound
      exact ⟨escapes.1, here.1⟩
  | round run => exact ⟨escapes, ((holds_keeps tame _).run_ok clean run).1⟩
  | again run carriedOut _ ih =>
      have between := ((holds_keeps tame _).run_ok clean run).1
      exact ih escapes ((executeAll_writes tame _ escapes).run_ok between carriedOut).1
  | spaceless => exact ⟨escapes, clean⟩

theorem Reaches.append {code : List Code} {d : Code} {w u : World} (reaches : Reaches s code w d u)
    (rest : List Code) : Reaches s (code ++ rest) w d u := by
  induction reaches with
  | first => exact .first
  | further run _ ih => exact .further run ih
  | within enters reached => exact .within enters reached

theorem Reaches.of_head {c d : Code} {w u : World} (reaches : Reaches s [c] w d u)
    (rest : List Code) : Reaches s (c :: rest) w d u :=
  reaches.append rest

theorem Reaches.clean (tame : s.Tame) {code : List Code} {c : Code}
    {w u : World} (reaches : Reaches s code w c u) (escapes : Code.EscapesAll code)
    (clean : w.Clean) : c.Escapes ∧ u.Clean := by
  induction reaches with
  | first => exact ⟨escapes.1, clean⟩
  | further run _ ih =>
      exact ih escapes.2 ((execute_writes tame _ escapes.1).run_ok clean run).1
  | within enters _ ih =>
      obtain ⟨inside, between⟩ := enters.clean tame escapes.1 clean
      exact ih inside between

end Stencil
