import Stencil.Proofs.Render.Scope

namespace Stencil

open Eval

/-- A round of a loop: the items that the loop goes through, and the position of the current one. -/
structure Round where
  items : List Value
  index : Nat

namespace Round

def previous (r : Round) : Value :=
  if r.index = 0 then .null else (r.items[r.index - 1]?).getD .null

def next (r : Round) : Value := (r.items[r.index + 1]?).getD .null

end Round

section Inside

variable (s : Setting)

/-- Whether a statement that begins in one world and in some rounds comes to carry out a part of it
in another world and in the given rounds. The innermost round comes first. -/
inductive EntersIn : List Round → Code → World → List Round → List Code → World → Prop
  | plain {rounds : List Round} {c : Code} {part : List Code} {w u : World} :
      (∀ target tracked items body empty, c ≠ .loop target tracked items body empty) →
      Enters s c w part u → EntersIn rounds c w rounds part u
  | empty {rounds : List Round} {target : Target} {tracked : Bool} {items : Expr}
      {body empty : List Code} {v : Value} {w u u' : World} :
      (evaluate s items).run w = (.ok v, u) → (v.loopItems target.isPair).run u = (.ok [], u') →
      EntersIn rounds (.loop target tracked items body empty) w rounds empty u'
  | item {rounds : List Round} {target : Target} {tracked : Bool} {items : Expr}
      {body empty : List Code} {v : Value} {found : List Value} {entered : Option Nat × Nat}
      {before after : List (Value × Nat)} {e : Value × Nat} {written : List Fragment}
      {w u u' start middle here : World} :
      (evaluate s items).run w = (.ok v, u) →
      (v.loopItems target.isPair).run u = (.ok found, u') →
      (enterLoop target tracked found).run u' = (.ok entered, start) →
      found.zipIdx = before ++ e :: after →
      (forEach (loopStep s target entered.1 body) before []).run start = (.ok written, middle) →
      (atItem target entered.1 e.1 e.2).run middle = (.ok (), here) →
      EntersIn rounds (.loop target tracked items body empty) w (⟨found, e.2⟩ :: rounds) body here

/-- Whether code that begins in one world and in some rounds comes to a statement in another world
and in the given rounds. -/
inductive Inside : List Round → List Code → World → List Round → Code → World → Prop
  | first {rounds : List Round} {c : Code} {rest : List Code} {w : World} :
      Inside rounds (c :: rest) w rounds c w
  | further {around rounds : List Round} {c d : Code} {rest : List Code}
      {written : List Fragment} {w u v : World} : (execute s c).run w = (.ok written, u) →
      Inside around rest u rounds d v → Inside around (c :: rest) w rounds d v
  | within {around middle rounds : List Round} {c d : Code} {rest part : List Code}
      {w u v : World} : EntersIn s around c w middle part u → Inside middle part u rounds d v →
      Inside around (c :: rest) w rounds d v

end Inside

variable {s : Setting}

theorem EntersIn.enters {around rounds : List Round} {c : Code} {part : List Code} {w u : World}
    (entersIn : EntersIn s around c w rounds part u) : Enters s c w part u := by
  cases entersIn with
  | plain _ enters => exact enters
  | empty evaluated listed => exact .empty evaluated listed
  | item evaluated listed started split repeated bound =>
      exact .item evaluated listed started split repeated bound

theorem Inside.reaches {around rounds : List Round} {code : List Code} {c : Code} {w here : World}
    (inside : Inside s around code w rounds c here) : Reaches s code w c here := by
  induction inside with
  | first => exact .first
  | further run _ ih => exact .further run ih
  | within entersIn _ ih => exact .within entersIn.enters ih

/-- What holds when a loop starts, and is kept by the beginning of each round and by its body, holds
at the beginning of each round. -/
theorem round_invariant {target : Target} {tracked : Bool} {items : Expr} {body : List Code}
    (empty : List Code) {v : Value} {found : List Value} {entered : Option Nat × Nat}
    {before after : List (Value × Nat)} {e : Value × Nat} {written : List Fragment}
    {w u u' start middle here : World} {Q : Nat → World → Prop}
    (evaluated : (evaluate s items).run w = (.ok v, u))
    (listed : (v.loopItems target.isPair).run u = (.ok found, u'))
    (started : (enterLoop target tracked found).run u' = (.ok entered, start))
    (split : found.zipIdx = before ++ e :: after)
    (repeated : (forEach (loopStep s target entered.1 body) before []).run start =
      (.ok written, middle))
    (bound : (atItem target entered.1 e.1 e.2).run middle = (.ok (), here))
    (atStart : ∃ i, Q i start)
    (next : ∀ i item j m m', Q i m → (atItem target entered.1 item j).run m = (.ok (), m') → Q j m')
    (round : ∀ j there parts m, Q j there →
      Enters s (.loop target tracked items body empty) w body there →
      (executeAll s body).run there = (.ok parts, m) → ∃ i, Q i m) : Q e.2 here := by
  have between : ∃ i, Q i middle := by
    refine forEach_invariant (P := fun m => ∃ i, Q i m) atStart ?_ repeated
    intro earlier current later given parts m m' within done kept runStep
    obtain ⟨i, kept⟩ := kept
    obtain ⟨_, there, currentBound, carriedOut⟩ := Step.run_bind_ok runStep
    have whole : found.zipIdx = earlier ++ current :: (later ++ e :: after) := by
      rw [split, within, List.append_assoc, List.cons_append]
    exact round _ there parts m' (next i _ _ m there kept currentBound)
      (.item evaluated listed started whole done currentBound) carriedOut
  obtain ⟨i, kept⟩ := between
  exact next i _ _ middle here kept bound

/-! Searches that only enter the first rounds of loops: for a statement, and for a use of `loop`. -/

section Search

variable (s : Setting)

/-- The world of the first round of a loop, and what it goes through. -/
def firstRound? (target : Target) (tracked : Bool) (items : Expr) (w : World) :
    Option (List Value × World) :=
  match (evaluate s items).run w with
  | (.error _, _) => none
  | (.ok v, u) =>
      match (v.loopItems target.isPair).run u with
      | (.ok (item :: rest), u') =>
          match (enterLoop target tracked (item :: rest)).run u' with
          | (.ok entered, start) =>
              some (item :: rest, ((atItem target entered.1 item 0).run start).2)
          | (.error _, _) => none
      | _ => none

/-- The first statement of code that passes a check, and the world in which code comes to it. -/
def firstThat? (passes : Code → Bool) (w : World) : List Code → Option (Code × World)
  | [] => none
  | c :: rest =>
      if passes c then some (c, w)
      else
        match (execute s c).run w with
        | (.ok _, u) => firstThat? passes u rest
        | (.error _, _) => none

/-- The body of the first loop that passes a check, what the loop goes through, and the world of its
first round. -/
def firstLoop? (passes : Code → Bool) (w : World) (code : List Code) :
    Option (List Code × List Value × World) :=
  (firstThat? s passes w code).bind fun (c, u) =>
    match c with
    | .loop target tracked items body _ =>
        (firstRound? s target tracked items u).map fun (found, start) => (body, found, start)
    | _ => none

mutual

/-- The rounds in which `loop` is used first, as far as the search goes. -/
def firstUse? (rounds : List Round) (w : World) : Code → Option (List Round)
  | .output value _ => if value.usesLoop then some rounds else none
  | .loop target tracked items body _ =>
      (firstRound? s target tracked items w).bind fun (found, here) =>
        firstUseOf? (⟨found, 0⟩ :: rounds) here body
  | _ => none

def firstUseOf? (rounds : List Round) (w : World) : List Code → Option (List Round)
  | [] => none
  | c :: rest =>
      match firstUse? rounds w c with
      | some found => some found
      | none =>
          match (execute s c).run w with
          | (.ok _, u) => firstUseOf? rounds u rest
          | (.error _, _) => none

end

end Search

theorem entersIn_of_firstRound? {target : Target} {tracked : Bool} {items : Expr}
    {body empty : List Code} {found : List Value} {rounds : List Round} {w here : World}
    (first : firstRound? s target tracked items w = some (found, here)) :
    EntersIn s rounds (.loop target tracked items body empty) w (⟨found, 0⟩ :: rounds) body
      here := by
  unfold firstRound? at first
  split at first
  · cases first
  · next v u evaluated =>
      split at first
      · next item rest u' listed =>
          split at first
          · next entered start started =>
              cases first
              have split : (item :: rest).zipIdx = [] ++ (item, 0) :: rest.zipIdx 1 := rfl
              exact .item evaluated listed started split rfl rfl
          · cases first
      · cases first

theorem inside_of_firstThat? {passes : Code → Bool} {rounds : List Round} {code : List Code}
    {c : Code} {w u : World}
    (first : firstThat? s passes w code = some (c, u)) :
    passes c ∧ Inside s rounds code w rounds c u := by
  induction code generalizing w with
  | nil => cases first
  | cons d rest ih =>
      rw [firstThat?] at first
      split at first
      · next isPassing =>
          cases first
          exact ⟨isPassing, .first⟩
      · split at first
        · next run =>
            obtain ⟨isPassing, inside⟩ := ih first
            exact ⟨isPassing, .further run inside⟩
        · cases first

theorem entersIn_of_firstLoop? {passes : Code → Bool} {code body : List Code}
    {found : List Value} {w start : World}
    (first : firstLoop? s passes w code = some (body, found, start)) :
    ∃ target tracked items empty u, passes (.loop target tracked items body empty) ∧
      Reaches s code w (.loop target tracked items body empty) u ∧
      EntersIn s [] (.loop target tracked items body empty) u [⟨found, 0⟩] body start := by
  obtain ⟨⟨c, u⟩, isFirst, isRound⟩ := Option.bind_eq_some_iff.mp first
  obtain ⟨isPassing, inside⟩ : passes c ∧ Inside s [] code w [] c u :=
    inside_of_firstThat? isFirst
  cases c with
  | loop target tracked items body' empty =>
      obtain ⟨_, round, same⟩ := Option.map_eq_some_iff.mp isRound
      cases same
      exact ⟨target, tracked, items, empty, u, isPassing, inside.reaches,
        entersIn_of_firstRound? round⟩
  | _ => cases isRound

mutual

theorem inside_of_firstUse? {around rounds : List Round} {w : World} (rest : List Code) :
    (c : Code) → firstUse? s around w c = some rounds → ∃ d e here,
      Inside s around (c :: rest) w rounds d here ∧ Evaluates s d here e here ∧ e.usesLoop
  | .output value escape, found => by
      rw [firstUse?] at found
      split at found
      · next uses =>
          cases found
          exact ⟨_, value, w, .first, .output, uses⟩
      · cases found
  | .loop target tracked items body empty, found => by
      rw [firstUse?] at found
      obtain ⟨⟨_, here⟩, first, further⟩ := Option.bind_eq_some_iff.mp found
      obtain ⟨d, e, there, inside, use⟩ := inside_of_firstUseOf? body further
      exact ⟨d, e, there, .within (entersIn_of_firstRound? first) inside, use⟩
  | .text _, found | .mark _, found | .branch _ _ _ _, found | .while _ _, found | .set _ _, found
  | .spaceless _, found | .debug _ _, found => by cases found

theorem inside_of_firstUseOf? {around rounds : List Round} {w : World} : (code : List Code) →
    firstUseOf? s around w code = some rounds → ∃ d e here,
      Inside s around code w rounds d here ∧ Evaluates s d here e here ∧ e.usesLoop
  | [], found => by cases found
  | c :: rest, found => by
      rw [firstUseOf?] at found
      split at found
      · next here =>
          cases found
          exact inside_of_firstUse? rest c here
      · split at found
        · next run =>
            obtain ⟨d, e, here, inside, use⟩ := inside_of_firstUseOf? rest found
            exact ⟨d, e, here, .further run inside, use⟩
        · cases found

end

end Stencil
