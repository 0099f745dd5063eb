import Stencil.Proofs.Render.Scope

namespace Stencil

open Eval

namespace Expr

def isSearch : Expr → Bool
  | compare _ _ links => links.any (·.1.isMembership)
  | _ => false

def searches (e : Expr) : Bool := e.any isSearch

def isContainer : Expr → Bool
  | list _ _ | range _ _ _ | concat _ _ => true
  | _ => false

end Expr

/-- Whether no function and no method of the host goes through a loop. -/
def Host.MovesNothing (h : Host) : Prop := ∀ heap f a, (h.call heap f a).moved = []

section Searches

variable {s : Setting}

theorem Asking.none_andThen {α : Type} (x : Eval α) :
    Asking.none.andThen x (fun _ => Asking.none) = Asking.none := by
  funext w id
  simp [Asking.andThen, Asking.none]

theorem Asking.none_quietly : Asking.none.quietly = Asking.none := rfl

theorem CompareOp.asks_eq_none {op : CompareOp} (other : op.isMembership = false) (b : Value) :
    op.asks b = Asking.none := by
  funext w id
  simp [CompareOp.asks, other, Asking.none]

section Calls

variable (idle : s.host.MovesNothing)

include idle

theorem Setting.valueAsks_eq_none (f : Value) (a : Arguments) : s.valueAsks f a = .none := by
  funext w id
  simp [Setting.valueAsks, idle w.heap f a, Asking.none]

theorem Setting.namedAsks_eq_none (table : Registry) (name : String) (a : Arguments) :
    s.namedAsks table name a = .none := by
  unfold namedAsks
  split
  · exact valueAsks_eq_none idle _ a
  · rfl

theorem Setting.functionAsks_eq_none (name : String) (a : Arguments) :
    s.functionAsks name a = .none := by
  simp only [functionAsks, namedAsks_eq_none idle, Asking.none_andThen]

theorem Setting.filterAsks_eq_none (name : String) (v : Value) (a : Arguments) :
    s.filterAsks name v a = .none := by
  simp only [filterAsks, namedAsks_eq_none idle, Asking.none_andThen]

end Calls

theorem argumentsAsk_eq_none {call : Arguments → Asking} (free : ∀ a, call a = .none)
    (args : List Expr) (named : List (String × Expr)) :
    argumentsAsk s .none .none args named call = .none := by
  simp only [argumentsAsk, free, Asking.none_andThen]

mutual

theorem asks_eq_none (idle : s.host.MovesNothing) :
    (e : Expr) → e.searches = false → asks s e = .none
  | .const _ _, _ => rfl
  | .name _ _, _ => rfl
  | .list _ items, free => by
      simp only [Expr.searches, Expr.any, Bool.or_eq_false_iff] at free
      rw [asks, asksAll_eq_none idle items free.2]
  | .dict _ entries, free => by
      simp only [Expr.searches, Expr.any, Bool.or_eq_false_iff] at free
      rw [asks, asksEntries_eq_none idle entries free.2]
  | .attr _ object _, free => by
      simp only [Expr.searches, Expr.any, Bool.or_eq_false_iff] at free
      rw [asks, asks_eq_none idle object free.2]
  | .item _ object key, free => by
      simp only [Expr.searches, Expr.any, Bool.or_eq_false_iff] at free
      rw [asks, asks_eq_none idle object free.1.2, asks_eq_none idle key free.2,
        Asking.none_andThen]
  | .call _ callee args named, free => by
      simp only [Expr.searches, Expr.any, Bool.or_eq_false_iff] at free
      have given : ∀ call : Arguments → Asking, (∀ a, call a = .none) →
          argumentsAsk s (asksAll s args) (asksNamed s named) args named call = .none := by
        intro call unasked
        rw [asksAll_eq_none idle args free.1.2, asksNamed_eq_none idle named free.2,
          argumentsAsk_eq_none unasked]
      have called : (asks s callee).andThen (evaluate s callee) (fun f =>
          argumentsAsk s (asksAll s args) (asksNamed s named) args named (s.valueAsks f)) =
            .none := by
        simp only [given _ (Setting.valueAsks_eq_none idle _), asks_eq_none idle callee free.1.1.2,
          Asking.none_andThen]
      cases callee with
      | name _ name =>
          funext w
          rw [asks]
          dsimp only
          cases w.locals.lookup name with
          | some f => exact congrFun (given _ (Setting.valueAsks_eq_none idle f)) w
          | none => exact congrFun (given _ (Setting.functionAsks_eq_none idle name)) w
      | _ => exact called
  | .filter _ value name args named, free => by
      simp only [Expr.searches, Expr.any, Bool.or_eq_false_iff] at free
      have filtered : ∀ v, argumentsAsk s .none .none args named (s.filterAsks name v) = .none :=
        fun v => argumentsAsk_eq_none (Setting.filterAsks_eq_none idle name v) args named
      rw [asks, asks_eq_none idle value free.1.1.2, asksAll_eq_none idle args free.1.2,
        asksNamed_eq_none idle named free.2, Asking.none_quietly]
      simp only [filtered, Asking.none_andThen, ite_self]
  | .test _ value name args _, free => by
      simp only [Expr.searches, Expr.any, Bool.or_eq_false_iff] at free
      have tested : ∀ v, s.testAsks name v = fun _ => .none := fun v => by
        funext given
        exact Setting.namedAsks_eq_none idle _ name ⟨v :: given, []⟩
      rw [asks, asks_eq_none idle value free.1.2, asksAll_eq_none idle args free.2,
        Asking.none_quietly]
      simp only [tested, Asking.none_andThen, ite_self]
  | .arith _ _ left right, free => by
      simp only [Expr.searches, Expr.any, Bool.or_eq_false_iff] at free
      rw [asks, asks_eq_none idle left free.1.2, asks_eq_none idle right free.2,
        Asking.none_andThen]
  | .sign _ _ operand, free => by
      simp only [Expr.searches, Expr.any, Bool.or_eq_false_iff] at free
      rw [asks, asks_eq_none idle operand free.2]
  | .compare _ first [], free => by
      simp only [Expr.searches, Expr.any, Bool.or_eq_false_iff] at free
      rw [asks, asks_eq_none idle first free.1.2]
  | .compare _ first ((op, e) :: rest), free => by
      simp only [Expr.searches, Expr.any, Expr.isSearch, Expr.anyLink, List.any_cons,
        Bool.or_eq_false_iff] at free
      obtain ⟨⟨⟨hop, hrest⟩, hfirst⟩, he, hlinks⟩ := free
      rw [asks, hop, asks_eq_none idle first hfirst, asks_eq_none idle e he]
      simp only [CompareOp.asks_eq_none hop, asksLinks_eq_none idle _ _ rest hrest hlinks,
        Asking.none_andThen, ite_self]
  | .logic _ op parts, free => by
      simp only [Expr.searches, Expr.any, Bool.or_eq_false_iff] at free
      rw [asks, asksLogic_eq_none idle op parts free.2]
  | .choice _ condition ifTrue ifFalse, free => by
      simp only [Expr.searches, Expr.any, Bool.or_eq_false_iff] at free
      rw [asks, asks_eq_none idle condition free.1.1.2, asks_eq_none idle ifTrue free.1.2,
        asks_eq_none idle ifFalse free.2]
      simp only [ite_self, Asking.none_andThen]
  | .range _ first last, free => by
      simp only [Expr.searches, Expr.any, Bool.or_eq_false_iff] at free
      rw [asks, asks_eq_none idle first free.1.2, asks_eq_none idle last free.2,
        Asking.none_andThen]
  | .concat _ parts, free => by
      simp only [Expr.searches, Expr.any, Bool.or_eq_false_iff] at free
      rw [asks, asksAll_eq_none idle parts free.2]

theorem asksAll_eq_none (idle : s.host.MovesNothing) :
    (es : List Expr) → Expr.anyOf Expr.isSearch es = false → asksAll s es = .none
  | [], _ => rfl
  | e :: rest, free => by
      simp only [Expr.anyOf, Bool.or_eq_false_iff] at free
      rw [asksAll, asks_eq_none idle e free.1, asksAll_eq_none idle rest free.2,
        Asking.none_andThen]

theorem asksNamed_eq_none (idle : s.host.MovesNothing) : (named : List (String × Expr)) →
    Expr.anyNamed Expr.isSearch named = false → asksNamed s named = .none
  | [], _ => rfl
  | (_, e) :: rest, free => by
      simp only [Expr.anyNamed, Bool.or_eq_false_iff] at free
      rw [asksNamed, asks_eq_none idle e free.1, asksNamed_eq_none idle rest free.2,
        Asking.none_andThen]

theorem asksEntries_eq_none (idle : s.host.MovesNothing) : (entries : List (Expr × Expr)) →
    Expr.anyEntry Expr.isSearch entries = false → asksEntries s entries = .none
  | [], _ => rfl
  | (key, e) :: rest, free => by
      simp only [Expr.anyEntry, Bool.or_eq_false_iff] at free
      rw [asksEntries, asks_eq_none idle key free.1.1, asks_eq_none idle e free.1.2,
        asksEntries_eq_none idle rest free.2, Asking.none_andThen, Asking.none_andThen]

theorem asksLinks_eq_none (idle : s.host.MovesNothing) (left : Value) (holds : Bool) :
    (links : List (CompareOp × Expr)) →
    links.any (·.1.isMembership) = false → Expr.anyLink Expr.isSearch links = false →
      asksLinks s left holds links = .none
  | [], _, _ => rfl
  | (op, e) :: rest, free, inside => by
      rw [List.any_cons, Bool.or_eq_false_iff] at free
      rw [Expr.anyLink, Bool.or_eq_false_iff] at inside
      rw [asksLinks, asks_eq_none idle e inside.1]
      simp only [CompareOp.asks_eq_none free.1, asksLinks_eq_none idle _ _ rest free.2 inside.2,
        Asking.none_andThen, ite_self]

theorem asksLogic_eq_none (idle : s.host.MovesNothing) (op : LogicOp) :
    (parts : List Expr) → Expr.anyOf Expr.isSearch parts = false → asksLogic s op parts = .none
  | [], _ => rfl
  | [e], free => by
      simp only [Expr.anyOf, Bool.or_eq_false_iff] at free
      rw [asksLogic, asks_eq_none idle e free.1]
  | e :: next :: rest, free => by
      rw [Expr.anyOf, Bool.or_eq_false_iff] at free
      show (asks s e).andThen (evaluate s e) (fun v =>
        if op.stopsAt v then .none else asksLogic s op (next :: rest)) = .none
      rw [asks_eq_none idle e free.1, asksLogic_eq_none idle op (next :: rest) free.2]
      simp only [ite_self, Asking.none_andThen]

end

end Searches

namespace Code

mutual

/-- Whether a statement passes the check, with all the statements in it. -/
def spares : Code → Bool
  | .text _ | .mark _ => true
  | .output value _ => !value.searches
  | .branch condition body others otherwise =>
      !condition.searches && sparesAll body && sparesOthers others && sparesAll otherwise
  | .loop target _ items body empty =>
      !target.names.contains "loop" && items.isContainer && !items.searches && sparesAll body &&
        sparesAll empty
  | .while condition body => !condition.searches && sparesAll body
  | .set name value => name != "loop" && !value.searches
  | .spaceless body => sparesAll body
  | .debug value _ => !value.any Expr.searches

def sparesAll : List Code → Bool
  | [] => true
  | c :: rest => c.spares && sparesAll rest

def sparesOthers : List (Expr × List Code) → Bool
  | [] => true
  | (condition, body) :: rest => !condition.searches && sparesAll body && sparesOthers rest

end

end Code

open Code (sparesAll)

variable {s : Setting}

theorem Enters.spares {c : Code} {part : List Code} {w u : World} (enters : Enters s c w part u)
    (spares : c.spares) : sparesAll part := by
  induction enters with
  | other _ _ ih =>
      simp only [Code.spares, Code.sparesOthers, Bool.and_eq_true] at spares ih
      obtain ⟨⟨_, ⟨hnext, hfirst⟩, hothers⟩, hotherwise⟩ := spares
      exact ih ⟨⟨⟨hnext, hfirst⟩, hothers⟩, hotherwise⟩
  | again _ _ _ ih => exact ih spares
  | spaceless => exact spares
  | body | otherwise | empty | item | round =>
      simp only [Code.spares, Bool.and_eq_true] at spares
      simp only [spares]

theorem Reaches.spares {code : List Code} {c : Code} {w u : World}
    (reaches : Reaches s code w c u) (spares : sparesAll code) : c.spares := by
  induction reaches with
  | first => exact (Bool.and_eq_true_iff.mp spares).1
  | further _ _ ih => exact ih (Bool.and_eq_true_iff.mp spares).2
  | within enters _ ih => exact ih (enters.spares (Bool.and_eq_true_iff.mp spares).1)

theorem Evaluates.spares {c : Code} {e : Expr} {w u : World} (evaluates : Evaluates s c w e u)
    (spares : c.spares) : e.searches = false := by
  induction evaluates with
  | other _ _ ih =>
      simp only [Code.spares, Code.sparesOthers, Bool.and_eq_true] at spares ih
      obtain ⟨⟨_, ⟨hnext, hfirst⟩, hothers⟩, hotherwise⟩ := spares
      exact ih ⟨⟨⟨hnext, hfirst⟩, hothers⟩, hotherwise⟩
  | again _ _ _ ih => exact ih spares
  | output | condition | items | round | set | debug =>
      simp only [Code.spares, Bool.and_eq_true, Option.any_some, Bool.not_eq_true'] at spares
      simp only [spares]

theorem evaluate_isContainer {e : Expr} {v : Value} {w u : World} (container : e.isContainer)
    (run : (evaluate s e).run w = (.ok v, u)) (id : Nat) : v ≠ .loop id := by
  cases e with
  | list _ items =>
      obtain ⟨_, _, _, given⟩ := Step.run_bind_ok run
      cases given
      nofun
  | range _ first last =>
      obtain ⟨_, _, _, run⟩ := Step.run_bind_ok run
      obtain ⟨_, _, _, run⟩ := Step.run_bind_ok run
      obtain ⟨_, _, _, given⟩ := Step.run_bind_ok run
      cases given
      nofun
  | concat _ parts =>
      obtain ⟨_, _, _, given⟩ := Step.run_bind_ok run
      cases given
      nofun
  | _ => cases container

theorem Code.Asks.not_spares (idle : s.host.MovesNothing) {c : Code} {w : World} {id : Nat}
    (isAsked : c.Asks s w id) : ¬ c.spares := by
  intro spares
  cases isAsked with
  | search evaluates found =>
      rw [asks_eq_none idle _ (evaluates.spares spares)] at found
      exact found
  | items evaluated =>
      simp only [Code.spares, Bool.and_eq_true] at spares
      exact evaluate_isContainer spares.1.1.1.2 evaluated id rfl

/-- Code that passes the check binds `loop` nowhere, assigns it nowhere and asks no loop. -/
theorem undisturbed_of_spares (idle : s.host.MovesNothing) {code : List Code} {w : World}
    (spares : sparesAll code) :
    (∀ target tracked items body empty here,
      Reaches s code w (.loop target tracked items body empty) here → "loop" ∉ target.names) ∧
    (∀ here, ¬ Assigns s code w "loop" here) ∧ ∀ id, ¬ AsksAll s code w id := by
  refine ⟨fun target tracked items body empty here reached => ?_, ?_, ?_⟩
  · have checked := reached.spares spares
    simp only [Code.spares, Bool.and_eq_true, Bool.not_eq_true', List.contains_eq_mem,
      decide_eq_false_iff_not] at checked
    exact checked.1.1.1.1
  · rintro here ⟨value, reached⟩
    have checked := reached.spares spares
    simp [Code.spares] at checked
  · rintro id ⟨c, here, reached, isAsked⟩
    exact isAsked.not_spares idle (reached.spares spares)

end Stencil
