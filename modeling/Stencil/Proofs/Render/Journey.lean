import Stencil.Proofs.Render.Scope
import Stencil.Proofs.Render.Walk

namespace Stencil

open Eval

namespace Code

mutual

def marks : Code → List Nat
  | .mark line => [line]
  | .text _ | .output _ _ | .set _ _ | .debug _ _ => []
  | .branch _ body others otherwise => marksAll body ++ (marksOthers others ++ marksAll otherwise)
  | .loop _ _ _ body empty => marksAll body ++ marksAll empty
  | .while _ body | .spaceless body => marksAll body

def marksAll : List Code → List Nat
  | [] => []
  | c :: rest => c.marks ++ marksAll rest

def marksOthers : List (Expr × List Code) → List Nat
  | [] => []
  | (_, body) :: rest => marksAll body ++ marksOthers rest

end

theorem marksAll_append (first second : List Code) :
    marksAll (first ++ second) = marksAll first ++ marksAll second := by
  induction first with
  | nil => rfl
  | cons c rest ih => rw [List.cons_append, marksAll, ih, marksAll, List.append_assoc]

theorem marksAll_singleton (c : Code) : marksAll [c] = c.marks := by
  rw [marksAll, marksAll, List.append_nil]

theorem marksOthers_subset {lines : List Nat} {others : List (Expr × List Code)}
    (inside : ∀ part ∈ others.map Prod.snd, marksAll part ⊆ lines) :
    marksOthers others ⊆ lines := by
  induction others with
  | nil => exact List.nil_subset _
  | cons other rest ih =>
      obtain ⟨first, further⟩ := List.forall_mem_cons.mp inside
      rw [marksOthers, List.append_subset]
      exact ⟨first, ih further⟩

end Code

namespace World.Frame

variable {R : World → World → Prop} {α β : Type}

theorem forEach (frame : World.Frame R) {step : α → Eval (List β)}
    (hstep : ∀ a, Step.Follows R (step a)) (items : List α) (given : List β) :
    Step.Follows R (forEach step items given) := by
  induction items generalizing given with
  | nil => exact frame.pure _
  | cons a rest ih => exact frame.bind (hstep a) fun parts => ih _

theorem whileWithin (frame : World.Frame R) {condition : Eval Bool} {step : Eval (List β)}
    (hcondition : Step.Follows R condition) (hstep : Step.Follows R step) (rounds : Nat)
    (given : List β) : Step.Follows R (whileWithin condition step rounds given) := by
  induction rounds generalizing given with
  | zero => exact frame.throw _
  | succ rounds ih =>
      apply frame.bind hcondition
      intro answer
      cases answer with
      | true => exact frame.bind hstep fun parts => ih _
      | false => exact frame.pure _

end World.Frame

/-- Whether a relation of worlds allows for all that carrying out code changes, if the code marks
the given lines at most. -/
structure World.Journey (lines : List Nat) (R : World → World → Prop) : Prop
    extends World.Walk R where
  mark : ∀ w line, line ∈ lines → R w { w with line }
  locals : ∀ w locals, R w { w with locals }
  context : ∀ w context, R w { w with context }
  enter : ∀ w l, R w { w with loops := w.loops.push l }

section Execute

open Code

variable {s : Setting} {lines : List Nat} {R : World → World → Prop}

namespace World.Journey

theorem holds (journey : World.Journey lines R) (e : Expr) : Step.Follows R (holds s e) := by
  unfold Stencil.holds
  split
  · apply journey.bind journey.get
    intro w
    split
    · exact journey.pure _
    · exact journey.bind journey.get fun _ => journey.pure _
  · exact journey.bind (evaluate_follows journey.toWalk _) fun _ => journey.pure _

theorem loopItems (journey : World.Journey lines R) (v : Value) (pairs : Bool) :
    Step.Follows R (v.loopItems pairs) :=
  v.loopItems_follows journey.toFrame pairs fun id _ w i => journey.moves w id i

theorem enterLoop (journey : World.Journey lines R) (target : Target) (tracked : Bool)
    (items : List Value) : Step.Follows R (enterLoop target tracked items) := by
  intro w
  rw [enterLoop_run]
  cases tracked with
  | true => exact journey.trans (journey.enter w _) (journey.locals _ _)
  | false => exact journey.locals w _

theorem bindTarget (journey : World.Journey lines R) (target : Target) (item : Value) (w : World) :
    R w (bindTarget target item w) := by
  unfold Stencil.bindTarget
  split
  · exact journey.locals w _
  · exact journey.trans (journey.locals w _) (journey.locals _ _)
  · exact journey.refl w

theorem atItem (journey : World.Journey lines R) (target : Target) (id : Option Nat) (item : Value)
    (index : Nat) : Step.Follows R (atItem target id item index) := by
  intro w
  refine journey.trans ?_ (journey.bindTarget target item _)
  split
  · exact journey.moves w _ index
  · exact journey.refl w

theorem assign (journey : World.Journey lines R) (name : String) (v : Value) :
    Step.Follows R (assign name v) := by
  intro w
  show R w (if (w.locals.lookup name).isSome then w.setLocal name v
    else { w with context := w.context.set name v })
  split
  · exact journey.locals w _
  · exact journey.context w _

theorem loopStep (journey : World.Journey lines R) {body : List Code} (target : Target)
    (id : Option Nat) (hbody : Step.Follows R (executeAll s body)) (e : Value × Nat) :
    Step.Follows R (loopStep s target id body e) :=
  journey.bind (journey.atItem target id e.1 e.2) fun _ => hbody

theorem goThrough (journey : World.Journey lines R) {body empty : List Code} (target : Target)
    (tracked : Bool) (hbody : Step.Follows R (executeAll s body))
    (hempty : Step.Follows R (executeAll s empty)) (v : Value) : Step.Follows R (do
      let found ← v.loopItems target.isPair
      if found.isEmpty then executeAll s empty
      else
        let (id, added) ← Stencil.enterLoop target tracked found
        let written ← Eval.forEach (Stencil.loopStep s target id body) found.zipIdx []
        leaveLoop added
        return written) := by
  apply journey.bind (journey.loopItems v _)
  intro found
  split
  · exact hempty
  · apply journey.bind (journey.enterLoop target tracked found)
    intro entered
    apply journey.bind (journey.forEach (journey.loopStep target entered.1 hbody) found.zipIdx [])
    intro written
    exact journey.bind (fun w => journey.locals w _) fun _ => journey.pure written

end World.Journey

mutual

theorem execute_follows (journey : World.Journey lines R) :
    (c : Code) → c.marks ⊆ lines → Step.Follows R (execute s c)
  | .text value, _ => journey.pure _
  | .mark line, among => fun w => journey.mark w line (among List.mem_cons_self)
  | .output value escape, _ =>
      journey.bind (evaluate_follows journey.toWalk value) fun _ =>
        journey.bind journey.get fun _ => journey.pure _
  | .branch condition body others otherwise, among => by
      rw [marks, List.append_subset, List.append_subset] at among
      obtain ⟨inBody, inOthers, inOtherwise⟩ := among
      have hotherwise := executeAll_follows journey otherwise inOtherwise
      apply journey.bind (journey.holds condition)
      intro answer
      cases answer with
      | true => exact executeAll_follows journey body inBody
      | false => exact executeOthers_follows journey others inOthers hotherwise
  | .loop target tracked items body empty, among => by
      rw [marks, List.append_subset] at among
      exact journey.bind (evaluate_follows journey.toWalk items)
        (journey.goThrough target tracked (executeAll_follows journey body among.1)
          (executeAll_follows journey empty among.2))
  | .while condition body, among =>
      journey.whileWithin (journey.holds condition) (executeAll_follows journey body among) _ []
  | .set name value, _ =>
      journey.bind (evaluate_follows journey.toWalk value) fun v =>
        journey.bind (journey.assign name v) fun _ => journey.pure _
  | .spaceless body, among =>
      journey.bind (executeAll_follows journey body among) fun _ => journey.pure _
  | .debug (some e) label, _ =>
      journey.bind (evaluate_follows journey.toWalk e) fun _ =>
        journey.bind journey.get fun _ => journey.pure _
  | .debug none label, _ => fun w => journey.refl w

theorem executeAll_follows (journey : World.Journey lines R) :
    (code : List Code) → marksAll code ⊆ lines → Step.Follows R (executeAll s code)
  | [], _ => journey.pure _
  | c :: rest, among => by
      rw [marksAll, List.append_subset] at among
      apply journey.bind (execute_follows journey c among.1)
      intro written
      exact journey.bind (executeAll_follows journey rest among.2) fun _ => journey.pure _

theorem executeOthers_follows (journey : World.Journey lines R)
    {otherwise : Eval (List Fragment)} : (others : List (Expr × List Code)) →
      marksOthers others ⊆ lines → Step.Follows R otherwise →
        Step.Follows R (executeOthers s others otherwise)
  | [], _, hotherwise => hotherwise
  | (condition, body) :: rest, among, hotherwise => by
      rw [marksOthers, List.append_subset] at among
      apply journey.bind (journey.holds condition)
      intro answer
      cases answer with
      | true => exact executeAll_follows journey body among.1
      | false => exact executeOthers_follows journey rest among.2 hotherwise

end

end Execute

/-! The statements that code comes to. -/

section Reach

open Code

variable {s : Setting} {lines : List Nat} {R : World → World → Prop} {c : Code}
  {code part : List Code} {w u here there : World}

theorem Enters.follows (enters : Enters s c w part u) (journey : World.Journey lines R)
    (among : c.marks ⊆ lines) : R w u ∧ marksAll part ⊆ lines := by
  induction enters with
  | body held =>
      rw [marks, List.append_subset] at among
      exact ⟨(journey.holds _).after held, among.1⟩
  | other failed _ ih =>
      rw [marks, marksOthers, List.append_subset, List.append_assoc, List.append_subset] at among
      obtain ⟨further, inPart⟩ := ih (by rw [marks, List.append_subset]; exact among.2)
      exact ⟨journey.trans ((journey.holds _).after failed) further, inPart⟩
  | otherwise failed =>
      rw [marks, List.append_subset, List.append_subset] at among
      exact ⟨(journey.holds _).after failed, among.2.2⟩
  | empty evaluated listed =>
      rw [marks, List.append_subset] at among
      exact ⟨journey.trans ((evaluate_follows journey.toWalk _).after evaluated)
        ((journey.loopItems _ _).after listed), among.2⟩
  | @item target _ items body _ v found entered before _ e _ _ _ _ _ _ _ evaluated listed started _
      repeated bound =>
      rw [marks, List.append_subset] at among
      have rounds := journey.forEach (journey.loopStep (s := s) target entered.1
        (executeAll_follows journey body among.1)) before []
      have listing := journey.trans ((evaluate_follows journey.toWalk _).after evaluated)
        ((journey.loopItems _ _).after listed)
      have entering := journey.trans listing ((journey.enterLoop _ _ _).after started)
      have repeating := journey.trans entering (rounds.after repeated)
      exact ⟨journey.trans repeating ((journey.atItem _ _ _ _).after bound), among.1⟩
  | round held => exact ⟨(journey.holds _).after held, among⟩
  | again held carriedOut _ ih =>
      obtain ⟨further, inPart⟩ := ih among
      have round := journey.trans ((journey.holds _).after held)
        ((executeAll_follows journey _ among).after carriedOut)
      exact ⟨journey.trans round further, inPart⟩
  | spaceless => exact ⟨journey.refl _, among⟩

theorem Reaches.follows (reaches : Reaches s code w c here) (journey : World.Journey lines R)
    (among : marksAll code ⊆ lines) : R w here ∧ c.marks ⊆ lines := by
  induction reaches with
  | first =>
      rw [marksAll, List.append_subset] at among
      exact ⟨journey.refl _, among.1⟩
  | further run _ ih =>
      rw [marksAll, List.append_subset] at among
      obtain ⟨further, inside⟩ := ih among.2
      exact ⟨journey.trans ((execute_follows journey _ among.1).after run) further, inside⟩
  | within enters _ ih =>
      rw [marksAll, List.append_subset] at among
      obtain ⟨entered, inPart⟩ := enters.follows journey among.1
      obtain ⟨further, inside⟩ := ih inPart
      exact ⟨journey.trans entered further, inside⟩

theorem Evaluates.follows {e : Expr} (evaluates : Evaluates s c here e there)
    (journey : World.Journey lines R) (among : c.marks ⊆ lines) : R here there := by
  induction evaluates with
  | output | condition | items | round | set | debug => exact journey.refl _
  | other failed _ ih =>
      rw [marks, marksOthers, List.append_subset, List.append_assoc, List.append_subset] at among
      exact journey.trans ((journey.holds _).after failed)
        (ih (by rw [marks, List.append_subset]; exact among.2))
  | again held carriedOut _ ih =>
      have round := journey.trans ((journey.holds _).after held)
        ((executeAll_follows journey _ among).after carriedOut)
      exact journey.trans round (ih among)

end Reach

end Stencil
