import Stencil.Environment.Render
import Stencil.Proofs.Render.Evaluate

namespace Stencil

open Value (Clean CleanEntries CleanNamed)
open Eval

namespace Fragment

mutual

def outputs : Fragment → List String
  | literal _ | dump _ => []
  | value text => [text]
  | compact parts => outputsOf parts

def outputsOf : List Fragment → List String
  | [] => []
  | f :: rest => f.outputs ++ outputsOf rest

end

theorem mem_outputsOf {text : String} {written : List Fragment} :
    text ∈ outputsOf written ↔ ∃ f ∈ written, text ∈ f.outputs := by
  induction written with
  | nil => simp [outputsOf]
  | cons f rest ih => simp [outputsOf, ih]

def Safe (f : Fragment) : Prop := ∀ text ∈ f.outputs, Html.Safe Html.filterTags text.toList

theorem safe_compact {parts : List Fragment} (safe : ∀ f ∈ parts, f.Safe) :
    (compact parts).Safe := by
  intro text member
  obtain ⟨f, isPart, written⟩ := mem_outputsOf.mp member
  exact safe f isPart text written

end Fragment

namespace Code

mutual

def Escapes : Code → Prop
  | .output _ escape => escape = true
  | .branch _ body others otherwise =>
      EscapesAll body ∧ EscapesOthers others ∧ EscapesAll otherwise
  | .loop _ _ _ body empty => EscapesAll body ∧ EscapesAll empty
  | .while _ body => EscapesAll body
  | .spaceless body => EscapesAll body
  | .text _ | .mark _ | .set _ _ | .debug _ _ => True

def EscapesAll : List Code → Prop
  | [] => True
  | c :: rest => c.Escapes ∧ EscapesAll rest

def EscapesOthers : List (Expr × List Code) → Prop
  | [] => True
  | (_, body) :: rest => EscapesAll body ∧ EscapesOthers rest

end

theorem escapesAll_append {first second : List Code} :
    EscapesAll (first ++ second) ↔ EscapesAll first ∧ EscapesAll second := by
  induction first with
  | nil => simp [EscapesAll]
  | cons c rest ih => simp [EscapesAll, ih, and_assoc]

end Code

/-! Repeated steps. -/

section Repeat

variable {α β : Type} {P : β → Prop}

theorem forall_mem_reverseAux {parts given : List β} (hparts : ∀ b ∈ parts, P b)
    (hgiven : ∀ b ∈ given, P b) : ∀ b ∈ parts.reverseAux given, P b := by
  intro b member
  rcases List.mem_reverseAux.mp member with isPart | isGiven
  · exact hparts b isPart
  · exact hgiven b isGiven

theorem forEach_keeps {step : α → Eval (List β)} {items : List α} {given : List β}
    (hstep : ∀ a ∈ items, Keeps (fun parts => ∀ b ∈ parts, P b) (step a))
    (hgiven : ∀ b ∈ given, P b) :
    Keeps (fun parts => ∀ b ∈ parts, P b) (forEach step items given) := by
  induction items generalizing given with
  | nil => exact .pure fun b member => hgiven b (List.mem_reverse.mp member)
  | cons a rest ih =>
      obtain ⟨here, further⟩ := List.forall_mem_cons.mp hstep
      apply here.bind
      intro parts hparts
      exact ih further (forall_mem_reverseAux hparts hgiven)

theorem whileWithin_keeps {condition : Eval Bool} {step : Eval (List β)} {rounds : Nat}
    {given : List β} (hcondition : Keeps (fun _ => True) condition)
    (hstep : Keeps (fun parts => ∀ b ∈ parts, P b) step) (hgiven : ∀ b ∈ given, P b) :
    Keeps (fun parts => ∀ b ∈ parts, P b) (whileWithin condition step rounds given) := by
  induction rounds generalizing given with
  | zero => exact .throw _
  | succ rounds ih =>
      apply hcondition.bind
      intro holds _
      split
      · apply hstep.bind
        intro parts hparts
        exact ih (forall_mem_reverseAux hparts hgiven)
      · exact .pure fun b member => hgiven b (List.mem_reverse.mp member)

end Repeat

/-! Loops and assignments. -/

theorem bindTarget_clean {target : Target} {item : Value} {w : World} (hitem : item.Clean)
    (clean : w.Clean) : (bindTarget target item w).Clean := by
  unfold bindTarget
  split
  · exact clean.setLocal _ hitem
  · have parts := Clean.tuple_iff.mp hitem
    exact (clean.setLocal _ (parts _ (by simp))).setLocal _ (parts _ (by simp))
  · exact clean

theorem loopBindings_clean (target : Target) {loop : Option Value} (hloop : ∀ v ∈ loop, v.Clean) :
    CleanNamed (loopBindings target loop) := by
  intro e member
  unfold loopBindings at member
  rcases List.mem_append.mp member with isTarget | isLoop
  · cases target with
    | one b =>
        cases List.mem_singleton.mp isTarget
        exact .null
    | pair k v =>
        simp only [List.mem_cons, List.not_mem_nil, or_false] at isTarget
        rcases isTarget with rfl | rfl <;> exact .null
  · obtain ⟨v, given, rfl⟩ := Option.map_eq_some_iff.mp (Option.mem_toList.mp isLoop)
    exact hloop v given

theorem enterLoop_keeps (target : Target) (tracked : Bool) {items : List Value}
    (all : ∀ v ∈ items, v.Clean) : Keeps (fun _ => True) (enterLoop target tracked items) := by
  refine Step.Ensures.get.bind fun w clean => ?_
  have bound : ∀ {loop : Option Value}, (∀ v ∈ loop, v.Clean) →
      CleanNamed (loopBindings target loop ++ w.locals) := by
    intro loop hloop
    exact List.forall_mem_append.mpr ⟨loopBindings_clean target hloop, clean.locals⟩
  split
  · have around : ((w.locals.lookup "loop").getD .null).Clean := by
      cases found : w.locals.lookup "loop" with
      | none => exact .null
      | some v => exact clean.locals.lookup found
    have entered := clean.pushLoop (l := .start items ((w.locals.lookup "loop").getD .null))
      ⟨all, around⟩
    exact (Step.Ensures.set (entered.setLocals (bound (by simp)))).bind fun _ _ => .pure trivial
  · exact (Step.Ensures.set (clean.setLocals (bound (by simp)))).bind fun _ _ => .pure trivial

theorem atItem_keeps (target : Target) (id : Option Nat) {item : Value} (index : Nat)
    (hitem : item.Clean) : Keeps (fun _ => True) (atItem target id item index) := by
  refine Step.Ensures.modify fun w clean => bindTarget_clean hitem ?_
  cases id with
  | none => exact clean
  | some id => exact clean.moveLoop id index

theorem leaveLoop_keeps (added : Nat) : Keeps (fun _ => True) (leaveLoop added) :=
  Step.Ensures.modify fun _ clean =>
    clean.setLocals fun e member => clean.locals e (List.mem_of_mem_drop member)

theorem assign_keeps (name : String) {v : Value} (hv : v.Clean) :
    Keeps (fun _ => True) (assign name v) := by
  refine Step.Ensures.modify fun w clean => ?_
  split
  · exact clean.setLocal name hv
  · exact clean.setVariable name hv

section Execute

variable {s : Setting}

theorem holds_keeps (tame : s.Tame) (condition : Expr) :
    Keeps (fun _ => True) (holds s condition) := by
  unfold holds
  split
  · apply Step.Ensures.get.bind
    intro w _
    split
    · exact .pure trivial
    · exact isSet_keeps _
  · apply (evaluate_keeps tame condition).bind
    intro v _
    exact .pure trivial

abbrev Writes (x : Eval (List Fragment)) : Prop := Keeps (fun written => ∀ f ∈ written, f.Safe) x

mutual

theorem execute_writes (tame : s.Tame) :
    (c : Code) → c.Escapes → Writes (execute s c)
  | .text value, _ => .pure (by simp [Fragment.Safe, Fragment.outputs])
  | .mark line, _ => by
      refine (Step.Ensures.modify fun _ clean => clean.setLine line).bind ?_
      intro done _
      exact .pure (by simp)
  | .output value true, _ => by
      apply (evaluate_keeps tame value).bind
      intro v hv
      apply Step.Ensures.get.bind
      intro w _
      apply Step.Ensures.pure
      simpa [Fragment.Safe, Fragment.outputs] using hv.safe_escape w.loopText
  | .branch condition body others otherwise, ⟨hbody, hothers, hotherwise⟩ => by
      apply (holds_keeps tame condition).bind
      intro holds _
      split
      · exact executeAll_writes tame body hbody
      · exact executeOthers_writes tame others hothers
          (executeAll_writes tame otherwise hotherwise)
  | .loop target tracked items body empty, ⟨hbody, hempty⟩ => by
      apply (evaluate_keeps tame items).bind
      intro v hv
      apply (Value.loopItems_keeps hv target.isPair).bind
      intro found all
      split
      · exact executeAll_writes tame empty hempty
      · apply (enterLoop_keeps target tracked all).bind
        intro entered _
        refine (forEach_keeps (P := Fragment.Safe) (fun e member => ?_) (by simp)).bind ?_
        · have isFound : e.1 ∈ found := List.fst_mem_of_mem_zipIdx member
          apply (atItem_keeps target entered.1 e.2 (all e.1 isFound)).bind
          intro done _
          exact executeAll_writes tame body hbody
        · intro written safe
          apply (leaveLoop_keeps entered.2).bind
          intro done _
          exact .pure safe
  | .while condition body, hbody =>
      whileWithin_keeps (holds_keeps tame condition)
        (executeAll_writes tame body hbody) (by simp)
  | .set name value, _ => by
      apply (evaluate_keeps tame value).bind
      intro v hv
      apply (assign_keeps name hv).bind
      intro done _
      exact .pure (by simp)
  | .spaceless body, hbody => by
      apply (executeAll_writes tame body hbody).bind
      intro written safe
      exact .pure (List.forall_mem_singleton.mpr (Fragment.safe_compact safe))
  | .debug value label, _ => by
      have dumped : ∀ v : Value, Writes (get >>= fun w =>
          pure [.dump (debugDump (World.loopText w) v label)]) := by
        intro v
        apply Step.Ensures.get.bind
        intro w _
        exact .pure (by simp [Fragment.Safe, Fragment.outputs])
      cases value with
      | some e => exact (evaluate_keeps tame e).bind fun v _ => dumped v
      | none =>
          -- The bind that only passes the context on is kept, or else the kernel compares the
          -- texts of the dumps.
          apply Step.Ensures.get.bind
          intro w _
          refine Step.Ensures.bind (Q := fun _ => True) (.pure trivial) fun v _ => ?_
          exact dumped v

theorem executeAll_writes (tame : s.Tame) :
    (code : List Code) → Code.EscapesAll code → Writes (executeAll s code)
  | [], _ => .pure (by simp)
  | c :: rest, ⟨here, further⟩ => by
      apply (execute_writes tame c here).bind
      intro written safe
      apply (executeAll_writes tame rest further).bind
      intro more safeMore
      exact .pure (List.forall_mem_append.mpr ⟨safe, safeMore⟩)

theorem executeOthers_writes (tame : s.Tame)
    {otherwise : Eval (List Fragment)} :
    (others : List (Expr × List Code)) → Code.EscapesOthers others → Writes otherwise →
      Writes (executeOthers s others otherwise)
  | [], _, hotherwise => hotherwise
  | (condition, body) :: rest, ⟨hbody, further⟩, hotherwise => by
      apply (holds_keeps tame condition).bind
      intro holds _
      split
      · exact executeAll_writes tame body hbody
      · exact executeOthers_writes tame rest further hotherwise

end

end Execute

end Stencil
