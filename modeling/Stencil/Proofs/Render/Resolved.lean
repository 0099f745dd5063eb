import Stencil.Environment.Render
import Stencil.Proofs.Render.Resolves

namespace Stencil

open Eval

/-- Whether all names that code looks up are registered, wherever they stand in it. -/
abbrev Code.RegisteredAll (r : Registries) (locals : List String) (code : List Code) : Prop :=
  EachAll (Expr.Registered r) locals code

namespace World

theorem localNames_inLoop (w : World) (target : Target) (tracked : Bool) (items : List Value) :
    (w.inLoop target tracked items).localNames =
      Code.innerLocals target tracked w.localNames := by
  cases target <;> cases tracked <;> rfl

theorem localNames_bindTarget {w : World} {target : Target} (item : Value)
    (bound : ∀ name ∈ target.names, name ∈ w.localNames) :
    (bindTarget target item w).localNames = w.localNames := by
  unfold bindTarget
  split
  · exact setLocal_names _ (bound _ (by simp [Target.names, Target.binders]))
  · next k v key value =>
      have first : (w.setLocal k.name key).localNames = w.localNames :=
        setLocal_names key (bound _ (by simp [Target.names, Target.binders]))
      refine Eq.trans (setLocal_names value ?_) first
      rw [← localNames, first]
      exact bound _ (by simp [Target.names, Target.binders])
  · rfl

end World

section Steps

variable {h : Host} {locals : List String}

theorem assign_resolves (name : String) (v : Value) : Resolves h locals (assign name v) := by
  apply Resolves.modify
  intro w _
  split
  · next isLocal =>
      obtain ⟨_, found⟩ := Option.isSome_iff_exists.mp isLocal
      exact World.setLocal_names v (mem_names_of_lookup found)
  · rfl

theorem atItem_resolves {target : Target} (bound : ∀ name ∈ target.names, name ∈ locals)
    (id : Option Nat) (item : Value) (index : Nat) :
    Resolves h locals (atItem target id item index) := by
  apply Resolves.modify
  rintro w rfl
  cases id with
  | none => exact World.localNames_bindTarget item bound
  | some id =>
      have moved : (w.moveLoop id index).localNames = w.localNames := by
        rw [World.localNames, World.moveLoop_locals, World.localNames]
      exact (World.localNames_bindTarget item (moved ▸ bound)).trans moved

/-- The rule for the rounds of a loop: they begin with its variables, which are gone behind it. -/
theorem loop_resolves {α : Type} {target : Target} {tracked : Bool} {items : List Value}
    {rounds : Option Nat × Nat → Eval α}
    (hrounds : ∀ entered, Resolves h (Code.innerLocals target tracked locals) (rounds entered)) :
    Resolves h locals (enterLoop target tracked items >>= fun entered =>
      rounds entered >>= fun a => leaveLoop entered.2 >>= fun _ => pure a) := by
  rintro w rfl
  have inside := hrounds (w.loopId? tracked, (w.loopVariables target tracked).length)
    (w.inLoop target tracked items) (w.localNames_inLoop target tracked items)
  rw [Step.run_bind, enterLoop_run]
  dsimp only
  rw [Step.run_bind]
  cases run : (rounds (w.loopId? tracked, (w.loopVariables target tracked).length)).run
      (w.inLoop target tracked items) with
  | mk result u =>
      rw [run] at inside
      cases result with
      | error fault => exact inside
      | ok a =>
          have names : (w.loopVariables target tracked).map (·.1) ++ w.localNames =
              u.localNames := by
            rw [inside, ← w.localNames_inLoop target tracked items]
            exact List.map_append.symm
          show (u.locals.drop (w.loopVariables target tracked).length).map (·.1) = w.localNames
          rw [List.map_drop, ← World.localNames, ← names, ← List.length_map (·.1), List.drop_left]

end Steps

section Execute

variable {s : Setting}

theorem holds_resolves {locals : List String} {condition : Expr}
    (known : condition.Registered s.registries locals) :
    Resolves s.host locals (holds s condition) := by
  unfold holds
  split
  · apply Resolves.getBind
    intro w _
    split
    · exact .pure _
    · exact .getBind fun _ _ => .pure _
  · exact (evaluate_resolves condition known).bind fun _ => .pure _

mutual

theorem execute_resolves {locals : List String} :
    (c : Code) → c.Each (Expr.Registered s.registries) locals →
      Resolves s.host locals (execute s c)
  | .text value, _ => .pure _
  | .mark line, _ => .bind (.modify fun _ _ => rfl) fun _ => .pure _
  | .output value escape, known => by
      apply (evaluate_resolves value known).bind
      intro v
      exact .getBind fun w _ => .pure _
  | .branch condition body others otherwise, ⟨hcondition, hbody, hothers, hotherwise⟩ => by
      apply (holds_resolves hcondition).bind
      intro holds
      split
      · exact executeAll_resolves body hbody
      · exact executeOthers_resolves others hothers (executeAll_resolves otherwise hotherwise)
  | .loop target tracked items body empty, ⟨hitems, hbody, hempty⟩ => by
      apply (evaluate_resolves items hitems).bind
      intro v
      apply (v.loopItems_resolves target.isPair).bind
      intro found
      split
      · exact executeAll_resolves empty hempty
      · refine loop_resolves fun entered => .forEach (fun e => ?_) found.zipIdx []
        refine (atItem_resolves (fun name isTarget => ?_) entered.1 e.1 e.2).bind fun _ =>
          executeAll_resolves body hbody
        rw [Code.innerLocals, List.append_assoc]
        exact List.mem_append_left _ isTarget
  | .while condition body, ⟨hcondition, hbody⟩ =>
      (holds_resolves hcondition).whileWithin (executeAll_resolves body hbody) mostRounds []
  | .set name value, known => by
      apply (evaluate_resolves value known).bind
      intro v
      exact (assign_resolves name v).bind fun _ => .pure _
  | .spaceless body, known => (executeAll_resolves body known).bind fun _ => .pure _
  | .debug value label, known => by
      have dumped : ∀ v : Value, Resolves s.host locals
          (get >>= fun w => pure [Fragment.dump (debugDump (World.loopText w) v label)]) :=
        fun v => .getBind fun w _ => .pure _
      cases value with
      | some e => exact (evaluate_resolves e (known e rfl)).bind dumped
      | none => exact .getBind fun w _ => (Resolves.pure _).bind dumped

theorem executeAll_resolves {locals : List String} :
    (code : List Code) → Code.RegisteredAll s.registries locals code →
      Resolves s.host locals (executeAll s code)
  | [], _ => .pure _
  | c :: rest, ⟨here, further⟩ => by
      apply (execute_resolves c here).bind
      intro written
      exact (executeAll_resolves rest further).bind fun _ => .pure _

theorem executeOthers_resolves {locals : List String} {otherwise : Eval (List Fragment)} :
    (others : List (Expr × List Code)) →
      Code.EachOthers (Expr.Registered s.registries) locals others →
      Resolves s.host locals otherwise →
      Resolves s.host locals (executeOthers s others otherwise)
  | [], _, hotherwise => hotherwise
  | (condition, body) :: rest, ⟨hcondition, hbody, further⟩, hotherwise => by
      apply (holds_resolves hcondition).bind
      intro holds
      split
      · exact executeAll_resolves body hbody
      · exact executeOthers_resolves rest further hotherwise

end

end Execute

theorem Setting.renderError_unknownName {s : Setting} {line : Nat} {fault : Fault} {n : UnknownName}
    (same : s.renderError line fault = .unknownName n) : fault = .diagnostic (.unknownName n) := by
  cases fault with
  | diagnostic d =>
      cases same
      rfl
  | _ => cases same

/-- Rendering code whose names are all registered refuses no name, unless the host does. -/
theorem renderCode_resolves {s : Setting} {code : List Code}
    (known : Code.RegisteredAll s.registries [] code) (context : Context)
    (generators : Array (List Value)) {n : UnknownName}
    (fails : (renderCode s code context generators).outcome = .error (.unknownName n)) :
    s.host.Answers (.diagnostic (.unknownName n)) := by
  have resolves := executeAll_resolves (s := s) code known (World.start context generators) rfl
  unfold renderCode at fails
  cases run : (executeAll s code).run (World.start context generators) with
  | mk result w =>
      rw [run] at fails resolves
      cases result with
      | ok written => cases fails
      | error fault =>
          obtain rfl := Setting.renderError_unknownName (Except.error.inj fails)
          exact resolves n rfl

end Stencil
