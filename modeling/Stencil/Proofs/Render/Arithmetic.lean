import Stencil.Proofs.Render.Scope

/-!
Arithmetic with what is missing. A missing operand makes the whole of an arithmetic expression
missing, and nothing is written for it, unless a value to the left of the operand takes the operator
over: text fills in its conversions, and markup joins only text.
-/

namespace Stencil

namespace Value

/-- Whether a value is one that templates compute with: no bytes, and none of the means by which
values are called or gone through. -/
def isOrdinary : Value → Bool
  | bytes _ | view _ _ | function _ | method _ _ | loop _ | generator _ => false
  | _ => true

/-- Whether a value, to the left of an operator, deals with a missing operand by itself. -/
def takesOver : ArithOp → Value → Bool
  | .mod, str _ | .mod, markup _ | .add, markup _ => true
  | _, _ => false

end Value

open Value (takesOver)

namespace ArithOp

theorem apply_undefined_left (op : ArithOp) (loopText : Nat → List Char) (v : Value) :
    op.apply loopText .undefined v = .ok .undefined := by
  cases op <;> rfl

theorem apply_undefined_right {op : ArithOp} {v : Value} (gives : takesOver op v = false)
    (loopText : Nat → List Char) : op.apply loopText v .undefined = .ok .undefined := by
  cases op with
  | sub | mul | div => cases v <;> rfl
  | add | mod => cases v <;> first | rfl | cases gives

theorem apply_ne_undefined {op : ArithOp} {v : Value} (takes : takesOver op v = true)
    (loopText : Nat → List Char) : op.apply loopText v .undefined ≠ .ok .undefined := by
  have text : ∀ {cs : Except Fault (List Char)} {f : List Char → Value},
      (∀ cs, f cs ≠ .undefined) → cs.map f ≠ .ok .undefined := by
    intro cs f isText missing
    cases cs with
    | error fault => cases missing
    | ok cs => exact isText cs (Except.ok.inj missing)
  cases op with
  | sub | mul | div => cases takes
  | add =>
      cases v with
      | markup x => exact nofun
      | _ => cases takes
  | mod =>
      cases v with
      | str x => exact text fun _ => nofun
      | markup x =>
          refine text fun cs => ?_
          split <;> exact nofun
      | _ => cases takes

theorem apply_undefined_iff (op : ArithOp) (loopText : Nat → List Char) (v : Value) :
    op.apply loopText v .undefined = .ok .undefined ↔ takesOver op v = false := by
  refine ⟨fun missing => ?_, fun gives => apply_undefined_right gives loopText⟩
  cases takes : takesOver op v with
  | false => rfl
  | true => exact absurd missing (apply_ne_undefined takes loopText)

end ArithOp

theorem SignOp.apply_undefined {op : SignOp} (arithmetic : op ≠ .not) :
    op.apply .undefined = .ok .undefined := by
  cases op with
  | not => exact absurd rfl arithmetic
  | neg | pos => rfl

/-- Whether an arithmetic expression has a missing operand while all of its others are evaluated,
on the way from one world to another. No value to the left of the part that lacks an operand takes
the operator over. -/
inductive Lacks (s : Setting) : Expr → World → World → Prop
  | operand {e : Expr} {w u : World} (missing : (evaluate s e).run w = (.ok .undefined, u)) :
      Lacks s e w u
  | left {p : Pos} {op : ArithOp} {left right : Expr} {b : Value} {w m u : World}
      (lacks : Lacks s left w m) (evaluated : (evaluate s right).run m = (.ok b, u)) :
      Lacks s (.arith p op left right) w u
  | right {p : Pos} {op : ArithOp} {left right : Expr} {a : Value} {w m u : World}
      (evaluated : (evaluate s left).run w = (.ok a, m)) (ordinary : a.isOrdinary)
      (gives : takesOver op a = false) (lacks : Lacks s right m u) :
      Lacks s (.arith p op left right) w u
  | sign {p : Pos} {op : SignOp} {operand : Expr} {w u : World} (arithmetic : op ≠ .not)
      (lacks : Lacks s operand w u) : Lacks s (.sign p op operand) w u

variable {s : Setting} {e : Expr} {w u : World}

theorem run_arith {p : Pos} {op : ArithOp} {left right : Expr} {a b : Value} {m : World}
    (first : (evaluate s left).run w = (.ok a, m))
    (second : (evaluate s right).run m = (.ok b, u)) :
    (evaluate s (.arith p op left right)).run w = (op.apply u.loopText a b, u) := by
  rw [evaluate, Step.run_bind, first]
  dsimp only
  rw [Step.run_bind, second]
  rfl

theorem Lacks.undefined (lacks : Lacks s e w u) : (evaluate s e).run w = (.ok .undefined, u) := by
  induction lacks with
  | operand missing => exact missing
  | left _ evaluated ih => rw [run_arith ih evaluated, ArithOp.apply_undefined_left]
  | right evaluated _ gives _ ih =>
      rw [run_arith evaluated ih, ArithOp.apply_undefined_right gives]
  | sign arithmetic _ ih =>
      rw [evaluate, Step.run_bind, ih]
      dsimp only
      rw [SignOp.apply_undefined arithmetic]
      rfl

theorem output_undefined (missing : (evaluate s e).run w = (.ok .undefined, u)) (escape : Bool) :
    (execute s (.output e escape)).run w = (.ok [.value ""], u) := by
  rw [execute, Step.run_bind, missing]
  cases escape <;> rfl

/-- A missing operand to the left of an operator makes the result missing; one to the right does so
unless the value to its left takes the operator over. So an arithmetic expression that lacks an
operand is missing, and nothing is written for it. -/
theorem missing_absorbs (s : Setting) :
    (∀ (op : ArithOp) (loopText : Nat → List Char) (v : Value),
      op.apply loopText .undefined v = .ok .undefined) ∧
    (∀ (op : ArithOp) (loopText : Nat → List Char) (v : Value), v.isOrdinary →
      (op.apply loopText v .undefined = .ok .undefined ↔ takesOver op v = false)) ∧
    (SignOp.neg.apply .undefined = .ok .undefined ∧ SignOp.pos.apply .undefined = .ok .undefined) ∧
    ∀ e w u, Lacks s e w u → (evaluate s e).run w = (.ok .undefined, u) ∧
      ∀ escape, (execute s (.output e escape)).run w = (.ok [.value ""], u) := by
  refine ⟨ArithOp.apply_undefined_left, fun op loopText v _ => op.apply_undefined_iff loopText v,
    ⟨rfl, rfl⟩, fun e w u lacks => ?_⟩
  exact ⟨lacks.undefined, output_undefined lacks.undefined⟩

/-! A list repeated as often as a missing value says, and markup before a missing value. -/

def shortened : Expr :=
  .arith .start .sub
    (.arith .start .mul (.list .start [.const .start (.nat 1)]) (.name .start "missing"))
    (.const .start (.nat 2))

theorem missing_absorbs_shortened : ∃ u,
    Lacks plainSetting shortened (World.start ⟨[], []⟩ #[]) u ∧ Value.isOrdinary (.list [.int 1]) ∧
      (evaluate plainSetting shortened).run (World.start ⟨[], []⟩ #[]) = (.ok .undefined, u) ∧
      (execute plainSetting (.output shortened true)).run (World.start ⟨[], []⟩ #[]) =
        (.ok [.value ""], u) ∧
      ArithOp.mul.apply (fun _ => []) (.list [.int 1]) .undefined = .ok .undefined := by
  obtain ⟨_, right, _, whole⟩ := missing_absorbs plainSetting
  have lacks : Lacks plainSetting shortened (World.start ⟨[], []⟩ #[]) _ :=
    .left (.right (a := .list [.int 1]) rfl rfl rfl (.operand rfl)) (b := .int 2) rfl
  obtain ⟨missing, nothing⟩ := whole _ _ _ lacks
  exact ⟨_, lacks, rfl, missing, nothing true, (right .mul _ (.list [.int 1]) rfl).mpr rfl⟩

/-- Markup refuses to be joined to what is missing. -/
theorem markup_refuses_missing : ¬ ∀ (s : Setting) (p : Pos) (op : ArithOp) (left right : Expr)
    (a : Value) (w m u : World), (evaluate s left).run w = (.ok a, m) → a.isOrdinary →
      (evaluate s right).run m = (.ok .undefined, u) →
      (evaluate s (.arith p op left right)).run w = (.ok .undefined, u) := by
  intro absorbs
  have joined := absorbs plainSetting .start .add
    (.filter .start (.const .start (.string "x")) "escape" [] []) (.name .start "missing")
    (.markup "x") (World.start ⟨[], []⟩ #[]) _ _ rfl rfl rfl
  cases joined

end Stencil
