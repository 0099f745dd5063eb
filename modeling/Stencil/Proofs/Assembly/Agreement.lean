import Stencil.Proofs.Assembly.Reads
import Stencil.Proofs.Assembly.Registered

namespace Stencil

section Search

variable {include₁ include₂ : String → Except Fault Bool}

open Stmt

mutual

/-- The search of statements asks for nothing but the templates that they include. -/
theorem usesLoop_congr :
    (s : Stmt) → (∀ pos name, .include pos name ∈ s.leaves → include₁ name = include₂ name) →
      Stmt.usesLoop include₁ s = Stmt.usesLoop include₂ s
  | .text _ _, _ => rfl
  | .output _ _ _, _ => rfl
  | .set _ _ _, _ => rfl
  | .debug _ _ _, _ => rfl
  | .include pos name, same => by
      rw [Stmt.usesLoop, Stmt.usesLoop]
      exact same pos name (List.mem_singleton.mpr rfl)
  | .branch _ _ body others otherwise, same => by
      simp only [leaves, List.mem_append] at same
      rw [Stmt.usesLoop, Stmt.usesLoop,
        anyUsesLoop_congr body fun pos name member => same pos name (.inl member),
        othersUseLoop_congr others fun pos name member => same pos name (.inr (.inl member)),
        anyUsesLoop_congr otherwise fun pos name member => same pos name (.inr (.inr member))]
  | .loop _ _ _ body empty, same => by
      simp only [leaves, List.mem_append] at same
      rw [Stmt.usesLoop, Stmt.usesLoop,
        anyUsesLoop_congr body fun pos name member => same pos name (.inl member),
        anyUsesLoop_congr empty fun pos name member => same pos name (.inr member)]
  | .while _ _ body, same => by
      rw [Stmt.usesLoop, Stmt.usesLoop, anyUsesLoop_congr body same]
  | .block _ _ body, same => by
      rw [Stmt.usesLoop, Stmt.usesLoop, anyUsesLoop_congr body same]
  | .spaceless _ body, same => by
      rw [Stmt.usesLoop, Stmt.usesLoop, anyUsesLoop_congr body same]

theorem anyUsesLoop_congr :
    (body : List Stmt) →
      (∀ pos name, .include pos name ∈ leavesOf body → include₁ name = include₂ name) →
      Stmt.anyUsesLoop include₁ body = Stmt.anyUsesLoop include₂ body
  | [], _ => rfl
  | s :: rest, same => by
      simp only [leavesOf, List.mem_append] at same
      rw [Stmt.anyUsesLoop, Stmt.anyUsesLoop,
        usesLoop_congr s fun pos name member => same pos name (.inl member),
        anyUsesLoop_congr rest fun pos name member => same pos name (.inr member)]

theorem othersUseLoop_congr :
    (others : List (Expr × List Stmt)) →
      (∀ pos name, .include pos name ∈ leavesOfOthers others → include₁ name = include₂ name) →
      Stmt.othersUseLoop include₁ others = Stmt.othersUseLoop include₂ others
  | [], _ => rfl
  | (_, body) :: rest, same => by
      simp only [leavesOfOthers, List.mem_append] at same
      rw [Stmt.othersUseLoop, Stmt.othersUseLoop,
        anyUsesLoop_congr body fun pos name member => same pos name (.inl member),
        othersUseLoop_congr rest fun pos name member => same pos name (.inr member)]

end

end Search

namespace Assembly

variable {α β : Type}

def Carries (R : Trail → Trail → Prop) (x y : Assembly α) : Prop := Step.Carries R x y

section Carries

variable {R : Trail → Trail → Prop}

theorem Carries.bind {x y : Assembly α} {f g : α → Assembly β} (hxy : Carries R x y)
    (hfg : ∀ a, Carries R (f a) (g a)) : Carries R (x >>= f) (y >>= g) :=
  Step.Carries.bind hxy hfg

theorem Carries.pure (a : α) : Carries R (Pure.pure a) (Pure.pure a) := Step.Carries.pure a

theorem Carries.ofExcept {x y : Except Fault α} (h : ∀ a, x = .ok a → y = .ok a) :
    Carries R (ofExcept x) (ofExcept y) :=
  Step.Carries.mk_pure h

theorem Carries.noteFiles {files files' : List String}
    (h : ∀ t u : Trail, R t u →
      R { t with files := t.files ++ files } { u with files := u.files ++ files' }) :
    Carries R (noteFiles files) (noteFiles files') :=
  Step.Carries.modify h

end Carries

end Assembly

section Assemble

open Assembly Stmt

variable {p q : Plan} {template template' : Option String} {R : Trail → Trail → Prop}

/-- Whether the includes of a place expand in another place to what they expand to here. -/
structure Place.Carries (R : Trail → Trail → Prop) (p q : Plan) (place place' : Place)
    (name : String) : Prop where
  expand : ∀ locals, Assembly.Carries R (place.expand locals name) (place'.expand locals name)
  search : p.includeUsesLoop p.searchRounds [] name = q.includeUsesLoop q.searchRounds [] name

variable {included : Bool} {expand expand' : List String → String → Assembly (List Code)}

theorem checkExpr_carries (hregistries : q.registries = p.registries) {locals : List String}
    (e : Expr) :
    Carries R (Assembly.ofExcept (checkExpr p.registries template locals e))
      (Assembly.ofExcept (checkExpr q.registries template' locals e)) := by
  rw [hregistries]
  refine .ofExcept fun _ passed => ?_
  exact (checkExpr_ok_iff e).mpr ((checkExpr_ok_iff e).mp passed)

mutual

theorem assemble_carries (hregistries : q.registries = p.registries) {locals : List String} :
    (s : Stmt) →
      (∀ pos name, .include pos name ∈ s.leaves →
        Place.Carries R p q ⟨included, expand⟩ ⟨included, expand'⟩ name) →
      Carries R (assemble p template ⟨included, expand⟩ locals s)
        (assemble q template' ⟨included, expand'⟩ locals s)
  | .text _ _, _ => by
      rw [assemble, assemble]
      exact .pure _
  | .output _ value _, _ => by
      rw [assemble, assemble]
      exact .bind (checkExpr_carries hregistries value) fun _ => .pure _
  | .branch _ condition body others otherwise, same => by
      simp only [leaves, List.mem_append] at same
      rw [assemble, assemble]
      refine .bind (assembleAll_carries hregistries body
        fun pos name member => same pos name (.inl member)) fun _ => ?_
      refine .bind (assembleAll_carries hregistries otherwise
        fun pos name member => same pos name (.inr (.inr member))) fun _ => ?_
      refine .bind (checkExpr_carries hregistries condition) fun _ => ?_
      refine .bind (assembleOthers_carries hregistries others
        fun pos name member => same pos name (.inr (.inl member))) fun _ => ?_
      exact .pure _
  | .loop _ _ items body empty, same => by
      simp only [leaves, List.mem_append] at same
      have searched : p.bodyUsesLoop body = q.bodyUsesLoop body :=
        anyUsesLoop_congr body fun pos name member => (same pos name (.inl member)).search
      rw [assemble, assemble, searched]
      refine .bind (.ofExcept fun _ found => found) fun _ => ?_
      refine .bind (checkExpr_carries hregistries items) fun _ => ?_
      refine .bind (assembleAll_carries hregistries body
        fun pos name member => same pos name (.inl member)) fun _ => ?_
      refine .bind (assembleAll_carries hregistries empty
        fun pos name member => same pos name (.inr member)) fun _ => ?_
      exact .pure _
  | .while _ condition body, same => by
      rw [assemble, assemble]
      refine .bind (assembleAll_carries hregistries body same) fun _ => ?_
      exact .bind (checkExpr_carries hregistries condition) fun _ => .pure _
  | .block _ _ body, same => by
      rw [assemble, assemble]
      exact assembleAll_carries hregistries body same
  | .include pos name, same => by
      rw [assemble, assemble]
      refine .bind ((same pos name (List.mem_singleton.mpr rfl)).expand locals) fun _ => ?_
      exact .pure _
  | .set _ _ value, _ => by
      rw [assemble, assemble]
      exact .bind (checkExpr_carries hregistries value) fun _ => .pure _
  | .spaceless _ body, same => by
      rw [assemble, assemble]
      exact .bind (assembleAll_carries hregistries body same) fun _ => .pure _
  | .debug _ none _, _ => by
      rw [assemble, assemble]
      exact .pure _
  | .debug _ (some value) _, _ => by
      rw [assemble, assemble]
      exact .bind (checkExpr_carries hregistries value) fun _ => .pure _

theorem assembleAll_carries (hregistries : q.registries = p.registries) {locals : List String} :
    (body : List Stmt) →
      (∀ pos name, .include pos name ∈ leavesOf body →
        Place.Carries R p q ⟨included, expand⟩ ⟨included, expand'⟩ name) →
      Carries R (assembleAll p template ⟨included, expand⟩ locals body)
        (assembleAll q template' ⟨included, expand'⟩ locals body)
  | [], _ => by
      rw [assembleAll, assembleAll]
      exact .pure _
  | s :: rest, same => by
      simp only [leavesOf, List.mem_append] at same
      rw [assembleAll, assembleAll]
      refine .bind (assemble_carries hregistries s
        fun pos name member => same pos name (.inl member)) fun _ => ?_
      refine .bind (assembleAll_carries hregistries rest
        fun pos name member => same pos name (.inr member)) fun _ => ?_
      exact .pure _

theorem assembleOthers_carries (hregistries : q.registries = p.registries) {locals : List String} :
    (others : List (Expr × List Stmt)) →
      (∀ pos name, .include pos name ∈ leavesOfOthers others →
        Place.Carries R p q ⟨included, expand⟩ ⟨included, expand'⟩ name) →
      Carries R (assembleOthers p template ⟨included, expand⟩ locals others)
        (assembleOthers q template' ⟨included, expand'⟩ locals others)
  | [], _ => by
      rw [assembleOthers, assembleOthers]
      exact .pure _
  | (condition, body) :: rest, same => by
      simp only [leavesOfOthers, List.mem_append] at same
      rw [assembleOthers, assembleOthers]
      refine .bind (checkExpr_carries hregistries condition) fun _ => ?_
      refine .bind (assembleAll_carries hregistries body
        fun pos name member => same pos name (.inl member)) fun _ => ?_
      refine .bind (assembleOthers_carries hregistries rest
        fun pos name member => same pos name (.inr member)) fun _ => ?_
      exact .pure _

end

end Assemble

end Stencil
