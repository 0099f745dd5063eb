import Stencil.Assembly.LoopUse
import Stencil.Proofs.Grammar.Printer

namespace Stencil.Expr

section Any

variable {q : Expr → Bool}

mutual

theorem any_erase (placeless : ∀ e, q e.erase = q e) : (e : Expr) → e.erase.any q = e.any q
  | .const p value => by
      have here := placeless (.const p value)
      rw [erase] at here ⊢
      rw [any, any, here]
  | .name p n => by
      have here := placeless (.name p n)
      rw [erase] at here ⊢
      rw [any, any, here]
  | .list p items => by
      have here := placeless (.list p items)
      rw [erase] at here ⊢
      rw [any, any, here, anyOf_erase placeless items]
  | .dict p entries => by
      have here := placeless (.dict p entries)
      rw [erase] at here ⊢
      rw [any, any, here, anyEntry_erase placeless entries]
  | .attr p object n => by
      have here := placeless (.attr p object n)
      rw [erase] at here ⊢
      rw [any, any, here, any_erase placeless object]
  | .item p object key => by
      have here := placeless (.item p object key)
      rw [erase] at here ⊢
      rw [any, any, here, any_erase placeless object, any_erase placeless key]
  | .call p callee args named => by
      have here := placeless (.call p callee args named)
      rw [erase] at here ⊢
      rw [any, any, here, any_erase placeless callee, anyOf_erase placeless args,
        anyNamed_erase placeless named]
  | .filter p value n args named => by
      have here := placeless (.filter p value n args named)
      rw [erase] at here ⊢
      rw [any, any, here, any_erase placeless value, anyOf_erase placeless args,
        anyNamed_erase placeless named]
  | .test p value n args negated => by
      have here := placeless (.test p value n args negated)
      rw [erase] at here ⊢
      rw [any, any, here, any_erase placeless value, anyOf_erase placeless args]
  | .arith p op left right => by
      have here := placeless (.arith p op left right)
      rw [erase] at here ⊢
      rw [any, any, here, any_erase placeless left, any_erase placeless right]
  | .sign p op operand => by
      have here := placeless (.sign p op operand)
      rw [erase] at here ⊢
      rw [any, any, here, any_erase placeless operand]
  | .compare p first links => by
      have here := placeless (.compare p first links)
      rw [erase] at here ⊢
      rw [any, any, here, any_erase placeless first, anyLink_erase placeless links]
  | .logic p op parts => by
      have here := placeless (.logic p op parts)
      rw [erase] at here ⊢
      rw [any, any, here, anyOf_erase placeless parts]
  | .choice p condition ifTrue ifFalse => by
      have here := placeless (.choice p condition ifTrue ifFalse)
      rw [erase] at here ⊢
      rw [any, any, here, any_erase placeless condition, any_erase placeless ifTrue,
        any_erase placeless ifFalse]
  | .range p first last => by
      have here := placeless (.range p first last)
      rw [erase] at here ⊢
      rw [any, any, here, any_erase placeless first, any_erase placeless last]
  | .concat p parts => by
      have here := placeless (.concat p parts)
      rw [erase] at here ⊢
      rw [any, any, here, anyOf_erase placeless parts]

theorem anyOf_erase (placeless : ∀ e, q e.erase = q e) :
    (es : List Expr) → anyOf q (eraseAll es) = anyOf q es
  | [] => rfl
  | e :: rest => by rw [eraseAll, anyOf, anyOf, any_erase placeless e, anyOf_erase placeless rest]

theorem anyNamed_erase (placeless : ∀ e, q e.erase = q e) :
    (named : List (String × Expr)) → anyNamed q (eraseNamed named) = anyNamed q named
  | [] => rfl
  | (_, e) :: rest => by
      rw [eraseNamed, anyNamed, anyNamed, any_erase placeless e, anyNamed_erase placeless rest]

theorem anyEntry_erase (placeless : ∀ e, q e.erase = q e) :
    (entries : List (Expr × Expr)) → anyEntry q (eraseEntries entries) = anyEntry q entries
  | [] => rfl
  | (key, e) :: rest => by
      rw [eraseEntries, anyEntry, anyEntry, any_erase placeless key, any_erase placeless e,
        anyEntry_erase placeless rest]

theorem anyLink_erase (placeless : ∀ e, q e.erase = q e) :
    (links : List (CompareOp × Expr)) → anyLink q (eraseLinks links) = anyLink q links
  | [] => rfl
  | (_, e) :: rest => by
      rw [eraseLinks, anyLink, anyLink, any_erase placeless e, anyLink_erase placeless rest]

end

end Any

section More

variable {q r : Expr → Bool}

mutual

theorem any_imp (more : ∀ e, q e = true → r e = true) :
    (e : Expr) → e.any q = true → e.any r = true
  | .const _ _, found | .name _ _, found => more _ found
  | .list _ items, found => by
      rw [any, Bool.or_eq_true] at found ⊢
      exact found.imp (more _) (anyOf_imp more items)
  | .dict _ entries, found => by
      rw [any, Bool.or_eq_true] at found ⊢
      exact found.imp (more _) (anyEntry_imp more entries)
  | .attr _ object _, found => by
      rw [any, Bool.or_eq_true] at found ⊢
      exact found.imp (more _) (any_imp more object)
  | .item _ object key, found => by
      simp only [any, Bool.or_eq_true] at found ⊢
      exact found.imp (Or.imp (more _) (any_imp more object)) (any_imp more key)
  | .call _ callee args named, found => by
      simp only [any, Bool.or_eq_true] at found ⊢
      exact found.imp (Or.imp (Or.imp (more _) (any_imp more callee)) (anyOf_imp more args))
        (anyNamed_imp more named)
  | .filter _ value _ args named, found => by
      simp only [any, Bool.or_eq_true] at found ⊢
      exact found.imp (Or.imp (Or.imp (more _) (any_imp more value)) (anyOf_imp more args))
        (anyNamed_imp more named)
  | .test _ value _ args _, found => by
      simp only [any, Bool.or_eq_true] at found ⊢
      exact found.imp (Or.imp (more _) (any_imp more value)) (anyOf_imp more args)
  | .arith _ _ left right, found => by
      simp only [any, Bool.or_eq_true] at found ⊢
      exact found.imp (Or.imp (more _) (any_imp more left)) (any_imp more right)
  | .sign _ _ operand, found => by
      rw [any, Bool.or_eq_true] at found ⊢
      exact found.imp (more _) (any_imp more operand)
  | .compare _ first links, found => by
      simp only [any, Bool.or_eq_true] at found ⊢
      exact found.imp (Or.imp (more _) (any_imp more first)) (anyLink_imp more links)
  | .logic _ _ parts, found => by
      rw [any, Bool.or_eq_true] at found ⊢
      exact found.imp (more _) (anyOf_imp more parts)
  | .choice _ condition ifTrue ifFalse, found => by
      simp only [any, Bool.or_eq_true] at found ⊢
      exact found.imp (Or.imp (Or.imp (more _) (any_imp more condition)) (any_imp more ifTrue))
        (any_imp more ifFalse)
  | .range _ first last, found => by
      simp only [any, Bool.or_eq_true] at found ⊢
      exact found.imp (Or.imp (more _) (any_imp more first)) (any_imp more last)
  | .concat _ parts, found => by
      rw [any, Bool.or_eq_true] at found ⊢
      exact found.imp (more _) (anyOf_imp more parts)

theorem anyOf_imp (more : ∀ e, q e = true → r e = true) :
    (es : List Expr) → anyOf q es = true → anyOf r es = true
  | [], found => nomatch found
  | e :: rest, found => by
      rw [anyOf, Bool.or_eq_true] at found ⊢
      exact found.imp (any_imp more e) (anyOf_imp more rest)

theorem anyNamed_imp (more : ∀ e, q e = true → r e = true) :
    (named : List (String × Expr)) → anyNamed q named = true → anyNamed r named = true
  | [], found => nomatch found
  | (_, e) :: rest, found => by
      rw [anyNamed, Bool.or_eq_true] at found ⊢
      exact found.imp (any_imp more e) (anyNamed_imp more rest)

theorem anyEntry_imp (more : ∀ e, q e = true → r e = true) :
    (entries : List (Expr × Expr)) → anyEntry q entries = true → anyEntry r entries = true
  | [], found => nomatch found
  | (key, e) :: rest, found => by
      simp only [anyEntry, Bool.or_eq_true] at found ⊢
      exact found.imp (Or.imp (any_imp more key) (any_imp more e)) (anyEntry_imp more rest)

theorem anyLink_imp (more : ∀ e, q e = true → r e = true) :
    (links : List (CompareOp × Expr)) → anyLink q links = true → anyLink r links = true
  | [], found => nomatch found
  | (_, e) :: rest, found => by
      rw [anyLink, Bool.or_eq_true] at found ⊢
      exact found.imp (any_imp more e) (anyLink_imp more rest)

end

end More

@[simp] theorem usesLoop_erase (e : Expr) : e.erase.usesLoop = e.usesLoop :=
  any_erase (fun e => by cases e <;> rw [erase]) e

@[simp] theorem namesArgument_erase (n : String) (e : Expr) :
    e.erase.namesArgument n = e.namesArgument n := by
  refine any_erase (fun e => ?_) e
  cases e <;> simp [erase, Function.comp_def]

end Stencil.Expr
