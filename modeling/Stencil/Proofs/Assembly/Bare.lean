import Stencil.Assembly.Assemble
import Stencil.Proofs.Assembly.Outline

namespace Stencil

namespace Code

mutual

/-- Code without its marks and without the places of its expressions. -/
def bare : Code → List Code
  | .text value => [.text value]
  | .mark _ => []
  | .output value escape => [.output value.erase escape]
  | .branch condition body others otherwise =>
      [.branch condition.erase (bareAll body) (bareOthers others) (bareAll otherwise)]
  | .loop target tracked items body empty =>
      [.loop target.erase tracked items.erase (bareAll body) (bareAll empty)]
  | .while condition body => [.while condition.erase (bareAll body)]
  | .set name value => [.set name value.erase]
  | .spaceless body => [.spaceless (bareAll body)]
  | .debug value label => [.debug (value.map Expr.erase) label]

def bareAll : List Code → List Code
  | [] => []
  | c :: rest => c.bare ++ bareAll rest

def bareOthers : List (Expr × List Code) → List (Expr × List Code)
  | [] => []
  | (condition, body) :: rest => (condition.erase, bareAll body) :: bareOthers rest

end

theorem bareAll_append (first second : List Code) :
    bareAll (first ++ second) = bareAll first ++ bareAll second := by
  induction first with
  | nil => rfl
  | cons c rest ih => rw [List.cons_append, bareAll, bareAll, ih, List.append_assoc]

theorem bareAll_singleton (c : Code) : bareAll [c] = c.bare := by
  rw [bareAll, bareAll, List.append_nil]

/-! What the check of code looks at is there in bare code, too. -/

theorem loopDepthAll_append (first second : List Code) :
    loopDepthAll (first ++ second) = max (loopDepthAll first) (loopDepthAll second) := by
  induction first with
  | nil => simp [loopDepthAll]
  | cons c rest ih => rw [List.cons_append, loopDepthAll, loopDepthAll, ih, Nat.max_assoc]

mutual

theorem loopDepth_bare : (c : Code) → loopDepthAll c.bare = c.loopDepth
  | .text _ | .mark _ | .output _ _ | .set _ _ | .debug _ _ => rfl
  | .branch _ body others otherwise => by
      simp [bare, loopDepthAll, loopDepth, loopDepth_bareAll body, loopDepth_bareOthers others,
        loopDepth_bareAll otherwise]
  | .loop _ _ _ body empty => by
      simp [bare, loopDepthAll, loopDepth, loopDepth_bareAll body, loopDepth_bareAll empty]
  | .while _ body => by simp [bare, loopDepthAll, loopDepth, loopDepth_bareAll body]
  | .spaceless body => by simp [bare, loopDepthAll, loopDepth, loopDepth_bareAll body]

theorem loopDepth_bareAll : (code : List Code) → loopDepthAll (bareAll code) = loopDepthAll code
  | [] => rfl
  | c :: rest => by
      rw [bareAll, loopDepthAll_append, loopDepth_bare c, loopDepth_bareAll rest, loopDepthAll]

theorem loopDepth_bareOthers :
    (others : List (Expr × List Code)) →
      loopDepthOthers (bareOthers others) = loopDepthOthers others
  | [] => rfl
  | (_, body) :: rest => by
      rw [bareOthers, loopDepthOthers, loopDepthOthers, loopDepth_bareAll body,
        loopDepth_bareOthers rest]

end

section AnyExpr

variable {q : Expr → Bool}

theorem anyExprAll_append (first second : List Code) :
    anyExprAll q (first ++ second) = (anyExprAll q first || anyExprAll q second) := by
  induction first with
  | nil => rfl
  | cons c rest ih => rw [List.cons_append, anyExprAll, anyExprAll, ih, Bool.or_assoc]

mutual

theorem anyExpr_bare (placeless : ∀ e, q e.erase = q e) :
    (c : Code) → anyExprAll q c.bare = c.anyExpr q
  | .text _ | .mark _ => rfl
  | .output _ _ | .set _ _ => by simp [bare, anyExprAll, anyExpr, placeless]
  | .debug value _ => by cases value <;> simp [bare, anyExprAll, anyExpr, placeless]
  | .branch _ body others otherwise => by
      simp [bare, anyExprAll, anyExpr, placeless, anyExpr_bareAll placeless body,
        anyExpr_bareOthers placeless others, anyExpr_bareAll placeless otherwise]
  | .loop _ _ _ body empty => by
      simp [bare, anyExprAll, anyExpr, placeless, anyExpr_bareAll placeless body,
        anyExpr_bareAll placeless empty]
  | .while _ body => by
      simp [bare, anyExprAll, anyExpr, placeless, anyExpr_bareAll placeless body]
  | .spaceless body => by simp [bare, anyExprAll, anyExpr, anyExpr_bareAll placeless body]

theorem anyExpr_bareAll (placeless : ∀ e, q e.erase = q e) :
    (code : List Code) → anyExprAll q (bareAll code) = anyExprAll q code
  | [] => rfl
  | c :: rest => by
      rw [bareAll, anyExprAll_append, anyExpr_bare placeless c, anyExpr_bareAll placeless rest,
        anyExprAll]

theorem anyExpr_bareOthers (placeless : ∀ e, q e.erase = q e) :
    (others : List (Expr × List Code)) →
      anyExprOthers q (bareOthers others) = anyExprOthers q others
  | [] => rfl
  | (condition, body) :: rest => by
      rw [bareOthers, anyExprOthers, anyExprOthers, placeless, anyExpr_bareAll placeless body,
        anyExpr_bareOthers placeless rest]

end

end AnyExpr

def innerLocals (target : Target) (tracked : Bool) (locals : List String) : List String :=
  target.names ++ (if tracked then ["loop"] else []) ++ locals

section Each

variable (P : (locals : List String) → Expr → Prop)

mutual

/-- Whether all expressions in code satisfy a property, which may depend on the loop variables
around them. -/
def Each (locals : List String) : Code → Prop
  | .text _ | .mark _ => True
  | .output value _ | .set _ value => P locals value
  | .branch condition body others otherwise =>
      P locals condition ∧ EachAll locals body ∧ EachOthers locals others ∧ EachAll locals otherwise
  | .loop target tracked items body empty =>
      P locals items ∧ EachAll (innerLocals target tracked locals) body ∧ EachAll locals empty
  | .while condition body => P locals condition ∧ EachAll locals body
  | .spaceless body => EachAll locals body
  | .debug value _ => ∀ e ∈ value, P locals e

def EachAll (locals : List String) : List Code → Prop
  | [] => True
  | c :: rest => Each locals c ∧ EachAll locals rest

def EachOthers (locals : List String) : List (Expr × List Code) → Prop
  | [] => True
  | (condition, body) :: rest => P locals condition ∧ EachAll locals body ∧ EachOthers locals rest

end

variable [decide : ∀ locals e, Decidable (P locals e)]

mutual

def decidableEach (locals : List String) : (c : Code) → Decidable (Each P locals c)
  | .text _ | .mark _ => isTrue trivial
  | .output value _ | .set _ value => decide locals value
  | .branch condition body others otherwise =>
      have := decide locals condition
      have := decidableEachAll locals body
      have := decidableEachOthers locals others
      have := decidableEachAll locals otherwise
      inferInstanceAs (Decidable (P locals condition ∧ EachAll P locals body ∧
        EachOthers P locals others ∧ EachAll P locals otherwise))
  | .loop target tracked items body empty =>
      have := decide locals items
      have := decidableEachAll (innerLocals target tracked locals) body
      have := decidableEachAll locals empty
      inferInstanceAs (Decidable (P locals items ∧
        EachAll P (innerLocals target tracked locals) body ∧ EachAll P locals empty))
  | .while condition body =>
      have := decide locals condition
      have := decidableEachAll locals body
      inferInstanceAs (Decidable (P locals condition ∧ EachAll P locals body))
  | .spaceless body => decidableEachAll locals body
  | .debug none _ => isTrue nofun
  | .debug (some e) _ =>
      have := decide locals e
      decidable_of_iff (P locals e) (by simp [Each])

def decidableEachAll (locals : List String) : (code : List Code) → Decidable (EachAll P locals code)
  | [] => isTrue trivial
  | c :: rest =>
      have := decidableEach locals c
      have := decidableEachAll locals rest
      inferInstanceAs (Decidable (Each P locals c ∧ EachAll P locals rest))

def decidableEachOthers (locals : List String) :
    (others : List (Expr × List Code)) → Decidable (EachOthers P locals others)
  | [] => isTrue trivial
  | (condition, body) :: rest =>
      have := decide locals condition
      have := decidableEachAll locals body
      have := decidableEachOthers locals rest
      inferInstanceAs
        (Decidable (P locals condition ∧ EachAll P locals body ∧ EachOthers P locals rest))

end

instance (locals : List String) (code : List Code) : Decidable (EachAll P locals code) :=
  decidableEachAll P locals code

end Each

variable {P : List String → Expr → Prop} {locals : List String}

theorem eachAll_append {first second : List Code} :
    EachAll P locals (first ++ second) ↔ EachAll P locals first ∧ EachAll P locals second := by
  induction first with
  | nil => simp [EachAll]
  | cons c rest ih => simp [EachAll, ih, and_assoc]

theorem eachAll_singleton {c : Code} : EachAll P locals [c] ↔ c.Each P locals := by
  simp [EachAll]

section Imp

variable {Q : List String → Expr → Prop}

mutual

theorem each_imp (weaker : ∀ locals e, P locals e → Q locals e) {locals : List String} :
    (c : Code) → c.Each P locals → c.Each Q locals
  | .text _, _ | .mark _, _ => trivial
  | .output value _, here | .set _ value, here => weaker locals value here
  | .branch condition body others otherwise, ⟨here, hbody, hothers, hotherwise⟩ =>
      ⟨weaker locals condition here, eachAll_imp weaker body hbody,
        eachOthers_imp weaker others hothers, eachAll_imp weaker otherwise hotherwise⟩
  | .loop _ _ items body empty, ⟨here, hbody, hempty⟩ =>
      ⟨weaker locals items here, eachAll_imp weaker body hbody, eachAll_imp weaker empty hempty⟩
  | .while condition body, ⟨here, hbody⟩ =>
      ⟨weaker locals condition here, eachAll_imp weaker body hbody⟩
  | .spaceless body, hbody => eachAll_imp weaker body hbody
  | .debug _ _, here => fun e given => weaker locals e (here e given)

theorem eachAll_imp (weaker : ∀ locals e, P locals e → Q locals e) {locals : List String} :
    (code : List Code) → EachAll P locals code → EachAll Q locals code
  | [], _ => trivial
  | c :: rest, ⟨here, further⟩ => ⟨each_imp weaker c here, eachAll_imp weaker rest further⟩

theorem eachOthers_imp (weaker : ∀ locals e, P locals e → Q locals e) {locals : List String} :
    (others : List (Expr × List Code)) → EachOthers P locals others → EachOthers Q locals others
  | [], _ => trivial
  | (condition, body) :: rest, ⟨here, hbody, further⟩ =>
      ⟨weaker locals condition here, eachAll_imp weaker body hbody,
        eachOthers_imp weaker rest further⟩

end

end Imp

mutual

theorem each_bare (placeless : ∀ locals e, P locals e.erase ↔ P locals e) {locals : List String} :
    (c : Code) → (EachAll P locals c.bare ↔ c.Each P locals)
  | .text _ => by simp [bare, EachAll, Each]
  | .mark _ => by simp [bare, EachAll, Each]
  | .output _ _ | .set _ _ => by simp [bare, EachAll, Each, placeless]
  | .debug value _ => by cases value <;> simp [bare, EachAll, Each, placeless]
  | .branch _ body others otherwise => by
      simp only [bare, EachAll, Each, placeless, each_bareAll placeless body,
        each_bareOthers placeless others, each_bareAll placeless otherwise, and_true]
  | .loop target _ _ body empty => by
      simp only [bare, EachAll, Each, innerLocals, placeless, Target.names_erase,
        each_bareAll placeless body, each_bareAll placeless empty, and_true]
  | .while _ body => by
      simp only [bare, EachAll, Each, placeless, each_bareAll placeless body, and_true]
  | .spaceless body => by simp only [bare, EachAll, Each, each_bareAll placeless body, and_true]

theorem each_bareAll (placeless : ∀ locals e, P locals e.erase ↔ P locals e)
    {locals : List String} :
    (code : List Code) → (EachAll P locals (bareAll code) ↔ EachAll P locals code)
  | [] => Iff.rfl
  | c :: rest => by
      rw [bareAll, eachAll_append, each_bare placeless c, each_bareAll placeless rest, EachAll]

theorem each_bareOthers (placeless : ∀ locals e, P locals e.erase ↔ P locals e)
    {locals : List String} :
    (others : List (Expr × List Code)) →
      (EachOthers P locals (bareOthers others) ↔ EachOthers P locals others)
  | [] => Iff.rfl
  | (condition, body) :: rest => by
      rw [bareOthers, EachOthers, EachOthers, placeless, each_bareAll placeless body,
        each_bareOthers placeless rest]

end

end Code

theorem checkCode_bareAll {filename : Option String} (code : List Code) :
    checkCode filename (Code.bareAll code) = checkCode filename code := by
  rw [checkCode, checkCode, Code.loopDepth_bareAll,
    Code.anyExpr_bareAll (Expr.namesArgument_erase "__debug__")]

end Stencil
