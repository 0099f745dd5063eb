import Mathlib.Logic.Function.Basic
import Stencil.Proofs.Render.Hushed
import Stencil.Proofs.Render.Scope
import Stencil.Render.Function

namespace Stencil

open Eval

/-! Of the variables of loops an expression only needs what names stand for. -/

def ByName {α : Type} (x : Eval α) : Prop :=
  ∀ (w : World) locals, (∀ name, locals.lookup name = w.locals.lookup name) →
    x.run { w with locals } = ((x.run w).1, { (x.run w).2 with locals })

theorem Blind.byName {α : Type} {x : Eval α} (blind : Blind x) : ByName x := fun w locals _ =>
  (blind w w.quiet w.references locals).trans
    (by rw [← blind.quiet w, ← blind.references w])

namespace ByName

variable {α β : Type}

theorem locals {x : Eval α} (byName : ByName x) (w : World) : (x.run w).2.locals = w.locals :=
  congrArg (fun ended => ended.2.locals) (byName w w.locals fun _ => rfl)

theorem pure (a : α) : ByName (Pure.pure a : Eval α) := (Blind.pure a).byName

theorem bind {x : Eval α} {f : α → Eval β} (hx : ByName x) (hf : ∀ a, ByName (f a)) :
    ByName (x >>= f) := by
  intro w locals same
  have kept := hx.locals w
  rw [Step.run_bind, Step.run_bind, hx w locals same]
  generalize x.run w = ended at kept ⊢
  obtain ⟨fault | a, m⟩ := ended
  · rfl
  · exact hf a m locals fun name => kept ▸ same name

theorem getBind {f : World → Eval β} (hf : ∀ w, ByName (f w))
    (same : ∀ (w : World) locals, (∀ name, locals.lookup name = w.locals.lookup name) →
      f { w with locals } = f w) : ByName (MonadState.get >>= f) := by
  intro w locals named
  show (f { w with locals }).run { w with locals } = _
  rw [same w locals named]
  exact hf w w locals named

theorem quietly {x : Eval α} (hx : ByName x) : ByName (quietly x) := by
  intro w locals same
  have inside := hx { w with quiet := w.quiet + 1 } locals same
  rw [run_quietly, run_quietly]
  exact congrArg (fun ended : Except Fault α × World =>
    (ended.1, { ended.2 with quiet := ended.2.quiet - 1 })) inside

end ByName

section Evaluate

variable {s : Setting}

namespace Setting

theorem missing_byName (name message : String) : ByName (s.missing name message) := by
  intro w locals _
  rw [missing_run, missing_run, afterMiss, afterMiss]
  dsimp only
  split <;> rfl

theorem lookup_byName (name : String) : ByName (s.lookup name) := by
  refine .getBind (fun w => ?_) fun _ _ _ => rfl
  split
  · exact .pure _
  · exact missing_byName _ _

theorem variableOf_byName (name : String) : ByName (s.variableOf name) := by
  refine .getBind (fun w => ?_) fun w locals same => ?_
  · split
    · exact .pure _
    · exact lookup_byName name
  · dsimp only
    rw [same]

theorem access_byName (v key : Value) : ByName (s.access v key) := by
  unfold access
  split
  · exact .pure _
  · refine .getBind (fun w => ?_) fun _ _ _ => rfl
    split
    · exact .pure _
    · exact missing_byName _ _

end Setting

theorem Head.Acts.byName {f : Head} {β : Type} {x : Eval β} (acts : f.Acts s x) : ByName x := by
  cases acts with
  | looksUp => exact s.variableOf_byName _
  | takesPart | takesItem => exact s.access_byName _ _
  | callsLocal | callsValue => exact (s.callValue_blind _ _).byName
  | callsFunction => exact (s.callFunction_blind _ _).byName
  | filters => exact (s.callFilter_blind _ _ _).byName
  | tests => exact (s.callTest_blind _ _ _).byName

theorem Orderly.byName {f : Head} {k : Nat} {r : Routine Value} {operands : List (Eval Value)}
    (orderly : Orderly s f k r) (answers : ∀ quiet i, ByName (Routine.answer operands quiet i)) :
    ByName (r.eval operands) := by
  induction orderly with
  | done _ => exact .pure _
  | silent _ blind _ ih => exact blind.byName.bind ih
  | look same _ ih =>
      exact .getBind ih fun w locals named => congrArg _ (same w w.quiet w.references locals named)
  | own value acts _ => exact acts.byName.bind fun _ => .pure _
  | ask _ _ _ _ ih => exact (answers _ _).bind ih

theorem evaluate_byName (s : Setting) (e : Expr) : ByName (evaluate s e) := by
  induction e using Expr.operandInduction with
  | step e ih =>
      rw [evaluate_eq_eval]
      refine (e.head.routine_orderly s).byName fun quiet i => ?_
      have asked : ByName ((e.operands.map (evaluate s))[i]?.getD (pure .null)) := by
        rw [List.getElem?_map]
        cases operand : e.operands[i]? with
        | none => exact .pure _
        | some o => exact ih o (List.mem_of_getElem? operand)
      cases quiet with
      | false => exact asked
      | true => exact asked.quietly

theorem holds_byName (s : Setting) (condition : Expr) : ByName (holds s condition) := by
  unfold holds
  split
  · refine .getBind (fun w => ?_) fun w locals same => ?_
    · split
      · exact .pure _
      · exact .getBind (fun _ => .pure _) fun _ _ _ => rfl
    · dsimp only
      rw [same]
  · exact (evaluate_byName s _).bind fun _ => .pure _

end Evaluate

/-! The variables of the function are told apart by their names. -/

theorem localId_inj {first second : String} : localId first = localId second ↔ first = second := by
  simp [localId, ← String.toList_inj, String.toList_append]

theorem localId_ne_savedId (name : String) (loop : Nat) (saved : String) :
    localId name ≠ savedId loop saved := by
  simp [localId, savedId, ← String.toList_inj, String.toList_append]

theorem localId_ne_itemsId (name : String) (loop : Nat) : localId name ≠ itemsId loop := by
  simp [localId, itemsId, ← String.toList_inj, String.toList_append]

theorem savedId_ne_itemsId (loop : Nat) (name : String) (items : Nat) :
    savedId loop name ≠ itemsId items := by
  simp [savedId, itemsId, ← String.toList_inj, String.toList_append]

theorem takeWhile_toDigits (n : Nat) (rest : List Char) :
    (Nat.toDigits 10 n ++ '_' :: rest).takeWhile Char.isDigit = Nat.toDigits 10 n := by
  rw [List.takeWhile_append_of_pos fun c member =>
    Nat.isDigit_of_mem_toDigits (by decide) (by decide) member]
  simp

theorem savedId_inj {loop other : Nat} {first second : String} :
    savedId loop first = savedId other second ↔ loop = other ∧ first = second := by
  refine ⟨fun same => ?_, fun ⟨number, name⟩ => by rw [number, name]⟩
  have same : Nat.toDigits 10 loop ++ '_' :: first.toList =
      Nat.toDigits 10 other ++ '_' :: second.toList := by
    simpa [savedId, ← String.toList_inj, String.toList_append, Nat.toList_repr] using same
  have digits := congrArg (List.takeWhile Char.isDigit) same
  rw [takeWhile_toDigits, takeWhile_toDigits] at digits
  have number := congrArg (Nat.ofDigitChars 10 · 0) digits
  simp only [Nat.ofDigitChars_toDigits (b := 10) (by decide) (by decide)] at number
  subst number
  exact ⟨rfl, String.toList_inj.mp (List.cons.inj (List.append_cancel_left same)).2⟩

namespace World

def named (v : World) (name : String) : Option Value := v.locals.lookup (localId name)

def saved (v : World) (loop : Nat) (name : String) : Option Value :=
  v.locals.lookup (savedId loop name)

variable (v : World) (a : Value)

theorem setLocal_lookup (id other : String) :
    (v.setLocal id a).locals.lookup other = if other = id then some a else v.locals.lookup other := by
  rw [setLocal, lookup_setNamed]

theorem setLocal_named (name : String) :
    (v.setLocal (localId name) a).named = Function.update v.named name (some a) := by
  funext other
  simp only [named, setLocal_lookup, Function.update_apply, localId_inj]

theorem setLocal_saved (name : String) : (v.setLocal (localId name) a).saved = v.saved := by
  funext loop other
  rw [saved, setLocal_lookup, if_neg (localId_ne_savedId name loop other).symm]
  rfl

end World

/-! The stack of scopes that variables stand for. -/

/-- A loop around a statement: its number, and the names that it binds. -/
structure LoopScope where
  number : Nat
  bound : List String

def namesIn (scopes : List LoopScope) : List String := scopes.flatMap LoopScope.bound

def LoopScope.outside (scope : LoopScope) (saved : Nat → String → Option Value)
    (named : String → Option Value) (name : String) : Option Value :=
  if name ∈ scope.bound then saved scope.number name else named name

/-- Whether the values of names, and the saved values of the names that they shadow, are those of
the variables on a stack. -/
inductive Stands (saved : Nat → String → Option Value) :
    List LoopScope → (String → Option Value) → List (String × Value) → Prop
  | base {named : String → Option Value} : Stands saved [] named []
  | loop {scope : LoopScope} {scopes : List LoopScope} {named : String → Option Value}
      {own around : List (String × Value)} : own.map (·.1) = scope.bound →
      (∀ name ∈ scope.bound, own.lookup name = named name) →
      Stands saved scopes (scope.outside saved named) around →
      Stands saved (scope :: scopes) named (own ++ around)

namespace Stands

variable {saved saved' : Nat → String → Option Value} {scopes : List LoopScope}
  {named named' : String → Option Value} {locals : List (String × Value)} {name : String}

theorem congr (stands : Stands saved scopes named locals)
    (sameNamed : ∀ name ∈ namesIn scopes, named' name = named name)
    (sameSaved : ∀ scope ∈ scopes, saved' scope.number = saved scope.number) :
    Stands saved' scopes named' locals := by
  induction stands generalizing named' with
  | base => exact .base
  | @loop scope scopes named own around keys values _ ih =>
      have inner : ∀ name ∈ scope.bound, named' name = named name := fun name member =>
        sameNamed name (List.mem_append_left _ member)
      refine .loop keys (fun name member => (values name member).trans (inner name member).symm)
        (ih (fun name member => ?_) fun other isScope => sameSaved other (List.mem_cons_of_mem _ isScope))
      unfold LoopScope.outside
      split
      · rw [sameSaved scope List.mem_cons_self]
      · exact sameNamed name (List.mem_append_right _ member)

theorem lookup_bound (stands : Stands saved scopes named locals) (isBound : name ∈ namesIn scopes) :
    ∃ v, locals.lookup name = some v ∧ named name = some v := by
  induction stands with
  | base => cases isBound
  | @loop scope scopes named own around keys values _ ih =>
      by_cases inner : name ∈ scope.bound
      · obtain ⟨v, found⟩ := Option.ne_none_iff_exists'.mp
          (fun none => lookup_eq_none_iff_names.mp none (keys ▸ inner) : own.lookup name ≠ none)
        refine ⟨v, ?_, (values name inner).symm.trans found⟩
        rw [List.lookup_append, found]
        rfl
      · obtain ⟨v, found, same⟩ := ih ((List.mem_append.mp isBound).resolve_left inner)
        rw [LoopScope.outside, if_neg inner] at same
        refine ⟨v, ?_, same⟩
        rw [List.lookup_append, lookup_eq_none_iff_names.mpr (keys ▸ inner), Option.none_or, found]

theorem around {scope : LoopScope} (stands : Stands saved (scope :: scopes) named locals) :
    Stands saved scopes (scope.outside saved named) (locals.drop scope.bound.length) := by
  cases stands with
  | loop keys _ standsAround =>
      rw [← keys, List.length_map, List.drop_left]
      exact standsAround

theorem lookup_unbound (stands : Stands saved scopes named locals)
    (unbound : name ∉ namesIn scopes) : locals.lookup name = none := by
  induction stands with
  | base => rfl
  | @loop scope scopes named own around keys values _ ih =>
      obtain ⟨inner, outer⟩ := not_or.mp (mt List.mem_append.mpr unbound)
      rw [List.lookup_append, lookup_eq_none_iff_names.mpr (keys ▸ inner), ih outer]
      rfl

theorem update (stands : Stands saved scopes named locals) (isBound : name ∈ namesIn scopes)
    (v : Value) :
    Stands saved scopes (Function.update named name (some v)) (setNamed name v locals) := by
  induction stands with
  | base => cases isBound
  | @loop scope scopes named own around keys values standsAround ih =>
      by_cases inner : name ∈ scope.bound
      · have isOwn : name ∈ own.map (·.1) := keys ▸ inner
        rw [setNamed_append_of_mem v isOwn]
        refine .loop ((setNamed_names v isOwn).trans keys) (fun other member => ?_) ?_
        · rw [lookup_setNamed, Function.update_apply, values other member]
        · refine standsAround.congr (fun other _ => ?_) fun _ _ => rfl
          unfold LoopScope.outside
          split
          · rfl
          · next outer => exact Function.update_of_ne (ne_of_mem_of_not_mem inner outer).symm _ _
      · have isOuter : name ∉ own.map (·.1) := keys ▸ inner
        rw [setNamed_append_of_notMem v isOuter]
        refine .loop keys (fun other member => ?_) ?_
        · rw [Function.update_of_ne (ne_of_mem_of_not_mem member inner), values other member]
        · refine (ih ((List.mem_append.mp isBound).resolve_left inner)).congr (fun other _ => ?_)
            fun _ _ => rfl
          unfold LoopScope.outside
          by_cases same : other = name
          · subst same
            rw [if_neg inner, Function.update_self, Function.update_self]
          · rw [Function.update_of_ne same, Function.update_of_ne same]

end Stands

/-- Whether a world of the function and one of the template are the same, but for the variables, and
the variables stand for the scopes. -/
structure Represents (scopes : List LoopScope) (w v : World) : Prop where
  same : v = { w with locals := v.locals }
  stands : Stands v.saved scopes v.named w.locals

theorem lookup_visible (names : List String) (held : List (String × Value)) (name : String) :
    (visible names held).lookup name =
      if name ∈ names then held.lookup (localId name) else none := by
  induction names with
  | nil => rfl
  | cons other rest ih =>
      unfold visible at ih ⊢
      cases found : held.lookup (localId other) with
      | none =>
          rw [List.filterMap_cons_none (by rw [found]; rfl), ih]
          by_cases same : name = other
          · simp [same, found]
          · simp [same]
      | some v =>
          rw [List.filterMap_cons_some (by rw [found]; rfl), List.lookup_cons, ih]
          by_cases same : name = other
          · simp [same, found]
          · simp [same, beq_false_of_ne same]

theorem Represents.lookup {scopes : List LoopScope} {w v : World}
    (represents : Represents scopes w v) (name : String) :
    (visible (namesIn scopes) v.locals).lookup name = w.locals.lookup name := by
  rw [lookup_visible]
  split
  · next isBound =>
      obtain ⟨a, found, same⟩ := represents.stands.lookup_bound isBound
      exact same.trans found.symm
  · next unbound => exact (represents.stands.lookup_unbound unbound).symm

/-! What the function does beside the template. -/

section Simulates

variable {α β : Type} {R Q S : World → World → Prop} {x y : Eval α} {f g : α → Eval β}

/-- Whether from related worlds the second computation does what the first one does, with variables
of its own, and leads to related worlds where that comes to a value. -/
def Simulates (R Q : World → World → Prop) (x y : Eval α) : Prop :=
  ∀ w v, R w v → (y.run v).1 = (x.run w).1 ∧
    (y.run v).2 = { (x.run w).2 with locals := (y.run v).2.locals } ∧
      ∀ a, (x.run w).1 = .ok a → Q (x.run w).2 (y.run v).2

namespace Simulates

theorem mono (simulates : Simulates R Q x y) (weaker : ∀ w v, Q w v → S w v) : Simulates R S x y :=
  fun w v related =>
    have ⟨result, same, after⟩ := simulates w v related
    ⟨result, same, fun a given => weaker _ _ (after a given)⟩

theorem bind (first : Simulates R Q x y)
    (second : ∀ a w u, x.run w = (.ok a, u) → Simulates Q S (f a) (g a)) :
    Simulates R S (x >>= f) (y >>= g) := by
  intro w v related
  obtain ⟨result, same, after⟩ := first w v related
  rw [Step.run_bind, Step.run_bind]
  cases hx : x.run w with
  | mk given u =>
      cases hy : y.run v with
      | mk given' u' =>
          rw [hx, hy] at result same after
          dsimp only at result same after
          subst result
          cases given' with
          | error fault => exact ⟨rfl, same, nofun⟩
          | ok a => exact second a w u hx u u' (after a rfl)

theorem strengthen (simulates : Simulates R Q x y) (stronger : ∀ w v, S w v → R w v) :
    Simulates S Q x y := fun w v related => simulates w v (stronger w v related)

theorem replace {z : Eval α} (simulates : Simulates R Q x y)
    (same : ∀ w v, R w v → z.run v = y.run v) : Simulates R Q x z := by
  intro w v related
  rw [same w v related]
  exact simulates w v related

theorem after {z : Eval β} {g : β → Eval α} (b : β)
    (step : ∀ w v, R w v → ∃ u, z.run v = (.ok b, u) ∧ Q w u) (rest : Simulates Q S x (g b)) :
    Simulates R S x (z >>= g) := by
  intro w v related
  obtain ⟨u, run, between⟩ := step w v related
  rw [Step.run_bind, run]
  exact rest w u between

theorem forEach {items : List α} {step step' : α → Eval (List β)}
    (steps : ∀ a ∈ items, Simulates R R (step a) (step' a)) (same : ∀ w v, R w v →
      v = { w with locals := v.locals }) (given : List β) :
    Simulates R R (forEach step items given) (Eval.forEach step' items given) := by
  induction items generalizing given with
  | nil => exact fun w v related => ⟨rfl, same w v related, fun _ _ => related⟩
  | cons a rest ih =>
      refine (steps a List.mem_cons_self).bind fun parts _ _ _ => ?_
      exact ih (fun b member => steps b (List.mem_cons_of_mem _ member)) _

theorem whileWithin {condition condition' : Eval Bool} {step step' : Eval (List β)}
    (conditions : Simulates R R condition condition') (steps : Simulates R R step step')
    (same : ∀ w v, R w v → v = { w with locals := v.locals }) (rounds : Nat) (given : List β) :
    Simulates R R (whileWithin condition step rounds given)
      (Eval.whileWithin condition' step' rounds given) := by
  induction rounds generalizing given with
  | zero => exact fun w v related => ⟨rfl, same w v related, nofun⟩
  | succ rounds ih =>
      refine conditions.bind fun holds _ _ _ => ?_
      split
      · exact steps.bind fun parts _ _ _ => ih _
      · exact fun w v related => ⟨rfl, same w v related, fun _ _ => related⟩

end Simulates

end Simulates

/-- Related worlds at a place where the values that earlier loops have saved are known. -/
structure At (scopes : List LoopScope) (next : Nat) (saved : Nat → String → Option Value)
    (w v : World) : Prop extends Represents scopes w v where
  kept : ∀ loop < next, v.saved loop = saved loop

/-- Whether a computation of the function does what one of the template does in the given scopes,
and leaves alone what loops before the next one have saved. -/
def Refines {α : Type} (scopes : List LoopScope) (next : Nat) (x y : Eval α) : Prop :=
  ∀ saved, Simulates (At scopes next saved) (At scopes next saved) x y

namespace Refines

variable {α β : Type} {scopes : List LoopScope} {next : Nat} {x y : Eval α} {f g : α → Eval β}

theorem bind (first : Refines scopes next x y) (second : ∀ a, Refines scopes next (f a) (g a)) :
    Refines scopes next (x >>= f) (y >>= g) :=
  fun saved => (first saved).bind fun a _ _ _ => second a saved

theorem pure (a : α) : Refines scopes next (Pure.pure a : Eval α) (Pure.pure a) :=
  fun _ _ _ related => ⟨rfl, related.same, fun _ _ => related⟩

theorem simulates (refines : Refines scopes next x y) {R Q : World → World → Prop}
    (represents : ∀ w v, R w v → Represents scopes w v)
    (after : ∀ w v w' v', R w v → Represents scopes w' v' →
      (∀ loop < next, v'.saved loop = v.saved loop) → Q w' v') : Simulates R Q x y := by
  intro w v related
  obtain ⟨result, same, kept⟩ := refines v.saved w v ⟨represents w v related, fun _ _ => rfl⟩
  refine ⟨result, same, fun a given => ?_⟩
  have there := kept a given
  exact after w v _ _ related there.toRepresents there.kept

theorem mono (refines : Refines scopes next x y) {before : Nat} (le : before ≤ next) :
    Refines scopes before x y :=
  fun _ => refines.simulates (fun _ _ related => related.toRepresents)
    fun _ _ _ _ related represents kept => ⟨represents, fun loop earlier =>
      (kept loop (Nat.lt_of_lt_of_le earlier le)).trans (related.kept loop earlier)⟩

theorem whileWithin {condition condition' : Eval Bool} {step step' : Eval (List β)}
    (conditions : Refines scopes next condition condition') (steps : Refines scopes next step step')
    (rounds : Nat) (given : List β) : Refines scopes next (whileWithin condition step rounds given)
      (Eval.whileWithin condition' step' rounds given) :=
  fun saved => (conditions saved).whileWithin (steps saved) (fun _ _ related => related.same) _ _

theorem inScope {x : Eval α} (byName : ByName x) :
    Refines scopes next x (inScope (namesIn scopes) x) := by
  intro saved w v related
  have run : (Stencil.inScope (namesIn scopes) x).run v =
      ((x.run w).1, { (x.run w).2 with locals := v.locals }) := by
    have inside := byName w (visible (namesIn scopes) v.locals) related.lookup
    have start : ({ v with locals := visible (namesIn scopes) v.locals } : World) =
        { w with locals := visible (namesIn scopes) v.locals } := by rw [related.same]
    rw [← start] at inside
    exact congrArg (fun ended : Except Fault α × World =>
      (ended.1, { ended.2 with locals := v.locals })) inside
  rw [run]
  refine ⟨rfl, rfl, fun _ _ => ⟨⟨rfl, ?_⟩, related.kept⟩⟩
  rw [byName.locals]
  exact related.stands

theorem assign_bound {name : String} (isBound : name ∈ namesIn scopes) (a : Value) :
    Refines scopes next (assign name a) (setVariable (localId name) a) := by
  intro saved w v related
  obtain ⟨b, found, _⟩ := related.stands.lookup_bound isBound
  rw [assign, setVariable, Step.run_modify, Step.run_modify]
  dsimp only
  rw [found, Option.isSome_some, if_pos rfl]
  refine ⟨rfl, ?_, fun _ _ => ⟨⟨?_, ?_⟩, ?_⟩⟩
  · rw [related.same]
    rfl
  · rw [related.same]
    rfl
  · rw [World.setLocal_named, World.setLocal_saved]
    exact related.stands.update isBound a
  · rw [World.setLocal_saved]
    exact related.kept

theorem assign_unbound {name : String} (unbound : name ∉ namesIn scopes) (a : Value) :
    Refines scopes next (assign name a)
      (modify fun w : World => { w with context := w.context.set name a }) := by
  intro saved w v related
  rw [assign, Step.run_modify, Step.run_modify]
  dsimp only
  rw [related.stands.lookup_unbound unbound, Option.isSome_none, if_neg Bool.false_ne_true]
  refine ⟨rfl, ?_, fun _ _ => ⟨⟨?_, related.stands⟩, related.kept⟩⟩
  · rw [related.same]
  · rw [related.same]

end Refines

section Instructions

variable {s : Setting}

theorem runAll_cons (i : Instr) (rest : List Instr) : runAll s (i :: rest) =
    i.run s >>= fun written => runAll s rest >>= fun more => pure (written ++ more) := rfl

theorem runAll_append (first second : List Instr) : runAll s (first ++ second) =
    runAll s first >>= fun written => runAll s second >>= fun more => pure (written ++ more) := by
  induction first with
  | nil => simp [runAll]
  | cons i rest ih =>
      simp only [List.cons_append, runAll_cons, ih, bind_assoc, pure_bind, List.append_assoc]

@[simp] theorem runAll_singleton (i : Instr) : runAll s [i] = i.run s := by
  simp [runAll]

theorem readVariable_run {v : World} {id : String} {a : Value}
    (found : v.locals.lookup id = some a) : (readVariable id).run v = (.ok a, v) := by
  rw [readVariable, Step.run_bind, Step.run_get]
  dsimp only
  rw [found]
  rfl

theorem readItems_run {v : World} {loop : Nat} {items : List Value}
    (found : v.locals.lookup (itemsId loop) = some (.list items)) :
    (readItems loop).run v = (.ok items, v) := by
  rw [readItems, Step.run_bind, readVariable_run found]
  rfl

/-- Variables that are copied one after the other, none of them onto another one to be copied. -/
theorem copies_run (source target : String → String)
    (inj : ∀ {name other}, target name = target other → name = other)
    (apart : ∀ name other, source name ≠ target other) (names : List String) {v : World}
    (assigned : ∀ name ∈ names, (v.locals.lookup (source name)).isSome) :
    ∃ u, (runAll s (names.map fun name => .copy (source name) (target name))).run v = (.ok [], u) ∧
      u = { v with locals := u.locals } ∧
      (∀ name ∈ names, u.locals.lookup (target name) = v.locals.lookup (source name)) ∧
      ∀ id, (∀ name ∈ names, id ≠ target name) → u.locals.lookup id = v.locals.lookup id := by
  induction names generalizing v with
  | nil => exact ⟨v, rfl, rfl, nofun, fun _ _ => rfl⟩
  | cons name rest ih =>
      obtain ⟨a, found⟩ := Option.isSome_iff_exists.mp (assigned name List.mem_cons_self)
      have sources (other : String) : (v.setLocal (target name) a).locals.lookup (source other) =
          v.locals.lookup (source other) := by
        rw [World.setLocal_lookup, if_neg (apart other name)]
      obtain ⟨u, run, same, copied, others⟩ := ih (v := v.setLocal (target name) a)
        fun other member => by
          rw [sources]
          exact assigned other (List.mem_cons_of_mem _ member)
      refine ⟨u, ?_, ?_, fun other member => ?_, fun id apartAll => ?_⟩
      · rw [List.map_cons, runAll_cons, Step.run_bind, Instr.run, Step.run_bind,
          readVariable_run found]
        dsimp only
        rw [Step.run_bind, setVariable, Step.run_modify]
        dsimp only
        rw [Step.run_pure]
        dsimp only
        rw [Step.run_bind, run]
        rfl
      · rw [same]
        rfl
      · by_cases again : other ∈ rest
        · rw [copied other again, sources]
        · obtain rfl := (List.mem_cons.mp member).resolve_right again
          rw [others _ fun _ member same => again (by rwa [inj same]), World.setLocal_lookup,
            if_pos rfl, found]
      · rw [others id fun other member => apartAll other (List.mem_cons_of_mem _ member),
          World.setLocal_lookup, if_neg (apartAll name List.mem_cons_self)]

end Instructions

end Stencil
