import Stencil.Assembly.Names
import Stencil.Proofs.Expr.Search
import Stencil.Proofs.Step

namespace Stencil

theorem checks_pass {x y : Except Fault Unit} :
    (x >>= fun _ => y) = .ok () ↔ x = .ok () ∧ y = .ok () := by
  cases x with
  | error fault => simp [bind, Except.bind]
  | ok _ => simp [bind, Except.bind]

namespace Registries

def Knows (r : Registries) (t : Table) (name : String) : Prop :=
  ((r.table t).lookup name).isSome = true

def Covers (r : Registries) (looksUp : Table → String → Bool) : Prop :=
  ∀ t name, looksUp t name = true → r.Knows t name

variable {r : Registries} {f g : Table → String → Bool}

@[simp] theorem covers_none : r.Covers fun _ _ => false := fun _ _ impossible => nomatch impossible

@[simp] theorem covers_or :
    (r.Covers fun t name => f t name || g t name) ↔ r.Covers f ∧ r.Covers g := by
  simp only [Covers, Bool.or_eq_true]
  constructor
  · intro all
    exact ⟨fun t name inFirst => all t name (.inl inFirst),
      fun t name inSecond => all t name (.inr inSecond)⟩
  · intro ⟨first, second⟩ t name looked
    exact looked.elim (first t name) (second t name)

@[simp] theorem covers_single {table : Table} {key : String} :
    (r.Covers fun t name => t == table && name == key) ↔ r.Knows table key := by
  simp only [Covers, Bool.and_eq_true, beq_iff_eq]
  constructor
  · intro all
    exact all table key ⟨rfl, rfl⟩
  · rintro known t name ⟨rfl, rfl⟩
    exact known

end Registries

namespace Expr

/-- Whether an expression looks up a name in a table when it is evaluated: as a filter, as a test,
or as the bare name of a function. A call of a loop variable looks up nothing. -/
def looksUp (locals : List String) (t : Table) (name : String) : Expr → Bool
  | .filter _ _ n _ _ => t == .filters && name == n
  | .test _ _ n _ _ => t == .tests && name == n
  | .call _ (.name _ n) _ _ => !locals.contains n && (t == .functions && name == n)
  | _ => false

/-- Whether all names that an expression or one of its parts looks up are registered. -/
def Registered (r : Registries) (locals : List String) (e : Expr) : Prop :=
  r.Covers fun t name => e.any (looksUp locals t name)

theorem looksUp_erase (locals : List String) (t : Table) (name : String) (e : Expr) :
    looksUp locals t name e.erase = looksUp locals t name e := by
  cases e with
  | call p callee args named => cases callee <;> simp only [erase, looksUp]
  | _ => simp only [erase, looksUp]

@[simp] theorem registered_erase {r : Registries} {locals : List String} {e : Expr} :
    e.erase.Registered r locals ↔ e.Registered r locals := by
  simp only [Registered, any_erase (looksUp_erase locals _ _)]

theorem looksUp_mono {locals more : List String} (within : locals ⊆ more) {t : Table}
    {name : String} (e : Expr) (looked : looksUp more t name e = true) :
    looksUp locals t name e = true := by
  unfold looksUp at looked ⊢
  split at looked
  · exact looked
  · exact looked
  · next n _ _ =>
      simp only [Bool.and_eq_true, Bool.not_eq_true', List.contains_eq_mem, decide_eq_false_iff_not]
        at looked ⊢
      exact ⟨fun bound => looked.1 (within bound), looked.2⟩
  · cases looked

theorem Registered.mono {r : Registries} {locals more : List String} (within : locals ⊆ more)
    {e : Expr} (registered : e.Registered r locals) : e.Registered r more :=
  fun t name looked => registered t name (any_imp (looksUp_mono within) e looked)

end Expr

section Check

open Expr (any anyOf anyNamed anyEntry anyLink looksUp)

variable {r : Registries} {template : Option String} {locals : List String}

theorem checkName_ok_iff {kind : NameKind} {t : Table} {pos : Pos} {name : String} :
    checkName r template kind t pos name = .ok () ↔ r.Knows t name := by
  unfold checkName Registries.Knows
  split
  · next known => simp [known]
  · next unknown => simp [unknown]

theorem covers_call {name : String} :
    (r.Covers fun t n => !locals.contains name && (t == .functions && n == name)) ↔
      (name ∉ locals → r.Knows .functions name) := by
  by_cases bound : name ∈ locals
  · simp [bound]
  · simp [bound]

theorem checkCallee_ok_iff {pos : Pos} {name : String} :
    (if locals.contains name then return ()
      else checkName r template .function .functions pos name) = .ok () ↔
        (name ∉ locals → r.Knows .functions name) := by
  split
  · next bound => simp_all [pure, Except.pure]
  · next free =>
      rw [checkName_ok_iff]
      simp_all

mutual

theorem checkExpr_ok_iff :
    (e : Expr) → (checkExpr r template locals e = .ok () ↔ e.Registered r locals)
  | .const _ _ => by simp [checkExpr, Expr.Registered, any, looksUp]
  | .name _ _ => by simp [checkExpr, Expr.Registered, any, looksUp]
  | .list _ items => by
      rw [checkExpr, checkAll_ok_iff items]
      simp [Expr.Registered, any, looksUp]
  | .dict _ entries => by
      rw [checkExpr, checks_pass, checkEntries_ok_iff entries]
      simp [Expr.Registered, any, looksUp]
  | .attr _ object _ => by
      rw [checkExpr, checkExpr_ok_iff object]
      simp [Expr.Registered, any, looksUp]
  | .item _ object key => by
      rw [checkExpr, checks_pass, checkExpr_ok_iff object, checkExpr_ok_iff key]
      simp [Expr.Registered, any, looksUp]
  | .call _ callee args named => by
      by_cases bare : ∃ pos name, callee = .name pos name
      · obtain ⟨_, name, rfl⟩ := bare
        rw [checkExpr, checks_pass, checks_pass, checkCallee_ok_iff, checkAll_ok_iff args,
          checkNamed_ok_iff named]
        simp only [Expr.Registered, any, looksUp, Registries.covers_or, covers_call,
          Registries.covers_none, and_true]
        rw [and_assoc, ← and_rotate]
      · have other : ∀ pos name, callee = .name pos name → False :=
          fun pos name same => bare ⟨pos, name, same⟩
        rw [checkExpr, checks_pass, checks_pass, checkAll_ok_iff args, checkNamed_ok_iff named,
          checkExpr_ok_iff callee]
        · have nothing : ∀ t name, looksUp locals t name (.call ‹_› callee args named) = false := by
            intro t name
            cases callee <;> first | rfl | exact (bare ⟨_, _, rfl⟩).elim
          simp only [Expr.Registered, any, nothing, Registries.covers_or, Registries.covers_none,
            true_and]
          rw [and_assoc, ← and_rotate]
        · exact other
  | .filter _ value name args named => by
      rw [checkExpr, checks_pass, checks_pass, checks_pass, checkName_ok_iff,
        checkExpr_ok_iff value, checkAll_ok_iff args, checkNamed_ok_iff named]
      simp [Expr.Registered, any, looksUp, and_assoc]
  | .test _ value name args _ => by
      rw [checkExpr, checks_pass, checks_pass, checkName_ok_iff, checkExpr_ok_iff value,
        checkAll_ok_iff args]
      simp [Expr.Registered, any, looksUp, and_assoc]
  | .arith _ _ left right => by
      rw [checkExpr, checks_pass, checkExpr_ok_iff left, checkExpr_ok_iff right]
      simp [Expr.Registered, any, looksUp]
  | .sign _ _ operand => by
      rw [checkExpr, checkExpr_ok_iff operand]
      simp [Expr.Registered, any, looksUp]
  | .compare _ first links => by
      rw [checkExpr, checks_pass, checkExpr_ok_iff first, checkLinks_ok_iff links]
      simp [Expr.Registered, any, looksUp]
  | .logic _ _ parts => by
      rw [checkExpr, checkAll_ok_iff parts]
      simp [Expr.Registered, any, looksUp]
  | .choice _ condition ifTrue ifFalse => by
      rw [checkExpr, checks_pass, checks_pass, checkExpr_ok_iff condition,
        checkExpr_ok_iff ifTrue, checkExpr_ok_iff ifFalse]
      simp [Expr.Registered, any, looksUp, and_assoc]
  | .range _ first last => by
      rw [checkExpr, checks_pass, checkExpr_ok_iff first, checkExpr_ok_iff last]
      simp [Expr.Registered, any, looksUp]
  | .concat _ parts => by
      rw [checkExpr, checkAll_ok_iff parts]
      simp [Expr.Registered, any, looksUp]

theorem checkAll_ok_iff :
    (es : List Expr) → (checkAll r template locals es = .ok () ↔
      r.Covers fun t name => anyOf (looksUp locals t name) es)
  | [] => by simp [checkAll, anyOf]
  | e :: rest => by
      rw [checkAll, checks_pass, checkExpr_ok_iff e, checkAll_ok_iff rest]
      simp [Expr.Registered, anyOf]

theorem checkNamed_ok_iff :
    (named : List (String × Expr)) → (checkNamed r template locals named = .ok () ↔
      r.Covers fun t name => anyNamed (looksUp locals t name) named)
  | [] => by simp [checkNamed, anyNamed]
  | (_, e) :: rest => by
      rw [checkNamed, checks_pass, checkExpr_ok_iff e, checkNamed_ok_iff rest]
      simp [Expr.Registered, anyNamed]

/-- Keys are checked before values. -/
theorem checkEntries_ok_iff :
    (entries : List (Expr × Expr)) →
      (checkKeys r template locals entries = .ok () ∧
          checkValues r template locals entries = .ok () ↔
        r.Covers fun t name => anyEntry (looksUp locals t name) entries)
  | [] => by simp [checkKeys, checkValues, anyEntry]
  | (key, e) :: rest => by
      rw [checkKeys, checkValues, checks_pass, checks_pass, and_and_and_comm,
        checkExpr_ok_iff key, checkExpr_ok_iff e, checkEntries_ok_iff rest]
      simp [Expr.Registered, anyEntry]

theorem checkLinks_ok_iff :
    (links : List (CompareOp × Expr)) → (checkLinks r template locals links = .ok () ↔
      r.Covers fun t name => anyLink (looksUp locals t name) links)
  | [] => by simp [checkLinks, anyLink]
  | (_, e) :: rest => by
      rw [checkLinks, checks_pass, checkExpr_ok_iff e, checkLinks_ok_iff rest]
      simp [Expr.Registered, anyLink]

end

section Raises

open Stencil.Except (Raises raises_ok raises_pure raises_error)

variable {E : Fault → Prop}

theorem checkName_raises (unknown : ∀ u, E (.diagnostic (.unknownName u))) {kind : NameKind}
    {t : Table} {pos : Pos} {name : String} : Raises E (checkName r template kind t pos name) := by
  unfold checkName
  split
  · exact raises_ok
  · exact raises_error.mpr (unknown _)

mutual

theorem checkExpr_raises (unknown : ∀ u, E (.diagnostic (.unknownName u))) :
    (e : Expr) → Raises E (checkExpr r template locals e)
  | .const _ _ | .name _ _ => raises_ok
  | .list _ items => checkAll_raises unknown items
  | .dict _ entries =>
      (checkKeys_raises unknown entries).bind fun _ => checkValues_raises unknown entries
  | .attr _ object _ => checkExpr_raises unknown object
  | .item _ object key =>
      (checkExpr_raises unknown object).bind fun _ => checkExpr_raises unknown key
  | .call _ callee args named => by
      have further := checkExpr_raises unknown callee
      by_cases bare : ∃ pos name, callee = .name pos name
      · obtain ⟨_, name, rfl⟩ := bare
        rw [checkExpr]
        refine (checkAll_raises unknown args).bind fun _ =>
          (checkNamed_raises unknown named).bind fun _ => ?_
        split
        · exact raises_pure
        · exact checkName_raises unknown
      · rw [checkExpr]
        · exact (checkAll_raises unknown args).bind fun _ =>
            (checkNamed_raises unknown named).bind fun _ => further
        · exact fun pos name same => bare ⟨pos, name, same⟩
  | .filter _ value _ args named =>
      (checkName_raises unknown).bind fun _ => (checkExpr_raises unknown value).bind fun _ =>
        (checkAll_raises unknown args).bind fun _ => checkNamed_raises unknown named
  | .test _ value _ args _ =>
      (checkName_raises unknown).bind fun _ => (checkExpr_raises unknown value).bind fun _ =>
        checkAll_raises unknown args
  | .arith _ _ left right =>
      (checkExpr_raises unknown left).bind fun _ => checkExpr_raises unknown right
  | .sign _ _ operand => checkExpr_raises unknown operand
  | .compare _ first links =>
      (checkExpr_raises unknown first).bind fun _ => checkLinks_raises unknown links
  | .logic _ _ parts => checkAll_raises unknown parts
  | .choice _ condition ifTrue ifFalse =>
      (checkExpr_raises unknown condition).bind fun _ =>
        (checkExpr_raises unknown ifTrue).bind fun _ => checkExpr_raises unknown ifFalse
  | .range _ first last =>
      (checkExpr_raises unknown first).bind fun _ => checkExpr_raises unknown last
  | .concat _ parts => checkAll_raises unknown parts

theorem checkAll_raises (unknown : ∀ u, E (.diagnostic (.unknownName u))) :
    (es : List Expr) → Raises E (checkAll r template locals es)
  | [] => raises_ok
  | e :: rest => (checkExpr_raises unknown e).bind fun _ => checkAll_raises unknown rest

theorem checkNamed_raises (unknown : ∀ u, E (.diagnostic (.unknownName u))) :
    (named : List (String × Expr)) → Raises E (checkNamed r template locals named)
  | [] => raises_ok
  | (_, e) :: rest => (checkExpr_raises unknown e).bind fun _ => checkNamed_raises unknown rest

theorem checkKeys_raises (unknown : ∀ u, E (.diagnostic (.unknownName u))) :
    (entries : List (Expr × Expr)) → Raises E (checkKeys r template locals entries)
  | [] => raises_ok
  | (key, _) :: rest => (checkExpr_raises unknown key).bind fun _ => checkKeys_raises unknown rest

theorem checkValues_raises (unknown : ∀ u, E (.diagnostic (.unknownName u))) :
    (entries : List (Expr × Expr)) → Raises E (checkValues r template locals entries)
  | [] => raises_ok
  | (_, e) :: rest => (checkExpr_raises unknown e).bind fun _ => checkValues_raises unknown rest

theorem checkLinks_raises (unknown : ∀ u, E (.diagnostic (.unknownName u))) :
    (links : List (CompareOp × Expr)) → Raises E (checkLinks r template locals links)
  | [] => raises_ok
  | (_, e) :: rest => (checkExpr_raises unknown e).bind fun _ => checkLinks_raises unknown rest

end

end Raises

instance (e : Expr) : Decidable (e.Registered r locals) :=
  match passed : checkExpr r none locals e with
  | .ok () => isTrue ((checkExpr_ok_iff e).mp passed)
  | .error _ => isFalse fun registered =>
      nomatch passed.symm.trans ((checkExpr_ok_iff e).mpr registered)

end Check

end Stencil
