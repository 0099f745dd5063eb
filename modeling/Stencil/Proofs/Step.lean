import Stencil.Value.Fault

namespace Stencil

theorem Except.bind_ok {ε α β : Type} {x : Except ε α} {f : α → Except ε β} {b : β}
    (h : (x >>= f) = .ok b) : ∃ a, x = .ok a ∧ f a = .ok b := by
  cases x with
  | error e => cases h
  | ok a => exact ⟨a, rfl, h⟩

namespace Except

variable {α β : Type} {P : α → Prop} {Q : β → Prop}

theorem exists_of_any {ε : Type} {x : Except ε α} [DecidablePred P]
    (passes : (x.toOption.any fun a => P a) = true) : ∃ a, x = .ok a ∧ P a := by
  cases x with
  | error e => cases passes
  | ok a => exact ⟨a, rfl, of_decide_eq_true passes⟩

def Gives (P : α → Prop) (x : Except Fault α) : Prop := ∀ a, x = .ok a → P a

@[simp] theorem gives_ok {a : α} : Gives P (.ok a) ↔ P a :=
  ⟨fun given => given a rfl, fun holds _ same => Except.ok.inj same ▸ holds⟩

@[simp] theorem gives_error {fault : Fault} : Gives P (.error fault) := fun _ same => nomatch same

theorem Gives.bind {x : Except Fault α} {f : α → Except Fault β} (hx : Gives P x)
    (hf : ∀ a, P a → Gives Q (f a)) : Gives Q (x >>= f) := by
  intro b given
  obtain ⟨a, ha, hb⟩ := bind_ok given
  exact hf a (hx a ha) b hb

theorem Gives.map {x : Except Fault α} {f : α → β} (hx : Gives P x) (hf : ∀ a, P a → Q (f a)) :
    Gives Q (x.map f) := by
  cases x with
  | error fault => exact gives_error
  | ok a => exact gives_ok.mpr (hf a (gives_ok.mp hx))

theorem gives_true (x : Except Fault α) : Gives (fun _ => True) x := fun _ _ => trivial

/-- Whether a computation fails only with faults that satisfy a property. -/
def Raises (E : Fault → Prop) (x : Except Fault α) : Prop := ∀ fault, x = .error fault → E fault

variable {E : Fault → Prop}

@[simp] theorem raises_ok {a : α} : Raises E (.ok a : Except Fault α) := fun _ same => nomatch same

@[simp] theorem raises_pure {a : α} : Raises E (pure a : Except Fault α) := raises_ok

@[simp] theorem raises_error {fault : Fault} :
    Raises E (.error fault : Except Fault α) ↔ E fault :=
  ⟨fun raises => raises fault rfl, fun holds _ same => Except.error.inj same ▸ holds⟩

theorem Raises.bind {x : Except Fault α} {f : α → Except Fault β} (hx : Raises E x)
    (hf : ∀ a, Raises E (f a)) : Raises E (x >>= f) := by
  cases x with
  | error fault => exact raises_error.mpr (raises_error.mp hx)
  | ok a => exact hf a

end Except

namespace Step

variable {σ α β : Type}

theorem run_bind (x : ExceptT Fault (StateM σ) α) (f : α → ExceptT Fault (StateM σ) β) (s : σ) :
    (x >>= f).run s = match x.run s with
      | (.ok a, t) => (f a).run t
      | (.error fault, t) => (.error fault, t) := by
  simp only [ExceptT.run, bind, ExceptT.bind, ExceptT.mk, StateT.bind, ExceptT.bindCont]
  cases x s with
  | mk r t => cases r <;> rfl

@[simp] theorem run_pure (a : α) (s : σ) :
    (pure a : ExceptT Fault (StateM σ) α).run s = (.ok a, s) := rfl

@[simp] theorem run_throw (fault : Fault) (s : σ) :
    (throw fault : ExceptT Fault (StateM σ) α).run s = (.error fault, s) := rfl

@[simp] theorem run_get (s : σ) :
    (get : ExceptT Fault (StateM σ) σ).run s = (.ok s, s) := rfl

@[simp] theorem run_set (s t : σ) :
    (set t : ExceptT Fault (StateM σ) PUnit).run s = (.ok ⟨⟩, t) := rfl

@[simp] theorem run_modify (f : σ → σ) (s : σ) :
    (modify f : ExceptT Fault (StateM σ) PUnit).run s = (.ok ⟨⟩, f s) := rfl

@[simp] theorem run_mk_pure (x : Except Fault α) (s : σ) :
    (ExceptT.mk (pure x) : ExceptT Fault (StateM σ) α).run s = (x, s) := rfl

theorem run_bind_ok {x : ExceptT Fault (StateM σ) α} {f : α → ExceptT Fault (StateM σ) β}
    {s t : σ} {b : β} (h : (x >>= f).run s = (.ok b, t)) :
    ∃ a m, x.run s = (.ok a, m) ∧ (f a).run m = (.ok b, t) := by
  rw [run_bind] at h
  cases hx : x.run s with
  | mk r m =>
      rw [hx] at h
      cases r with
      | error fault => cases h
      | ok a => exact ⟨a, m, rfl, h⟩

/-- The state after a computation stands in a relation to the state before it. -/
def Follows (R : σ → σ → Prop) (x : ExceptT Fault (StateM σ) α) : Prop := ∀ s, R s (x.run s).2

section Follows

variable {R : σ → σ → Prop}

theorem Follows.after {x : ExceptT Fault (StateM σ) α} (follows : Follows R x) {s t : σ}
    {result : Except Fault α} (run : x.run s = (result, t)) : R s t := by
  have related := follows s
  rwa [run] at related

theorem Follows.bind (htrans : ∀ {a b c}, R a b → R b c → R a c)
    {x : ExceptT Fault (StateM σ) α} {f : α → ExceptT Fault (StateM σ) β}
    (hx : Follows R x) (hf : ∀ a, Follows R (f a)) : Follows R (x >>= f) := by
  intro s
  have first := hx s
  rw [run_bind]
  cases h : x.run s with
  | mk r t =>
      rw [h] at first
      cases r with
      | error fault => exact first
      | ok a => exact htrans first (hf a t)

theorem Follows.pure (hrefl : ∀ s, R s s) (a : α) :
    Follows R (Pure.pure a : ExceptT Fault (StateM σ) α) := hrefl

theorem Follows.throw (hrefl : ∀ s, R s s) (fault : Fault) :
    Follows R (MonadExcept.throw fault : ExceptT Fault (StateM σ) α) := hrefl

theorem Follows.mk_pure (hrefl : ∀ s, R s s) (x : Except Fault α) :
    Follows R (ExceptT.mk (Pure.pure x) : ExceptT Fault (StateM σ) α) := hrefl

theorem Follows.modify {f : σ → σ} (h : ∀ s, R s (f s)) :
    Follows R (modify f : ExceptT Fault (StateM σ) PUnit) := h

end Follows

/-- From states that satisfy an invariant a computation leads to such states only, and what it gives
has a property. -/
def Ensures (I : σ → Prop) (Q : α → Prop) (x : ExceptT Fault (StateM σ) α) : Prop :=
  ∀ s, I s → I (x.run s).2 ∧ ∀ a, (x.run s).1 = .ok a → Q a

section Ensures

variable {I : σ → Prop} {Q : α → Prop} {P : β → Prop}

theorem Ensures.bind {x : ExceptT Fault (StateM σ) α} {f : α → ExceptT Fault (StateM σ) β}
    (hx : Ensures I Q x) (hf : ∀ a, Q a → Ensures I P (f a)) : Ensures I P (x >>= f) := by
  intro s hs
  obtain ⟨kept, given⟩ := hx s hs
  rw [run_bind]
  cases h : x.run s with
  | mk r t =>
      rw [h] at kept given
      cases r with
      | error fault => exact ⟨kept, fun _ impossible => nomatch impossible⟩
      | ok a => exact hf a (given a rfl) t kept

theorem Ensures.run_ok {x : ExceptT Fault (StateM σ) α} (ensures : Ensures I Q x) {s t : σ}
    (hs : I s) {a : α} (run : x.run s = (.ok a, t)) : I t ∧ Q a := by
  obtain ⟨kept, given⟩ := ensures s hs
  rw [run] at kept given
  exact ⟨kept, given a rfl⟩

theorem Ensures.of_run {x : ExceptT Fault (StateM σ) α}
    (gives : ∀ s a t, I s → x.run s = (.ok a, t) → Q a) (keeps : ∀ s, I s → I (x.run s).2) :
    Ensures I Q x :=
  fun s hs => ⟨keeps s hs, fun a given => gives s a (x.run s).2 hs (Prod.ext given rfl)⟩

theorem Ensures.pure {a : α} (ha : Q a) :
    Ensures I Q (Pure.pure a : ExceptT Fault (StateM σ) α) := by
  intro s hs
  exact ⟨hs, fun _ same => Except.ok.inj same ▸ ha⟩

theorem Ensures.throw (fault : Fault) :
    Ensures I Q (MonadExcept.throw fault : ExceptT Fault (StateM σ) α) := by
  intro s hs
  exact ⟨hs, fun _ impossible => nomatch impossible⟩

theorem Ensures.mk_pure {x : Except Fault α} (hx : Except.Gives Q x) :
    Ensures I Q (ExceptT.mk (Pure.pure x) : ExceptT Fault (StateM σ) α) := by
  intro s hs
  exact ⟨hs, hx⟩

theorem Ensures.get : Ensures I I (MonadState.get : ExceptT Fault (StateM σ) σ) := by
  intro s hs
  exact ⟨hs, fun _ same => Except.ok.inj same ▸ hs⟩

theorem Ensures.set {t : σ} (ht : I t) :
    Ensures I (fun _ => True) (MonadStateOf.set t : ExceptT Fault (StateM σ) PUnit) := by
  intro s _
  exact ⟨ht, fun _ _ => trivial⟩

theorem Ensures.mono {R : α → Prop} {x : ExceptT Fault (StateM σ) α} (hx : Ensures I Q x)
    (weaker : ∀ a, Q a → R a) : Ensures I R x :=
  fun s hs => ⟨(hx s hs).1, fun a given => weaker a ((hx s hs).2 a given)⟩

theorem Ensures.and {R : α → Prop} {x : ExceptT Fault (StateM σ) α} (hq : Ensures I Q x)
    (hr : Ensures I R x) : Ensures I (fun a => Q a ∧ R a) x :=
  fun s hs => ⟨(hq s hs).1, fun a given => ⟨(hq s hs).2 a given, (hr s hs).2 a given⟩⟩

theorem Ensures.modify {f : σ → σ} (hf : ∀ s, I s → I (f s)) :
    Ensures I (fun _ => True) (modify f : ExceptT Fault (StateM σ) PUnit) := by
  intro s hs
  exact ⟨hf s hs, fun _ _ => trivial⟩

end Ensures

/-- What a computation gives from a state, another one gives from each state that stands in a
relation to it, and the states after both stand in the relation, too. -/
def Carries (R : σ → σ → Prop) (x y : ExceptT Fault (StateM σ) α) : Prop :=
  ∀ s t a s', R s t → x.run s = (.ok a, s') → ∃ t', y.run t = (.ok a, t') ∧ R s' t'

section Carries

variable {R : σ → σ → Prop}

theorem Carries.bind {x y : ExceptT Fault (StateM σ) α} {f g : α → ExceptT Fault (StateM σ) β}
    (hxy : Carries R x y) (hfg : ∀ a, Carries R (f a) (g a)) :
    Carries R (x >>= f) (y >>= g) := by
  intro s t b s' related run
  obtain ⟨a, m, runX, runF⟩ := run_bind_ok run
  obtain ⟨m', runY, between⟩ := hxy s t a m related runX
  obtain ⟨t', runG, after⟩ := hfg a m m' b s' between runF
  refine ⟨t', ?_, after⟩
  rw [run_bind, runY]
  exact runG

theorem Carries.pure (a : α) :
    Carries R (Pure.pure a : ExceptT Fault (StateM σ) α) (Pure.pure a) := by
  intro s t b s' related run
  cases run
  exact ⟨t, rfl, related⟩

theorem Carries.mk_pure {x y : Except Fault α} (h : ∀ a, x = .ok a → y = .ok a) :
    Carries R (ExceptT.mk (Pure.pure x) : ExceptT Fault (StateM σ) α)
      (ExceptT.mk (Pure.pure y)) := by
  intro s t a s' related run
  rw [run_mk_pure] at run ⊢
  cases run
  exact ⟨t, by rw [h a rfl], related⟩

theorem Carries.modify {f g : σ → σ} (h : ∀ s t, R s t → R (f s) (g t)) :
    Carries R (modify f : ExceptT Fault (StateM σ) PUnit) (modify g) := by
  intro s t a s' related run
  cases run
  exact ⟨g t, rfl, h s t related⟩

end Carries

end Step

end Stencil
