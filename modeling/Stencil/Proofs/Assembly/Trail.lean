import Stencil.Assembly.Assemble
import Stencil.Proofs.Step
import Stencil.Proofs.Stmt.Leaves

namespace Stencil

/-- Whether all that one trail notes is noted by another one. -/
structure Trail.Within (t u : Trail) : Prop where
  files : t.files ⊆ u.files
  missing : t.missing ⊆ u.missing

namespace Trail.Within

theorem refl (t : Trail) : t.Within t := ⟨List.Subset.refl _, List.Subset.refl _⟩

theorem trans {t u v : Trail} (first : t.Within u) (second : u.Within v) : t.Within v :=
  ⟨List.Subset.trans first.files second.files, List.Subset.trans first.missing second.missing⟩

theorem missing_eq_nil {t u : Trail} (within : t.Within u) (complete : u.missing = []) :
    t.missing = [] := by
  have none := within.missing
  rw [complete] at none
  exact List.subset_nil.mp none

end Trail.Within

namespace Assembly

variable {α β : Type}

/-- Whether a step relates what was noted before it to what is noted after it, also if it fails, and
fails only with faults that satisfy a property. -/
def Keeps (R : Trail → Trail → Prop) (E : Fault → Prop) (x : Assembly α) : Prop :=
  ∀ t, R t (x.run t).2 ∧ ∀ fault, (x.run t).1 = .error fault → E fault

section Keeps

variable {R : Trail → Trail → Prop} {E : Fault → Prop}

theorem Keeps.bind (trans : ∀ t u v, R t u → R u v → R t v) {x : Assembly α}
    {f : α → Assembly β} (hx : Keeps R E x) (hf : ∀ a, Keeps R E (f a)) : Keeps R E (x >>= f) := by
  intro t
  obtain ⟨related, raises⟩ := hx t
  rw [Step.run_bind]
  cases run : x.run t with
  | mk r u =>
      rw [run] at related raises
      cases r with
      | error fault => exact ⟨related, fun _ same => raises _ (Except.error.inj same ▸ rfl)⟩
      | ok a => exact ⟨trans _ _ _ related (hf a u).1, (hf a u).2⟩

theorem Keeps.pure (refl : ∀ t, R t t) (a : α) : Keeps R E (Pure.pure a : Assembly α) :=
  fun t => ⟨refl t, fun _ impossible => nomatch impossible⟩

theorem Keeps.throw (refl : ∀ t, R t t) {fault : Fault} (allowed : E fault) :
    Keeps R E (MonadExcept.throw fault : Assembly α) :=
  fun t => ⟨refl t, fun _ same => Except.error.inj same ▸ allowed⟩

theorem Keeps.ofExcept (refl : ∀ t, R t t) {x : Except Fault α} (raises : Except.Raises E x) :
    Keeps R E (ofExcept x) := fun t => ⟨refl t, raises⟩

theorem Keeps.get (refl : ∀ t, R t t) : Keeps R E (MonadState.get : Assembly Trail) := by
  intro t
  rw [Step.run_get]
  exact ⟨refl t, fun _ impossible => nomatch impossible⟩

theorem Keeps.modify {f : Trail → Trail} (related : ∀ t, R t (f t)) :
    Keeps R E (modify f : Assembly PUnit) :=
  fun t => ⟨related t, fun _ impossible => nomatch impossible⟩

end Keeps

def Grows (x : Assembly α) : Prop := Step.Follows Trail.Within x

theorem Keeps.grows {E : Fault → Prop} {x : Assembly α} (keeps : Keeps Trail.Within E x) :
    Grows x := fun t => (keeps t).1

theorem Grows.keeps {x : Assembly α} (grows : Grows x) : Keeps Trail.Within (fun _ => True) x :=
  fun t => ⟨grows t, fun _ _ => trivial⟩

theorem Grows.bind {x : Assembly α} {f : α → Assembly β} (hx : Grows x) (hf : ∀ a, Grows (f a)) :
    Grows (x >>= f) :=
  Step.Follows.bind (R := Trail.Within) Trail.Within.trans hx hf

theorem Grows.pure (a : α) : Grows (Pure.pure a : Assembly α) :=
  Step.Follows.pure Trail.Within.refl a

theorem Grows.throw (fault : Fault) : Grows (MonadExcept.throw fault : Assembly α) :=
  Step.Follows.throw Trail.Within.refl fault

theorem Grows.ofExcept (x : Except Fault α) : Grows (ofExcept x) :=
  Step.Follows.mk_pure Trail.Within.refl x

theorem Grows.noteFiles (files : List String) : Grows (noteFiles files) :=
  Step.Follows.modify fun _ => ⟨List.subset_append_left _ _, List.Subset.refl _⟩

theorem Grows.noteMissing (name : String) : Grows (noteMissing name) :=
  Step.Follows.modify fun _ => ⟨List.Subset.refl _, List.subset_append_left _ _⟩

theorem Grows.within {x : Assembly α} (hx : Grows x) {s t : Trail} {r : Except Fault α}
    (run : x.run s = (r, t)) : s.Within t := by
  have within := hx s
  rw [run] at within
  exact within

theorem ofExcept_run_ok {x : Except Fault α} {s t : Trail} {a : α}
    (run : (ofExcept x).run s = (.ok a, t)) : x = .ok a ∧ t = s := by
  rw [ofExcept, Step.run_mk_pure] at run
  cases run
  exact ⟨rfl, rfl⟩

end Assembly

section Assemble

open Assembly Stmt

variable {p : Plan} {template : Option String} {place : Place}

/-- Whether all steps of assembling statements in a place keep a relation and fail with certain
faults only. -/
structure Place.Keeps (p : Plan) (template : Option String) (place : Place)
    (R : Trail → Trail → Prop) (E : Fault → Prop) : Prop where
  refl : ∀ t, R t t
  trans : ∀ t u v, R t u → R u v → R t v
  checks : ∀ locals e, Except.Raises E (checkExpr p.registries template locals e)
  searches : ∀ body, Except.Raises E (p.bodyUsesLoop body)
  expands : ∀ locals name, Assembly.Keeps R E (place.expand locals name)

section Keeps

variable {R : Trail → Trail → Prop} {E : Fault → Prop}

mutual

theorem assemble_keeps (hplace : place.Keeps p template R E) {locals : List String} :
    (s : Stmt) → Keeps R E (assemble p template place locals s)
  | .text _ _ => by
      rw [assemble]
      exact .pure hplace.refl _
  | .output _ value _ => by
      rw [assemble]
      refine .bind hplace.trans (.ofExcept hplace.refl (hplace.checks locals value)) fun _ => ?_
      exact .pure hplace.refl _
  | .branch _ condition body others otherwise => by
      rw [assemble]
      refine .bind hplace.trans (assembleAll_keeps hplace body) fun _ => ?_
      refine .bind hplace.trans (assembleAll_keeps hplace otherwise) fun _ => ?_
      refine .bind hplace.trans (.ofExcept hplace.refl (hplace.checks locals condition)) fun _ => ?_
      refine .bind hplace.trans (assembleOthers_keeps hplace others) fun _ => ?_
      exact .pure hplace.refl _
  | .loop _ _ items body empty => by
      rw [assemble]
      refine .bind hplace.trans (.ofExcept hplace.refl (hplace.searches body)) fun _ => ?_
      refine .bind hplace.trans (.ofExcept hplace.refl (hplace.checks locals items)) fun _ => ?_
      refine .bind hplace.trans (assembleAll_keeps hplace body) fun _ => ?_
      refine .bind hplace.trans (assembleAll_keeps hplace empty) fun _ => ?_
      exact .pure hplace.refl _
  | .while _ condition body => by
      rw [assemble]
      refine .bind hplace.trans (assembleAll_keeps hplace body) fun _ => ?_
      refine .bind hplace.trans (.ofExcept hplace.refl (hplace.checks locals condition)) fun _ => ?_
      exact .pure hplace.refl _
  | .block _ _ body => by
      rw [assemble]
      exact assembleAll_keeps hplace body
  | .include _ name => by
      rw [assemble]
      exact .bind hplace.trans (hplace.expands locals name) fun _ => .pure hplace.refl _
  | .set _ _ value => by
      rw [assemble]
      refine .bind hplace.trans (.ofExcept hplace.refl (hplace.checks locals value)) fun _ => ?_
      exact .pure hplace.refl _
  | .spaceless _ body => by
      rw [assemble]
      exact .bind hplace.trans (assembleAll_keeps hplace body) fun _ => .pure hplace.refl _
  | .debug _ none _ => by
      rw [assemble]
      exact .pure hplace.refl _
  | .debug _ (some e) _ => by
      rw [assemble]
      refine .bind hplace.trans (.ofExcept hplace.refl (hplace.checks locals e)) fun _ => ?_
      exact .pure hplace.refl _

theorem assembleAll_keeps (hplace : place.Keeps p template R E) {locals : List String} :
    (body : List Stmt) → Keeps R E (assembleAll p template place locals body)
  | [] => by
      rw [assembleAll]
      exact .pure hplace.refl _
  | s :: rest => by
      rw [assembleAll]
      refine .bind hplace.trans (assemble_keeps hplace s) fun _ => ?_
      exact .bind hplace.trans (assembleAll_keeps hplace rest) fun _ => .pure hplace.refl _

theorem assembleOthers_keeps (hplace : place.Keeps p template R E) {locals : List String} :
    (others : List (Expr × List Stmt)) →
      Keeps R E (assembleOthers p template place locals others)
  | [] => by
      rw [assembleOthers]
      exact .pure hplace.refl _
  | (condition, body) :: rest => by
      rw [assembleOthers]
      refine .bind hplace.trans (.ofExcept hplace.refl (hplace.checks locals condition)) fun _ => ?_
      refine .bind hplace.trans (assembleAll_keeps hplace body) fun _ => ?_
      exact .bind hplace.trans (assembleOthers_keeps hplace rest) fun _ => .pure hplace.refl _

end

end Keeps

def Place.Grows (place : Place) : Prop := ∀ locals name, Assembly.Grows (place.expand locals name)

theorem Place.Grows.keeps (hplace : place.Grows) :
    place.Keeps p template Trail.Within fun _ => True where
  refl := Trail.Within.refl
  trans _ _ _ := Trail.Within.trans
  checks _ _ _ _ := trivial
  searches _ _ _ := trivial
  expands locals name := (hplace locals name).keeps

theorem assembleAll_grows (hplace : place.Grows) {locals : List String} (body : List Stmt) :
    Grows (assembleAll p template place locals body) := (assembleAll_keeps hplace.keeps body).grows

theorem assembleOthers_grows (hplace : place.Grows) {locals : List String}
    (others : List (Expr × List Stmt)) : Grows (assembleOthers p template place locals others) :=
  (assembleOthers_keeps hplace.keeps others).grows

theorem expandInclude_grows {room : Nat} {stack locals : List String} {name : String} :
    Grows (expandInclude p template room stack locals name) := by
  induction room generalizing stack locals name with
  | zero =>
      rw [expandInclude]
      split
      · exact .throw _
      · exact .throw _
  | succ room ih =>
      rw [expandInclude]
      split
      · exact .throw _
      · split
        · split
          · exact .bind (.noteMissing name) fun _ => .pure _
          · exact .throw _
        · next t files _ =>
            refine .bind (.noteFiles files) fun _ => ?_
            exact assembleAll_grows (fun _ _ => ih) t.body

/-! Each include of a body is expanded on the way. -/

/-- A step after which an include has been expanded in a place, if it succeeds. -/
def Expands {α : Type} (place : Place) (name : String) (x : Assembly α) : Prop :=
  ∀ s a u, x.run s = (.ok a, u) →
    ∃ locals t code v, (place.expand locals name).run t = (.ok code, v) ∧ v.Within u

namespace Expands

variable {α β : Type} {name : String} {x : Assembly α} {f : α → Assembly β}

theorem first (hx : Expands place name x) (hf : ∀ a, Grows (f a)) :
    Expands place name (x >>= f) := by
  intro s b u run
  obtain ⟨a, m, runFirst, runRest⟩ := Step.run_bind_ok run
  obtain ⟨locals, t, code, v, expanded, within⟩ := hx s a m runFirst
  exact ⟨locals, t, code, v, expanded, within.trans ((hf a).within runRest)⟩

theorem rest (hf : ∀ a, Expands place name (f a)) : Expands place name (x >>= f) := by
  intro s b u run
  obtain ⟨a, m, _, runRest⟩ := Step.run_bind_ok run
  exact hf a m b u runRest

end Expands

section Expands

variable {name : String} {pos : Pos}

mutual

theorem assemble_expands (hplace : place.Grows) {locals : List String} :
    (s : Stmt) → .include pos name ∈ s.leaves →
      Expands place name (assemble p template place locals s)
  | .branch _ _ body others otherwise, member => by
      simp only [leaves, List.mem_append] at member
      rw [assemble]
      rcases member with inBody | inOthers | inOtherwise
      · refine .first (assembleAll_expands hplace body inBody) fun _ => ?_
        refine .bind (assembleAll_grows hplace otherwise) fun _ => ?_
        refine .bind (.ofExcept _) fun _ => ?_
        exact .bind (assembleOthers_grows hplace others) fun _ => .pure _
      · refine .rest fun _ => .rest fun _ => .rest fun _ => ?_
        exact .first (assembleOthers_expands hplace others inOthers) fun _ => .pure _
      · refine .rest fun _ => .first (assembleAll_expands hplace otherwise inOtherwise) fun _ => ?_
        refine .bind (.ofExcept _) fun _ => ?_
        exact .bind (assembleOthers_grows hplace others) fun _ => .pure _
  | .loop _ _ _ body empty, member => by
      simp only [leaves, List.mem_append] at member
      rw [assemble]
      refine .rest fun _ => .rest fun _ => ?_
      rcases member with inBody | inEmpty
      · refine .first (assembleAll_expands hplace body inBody) fun _ => ?_
        exact .bind (assembleAll_grows hplace empty) fun _ => .pure _
      · exact .rest fun _ => .first (assembleAll_expands hplace empty inEmpty) fun _ => .pure _
  | .while _ _ body, member => by
      rw [assemble]
      refine .first (assembleAll_expands hplace body member) fun _ => ?_
      exact .bind (.ofExcept _) fun _ => .pure _
  | .block _ _ body, member => by
      rw [assemble]
      exact assembleAll_expands hplace body member
  | .spaceless _ body, member => by
      rw [assemble]
      exact .first (assembleAll_expands hplace body member) fun _ => .pure _
  | .include _ _, member => by
      simp only [leaves, List.mem_singleton] at member
      cases member
      rw [assemble]
      refine .first (fun s code u run => ?_) fun _ => .pure _
      exact ⟨locals, s, code, u, run, .refl u⟩
  | .text _ _, member => by simp [leaves] at member
  | .output _ _ _, member => by simp [leaves] at member
  | .set _ _ _, member => by simp [leaves] at member
  | .debug _ _ _, member => by simp [leaves] at member

theorem assembleAll_expands (hplace : place.Grows) {locals : List String} :
    (body : List Stmt) → .include pos name ∈ leavesOf body →
      Expands place name (assembleAll p template place locals body)
  | [], member => by simp [leavesOf] at member
  | s :: rest, member => by
      simp only [leavesOf, List.mem_append] at member
      rw [assembleAll]
      rcases member with inFirst | inRest
      · refine .first (assemble_expands hplace s inFirst) fun _ => ?_
        exact .bind (assembleAll_grows hplace rest) fun _ => .pure _
      · exact .rest fun _ => .first (assembleAll_expands hplace rest inRest) fun _ => .pure _

theorem assembleOthers_expands (hplace : place.Grows) {locals : List String} :
    (others : List (Expr × List Stmt)) → .include pos name ∈ leavesOfOthers others →
      Expands place name (assembleOthers p template place locals others)
  | [], member => by simp [leavesOfOthers] at member
  | (_, body) :: rest, member => by
      simp only [leavesOfOthers, List.mem_append] at member
      rw [assembleOthers]
      refine .rest fun _ => ?_
      rcases member with inBody | inRest
      · refine .first (assembleAll_expands hplace body inBody) fun _ => ?_
        exact .bind (assembleOthers_grows hplace rest) fun _ => .pure _
      · exact .rest fun _ => .first (assembleOthers_expands hplace rest inRest) fun _ => .pure _

end

end Expands

end Assemble

end Stencil
