import Mathlib.Data.List.Nodup
import Stencil.Proofs.Inheritance.Ancestors
import Stencil.Value.Fault

/-!
When the parents of a template can be followed to the last one. The way is tried a name at a time:
a name that was met before is refused first, then one name too many, then a name that is not there.
-/

namespace Stencil.Chain

variable {load : String → Except Fault Found} {maxDepth : Int}

/-- The ways from a template over its parents, not always to the last one: the names on the way with
what is found there, and the template at the end. -/
inductive Climbs (load : String → Except Fault Found) :
    Template → List (String × Found) → Template → Prop
  | here {t : Template} : Climbs load t [] t
  | up {t last : Template} {q : Parent} {found : Found} {way : List (String × Found)} :
      t.parent = some q → load q.template = .ok found → Climbs load found.template way last →
        Climbs load t ((q.template, found) :: way) last

/-- The error of a step from a chain of names to one more. At most `maxDepth` names may follow the
first one. -/
inductive Stops (load : String → Except Fault Found) (maxDepth : Int) (chain : List String)
    (next : String) : Fault → Prop
  | again : next ∈ chain →
      Stops load maxDepth chain next (.diagnostic (.recursion (chain ++ [next]) none))
  | deep : next ∉ chain → maxDepth < chain.length →
      Stops load maxDepth chain next (.diagnostic (.recursion (chain ++ [next]) (some maxDepth)))
  | missing {message : String} : next ∉ chain → (chain.length : Int) ≤ maxDepth →
      load next = .error (.diagnostic (.notFound message)) →
        Stops load maxDepth chain next (.diagnostic (.notFound message))

/-- Whether a loader finds every template but those that are not there. -/
def RefusesMissing (load : String → Except Fault Found) : Prop :=
  ∀ name e, load name = .error e → ∃ message, e = .diagnostic (.notFound message)

def namesOn (way : List (String × Found)) : List String := way.map Prod.fst

def filesOn (way : List (String × Found)) : List String := way.flatMap (addedFiles ·.2)

section Climb

variable {room : Nat} {names : List String} {table : BlockTable} {files : List String}
  {t last : Template} {way : List (String × Found)}

theorem nodup_chain_cons {q : String} :
    (names.reverse ++ q :: namesOn way).Nodup ↔ ((q :: names).reverse ++ namesOn way).Nodup := by
  simp

theorem follow_climb (maxDepth : Int) (table : BlockTable) (files : List String)
    (climbs : Climbs load t way last) (short : way.length ≤ room)
    (distinct : (names.reverse ++ namesOn way).Nodup) :
    ∃ table', follow load Fault.diagnostic maxDepth room names table files t =
      follow load Fault.diagnostic maxDepth (room - way.length) ((namesOn way).reverse ++ names)
        table' (files ++ filesOn way) last := by
  induction climbs generalizing room names table files with
  | here => exact ⟨table, by simp [namesOn, filesOn]⟩
  | @up t last q found way hparent loaded _ ih =>
      obtain ⟨room, rfl⟩ : ∃ room', room = room' + 1 := by
        cases room with
        | zero => simp at short
        | succ room => exact ⟨room, rfl⟩
      have fresh : q.template ∉ names := by
        intro member
        refine (List.nodup_append.mp distinct).2.2 q.template ?_ q.template ?_ rfl
        · exact List.mem_reverse.mpr member
        · exact List.mem_cons_self
      rw [follow_parent hparent fresh loaded]
      obtain ⟨table', rest⟩ :=
        ih _ _ (Nat.le_of_succ_le_succ short) (nodup_chain_cons.mp distinct)
      refine ⟨table', rest.trans ?_⟩
      simp [namesOn, filesOn]

theorem follow_stops (table : BlockTable) (files : List String)
    (counted : room + names.length = maxDepth.toNat + 1) (begun : names ≠ [])
    {q : Parent} (hparent : t.parent = some q) {e : Fault}
    (stops : Stops load maxDepth names.reverse q.template e) :
    follow load Fault.diagnostic maxDepth room names table files t = .error e := by
  have nonempty : 0 < names.length := List.length_pos_iff.mpr begun
  rw [follow.eq_def]
  cases stops with
  | again met =>
      have met : q.template ∈ names := List.mem_reverse.mp met
      simp [hparent, met]
  | deep fresh deep =>
      have fresh : q.template ∉ names := fun member => fresh (List.mem_reverse.mpr member)
      have full : room = 0 := by
        rw [List.length_reverse] at deep
        omega
      simp [hparent, fresh, full]
  | missing fresh within refused =>
      have fresh : q.template ∉ names := fun member => fresh (List.mem_reverse.mpr member)
      obtain ⟨room, rfl⟩ : ∃ room', room = room' + 1 := by
        rw [List.length_reverse] at within
        exact ⟨room - 1, by omega⟩
      simp [hparent, fresh, refused]

/-- A step that does not stop leads to a new name that is there, and is not one too many. -/
theorem stops_or_loads
    (refused : RefusesMissing load) (maxDepth : Int) (chain : List String) (next : String) :
    (∃ e, Stops load maxDepth chain next e) ∨
      next ∉ chain ∧ (chain.length : Int) ≤ maxDepth ∧ ∃ found, load next = .ok found := by
  by_cases met : next ∈ chain
  · exact .inl ⟨_, .again met⟩
  · by_cases within : (chain.length : Int) ≤ maxDepth
    · cases hload : load next with
      | error e =>
          obtain ⟨message, rfl⟩ := refused next e hload
          exact .inl ⟨_, .missing met within hload⟩
      | ok found => exact .inr ⟨met, within, found, rfl⟩
    · exact .inl ⟨_, .deep met (Int.not_le.mp within)⟩

/-- Where a search stops: at a last template, or at a step with an error. -/
def Ends (load : String → Except Fault Found) (maxDepth : Int) (chain : List String)
    (last : Template) : Prop :=
  last.parent = none ∨
    ∃ q e, last.parent = some q ∧ Stops load maxDepth chain q.template e

/-- From every template a way leads to where the search stops. The way is no longer than there is
room, so it ends whatever names the loader has. -/
theorem exists_climb (room : Nat) (names : List String) (refused : RefusesMissing load)
    (t : Template) (counted : room + names.length = maxDepth.toNat + 1) (distinct : names.Nodup) :
    ∃ way last, Climbs load t way last ∧ way.length ≤ room ∧
      (names.reverse ++ namesOn way).Nodup ∧
      Ends load maxDepth (names.reverse ++ namesOn way) last := by
  have atStart : Ends load maxDepth names.reverse t → ∃ way last, Climbs load t way last ∧
      way.length ≤ room ∧ (names.reverse ++ namesOn way).Nodup ∧
      Ends load maxDepth (names.reverse ++ namesOn way) last := by
    intro ends
    refine ⟨[], t, .here, Nat.zero_le room, ?_, ?_⟩
    · simpa [namesOn] using List.nodup_reverse.mpr distinct
    · simpa [namesOn] using ends
  cases hparent : t.parent with
  | none => exact atStart (.inl hparent)
  | some q =>
      rcases stops_or_loads refused maxDepth names.reverse q.template with
        ⟨e, stops⟩ | ⟨fresh, within, found, loaded⟩
      · exact atStart (.inr ⟨q, e, hparent, stops⟩)
      · rw [List.length_reverse] at within
        rw [List.mem_reverse] at fresh
        cases room with
        | zero => omega
        | succ room =>
            obtain ⟨way, last, climbs, short, apart, ends⟩ :=
              exists_climb room (q.template :: names) refused found.template
                (by rw [List.length_cons]; omega) (List.nodup_cons.mpr ⟨fresh, distinct⟩)
            refine ⟨(q.template, found) :: way, last, .up hparent loaded climbs,
              Nat.succ_le_succ short, nodup_chain_cons.mpr apart, ?_⟩
            simpa [namesOn] using ends

end Climb

variable {t last : Template} {name : String} {way : List (String × Found)}

theorem flatten_climb (maxDepth : Int) (climbs : Climbs load t way last)
    (short : way.length ≤ maxDepth.toNat) (distinct : (name :: namesOn way).Nodup) :
    ∃ table, follow load Fault.diagnostic maxDepth maxDepth.toNat [name] [] [] t =
      follow load Fault.diagnostic maxDepth (maxDepth.toNat - way.length)
        ((namesOn way).reverse ++ [name]) table (filesOn way) last := by
  have distinct : ([name].reverse ++ namesOn way).Nodup := distinct
  obtain ⟨table, followed⟩ := follow_climb maxDepth [] [] climbs short distinct
  exact ⟨table, followed⟩

theorem flatten_last (climbs : Climbs load t way last) (root : last.parent = none)
    (short : way.length ≤ maxDepth.toNat) (distinct : (name :: namesOn way).Nodup) :
    ∃ flat, flatten load Fault.diagnostic maxDepth t name = .ok (flat, filesOn way) := by
  obtain ⟨table, followed⟩ := flatten_climb maxDepth climbs short distinct
  rw [follow_last root] at followed
  rw [flatten, followed]
  exact ⟨_, rfl⟩

theorem flatten_stops (climbs : Climbs load t way last) {q : Parent}
    (hparent : last.parent = some q) (short : way.length ≤ maxDepth.toNat)
    (distinct : (name :: namesOn way).Nodup) {e : Fault}
    (stops : Stops load maxDepth (name :: namesOn way) q.template e) :
    flatten load Fault.diagnostic maxDepth t name = .error e := by
  obtain ⟨table, followed⟩ := flatten_climb maxDepth climbs short distinct
  have counted : (maxDepth.toNat - way.length) + ((namesOn way).reverse ++ [name]).length =
      maxDepth.toNat + 1 := by
    rw [List.length_append, List.length_reverse, namesOn, List.length_map, List.length_singleton]
    omega
  have stops : Stops load maxDepth ((namesOn way).reverse ++ [name]).reverse q.template e := by
    simpa using stops
  have begun : (namesOn way).reverse ++ [name] ≠ [] := by simp
  rw [flatten, followed, follow_stops table _ counted begun hparent stops]

/-- Flattening succeeds just when the parents lead to a last template without a repeated name, over
names that are all there and no more of them than `maxDepth`; the files are those found on the way.
Otherwise the first step that stops gives the error. A limit below zero is as strict as zero. -/
theorem flatten_outcome (refused : RefusesMissing load) (maxDepth : Int) (t : Template)
    (name : String) :
    (∀ files, (∃ flat, flatten load Fault.diagnostic maxDepth t name = .ok (flat, files)) ↔
      ∃ way last, Climbs load t way last ∧ last.parent = none ∧ way.length ≤ maxDepth.toNat ∧
        (name :: namesOn way).Nodup ∧ files = filesOn way) ∧
    (∀ e, flatten load Fault.diagnostic maxDepth t name = .error e ↔
      ∃ way last q, Climbs load t way last ∧ last.parent = some q ∧
        way.length ≤ maxDepth.toNat ∧ (name :: namesOn way).Nodup ∧
        Stops load maxDepth (name :: namesOn way) q.template e) := by
  obtain ⟨way, last, climbs, short, distinct, ends⟩ :=
    exists_climb maxDepth.toNat [name] refused t rfl (List.nodup_singleton name)
  constructor
  · intro files
    constructor
    · rintro ⟨flat, flattened⟩
      rcases ends with root | ⟨q, e, hparent, stops⟩
      · obtain ⟨flat', flattened'⟩ := flatten_last climbs root short distinct
        rw [flattened'] at flattened
        cases flattened
        exact ⟨way, last, climbs, root, short, distinct, rfl⟩
      · rw [flatten_stops climbs hparent short distinct stops] at flattened
        cases flattened
    · rintro ⟨way', last', climbs', root, short', distinct', rfl⟩
      exact flatten_last climbs' root short' distinct'
  · intro e
    constructor
    · intro stopped
      rcases ends with root | ⟨q, e', hparent, stops⟩
      · obtain ⟨flat, flattened⟩ := flatten_last climbs root short distinct
        rw [flattened] at stopped
        cases stopped
      · rw [flatten_stops climbs hparent short distinct stops] at stopped
        cases stopped
        exact ⟨way, last, q, climbs, hparent, short, distinct, stops⟩
    · rintro ⟨way', last', q, climbs', hparent, short', distinct', stops⟩
      exact flatten_stops climbs' hparent short' distinct' stops

def extending (parent : String) : Template := ⟨[], some ⟨⟨1, 0⟩, parent⟩⟩

/-- A loader of endlessly many templates: each one but "base" has a parent of a longer name, and
only "gone" is not there. -/
def endless (name : String) : Except Fault Found :=
  if name = "gone" then .error (.diagnostic (.missing name))
  else if name = "base" then .ok ⟨⟨[], none⟩, some "base.html"⟩
  else .ok ⟨extending (name ++ "+"), some (name ++ ".html")⟩

theorem endless_refuses : RefusesMissing endless := by
  intro name e hload
  rw [endless] at hload
  split at hload
  · cases hload
    exact ⟨_, rfl⟩
  · split at hload <;> cases hload

theorem flatten_outcome_endless :
    (∃ flat, flatten endless Fault.diagnostic 1 (extending "base") "page" =
      .ok (flat, ["base.html"])) ∧
    flatten endless Fault.diagnostic 2 (extending "a") "page" =
      .error (.diagnostic (.recursion ["page", "a", "a+", "a++"] (some 2))) ∧
    flatten endless Fault.diagnostic 0 (extending "page") "page" =
      .error (.diagnostic (.recursion ["page", "page"] none)) ∧
    flatten endless Fault.diagnostic 2 (extending "gone") "page" =
      .error (.diagnostic (.missing "gone")) := by
  refine ⟨?_, ?_, ?_, ?_⟩
  · refine ((flatten_outcome endless_refuses 1 _ "page").1 _).mpr
      ⟨[("base", ⟨⟨[], none⟩, some "base.html"⟩)], ⟨[], none⟩, ?_, rfl, by decide⟩
    exact .up (q := ⟨⟨1, 0⟩, "base"⟩) rfl rfl .here
  · refine ((flatten_outcome endless_refuses 2 _ "page").2 _).mpr
      ⟨[("a", ⟨extending "a+", some "a.html"⟩), ("a+", ⟨extending "a++", some "a+.html"⟩)],
        extending "a++", ⟨⟨1, 0⟩, "a++"⟩, ?_, rfl, by decide, by decide, ?_⟩
    · exact .up (q := ⟨⟨1, 0⟩, "a"⟩) rfl rfl (.up (q := ⟨⟨1, 0⟩, "a+"⟩) rfl rfl .here)
    · exact .deep (by decide) (by decide)
  · refine ((flatten_outcome endless_refuses 0 _ "page").2 _).mpr
      ⟨[], extending "page", ⟨⟨1, 0⟩, "page"⟩, .here, rfl, by decide, by decide, ?_⟩
    exact .again (by decide)
  · refine ((flatten_outcome endless_refuses 2 _ "page").2 _).mpr
      ⟨[], extending "gone", ⟨⟨1, 0⟩, "gone"⟩, .here, rfl, by decide, by decide, ?_⟩
    exact .missing (by decide) (by decide) rfl

end Stencil.Chain
