import Stencil.Proofs.Assembly.Recursion
import Stencil.Proofs.Inheritance.Ascent

namespace Stencil

namespace Chain

variable {load : String → Except Fault Found} {maxDepth : Int}

section Follow

variable {room : Nat} {names : List String} {table : BlockTable} {files : List String}
  {t : Template}

/-- Following the parents ends with an error where they lead back or too far, or with the error of
finding one. -/
theorem follow_error {e : Fault}
    (stopped : follow load Fault.diagnostic maxDepth room names table files t = .error e) :
    ∃ q, t.parent = some q ∧ ((∃ chain limit, e = .diagnostic (.recursion chain limit)) ∨
      ∃ room', room = room' + 1 ∧ q.template ∉ names ∧ (load q.template = .error e ∨
        ∃ found, load q.template = .ok found ∧
          follow load Fault.diagnostic maxDepth room' (q.template :: names)
            (table ++ Stmt.blockTable t.body) (files ++ addedFiles found) found.template =
              .error e)) := by
  rw [follow.eq_def] at stopped
  cases hparent : t.parent with
  | none => simp [hparent] at stopped
  | some q =>
      refine ⟨q, rfl, ?_⟩
      simp only [hparent] at stopped
      split at stopped
      · cases stopped
        exact .inl ⟨_, _, rfl⟩
      · next unmet =>
          cases room with
          | zero =>
              cases stopped
              exact .inl ⟨_, _, rfl⟩
          | succ room =>
              refine .inr ⟨room, rfl, by simpa using unmet, ?_⟩
              cases hload : load q.template with
              | error e' =>
                  simp only [hload] at stopped
                  cases stopped
                  exact .inl rfl
              | ok found =>
                  simp only [hload] at stopped
                  exact .inr ⟨found, rfl, stopped⟩

theorem follow_orphan {message : String} (distinct : names.Nodup)
    (stopped : follow load Fault.diagnostic maxDepth room names table files t =
      .error (.diagnostic (.notFound message))) :
    ∃ way last q, Climbs load t way last ∧ last.parent = some q ∧ way.length < room ∧
      (names.reverse ++ namesOn way).Nodup ∧ q.template ∉ names.reverse ++ namesOn way ∧
      load q.template = .error (.diagnostic (.notFound message)) := by
  induction room generalizing names table files t with
  | zero =>
      obtain ⟨_, _, ⟨_, _, other⟩ | ⟨_, impossible, _⟩⟩ := follow_error stopped
      · cases other
      · cases impossible
  | succ room ih =>
      obtain ⟨q, hparent, ⟨_, _, other⟩ | ⟨_, same, fresh, missing | ⟨found, loaded, further⟩⟩⟩ :=
        follow_error stopped
      · cases other
      · refine ⟨[], t, q, .here, hparent, Nat.succ_pos room, ?_, ?_, missing⟩
        · simpa [namesOn] using List.nodup_reverse.mpr distinct
        · simpa [namesOn] using fresh
      · cases same
        obtain ⟨way, last, q', climbs, hlast, short, apart, unmet, missing⟩ :=
          ih (List.nodup_cons.mpr ⟨fresh, distinct⟩) further
        refine ⟨(q.template, found) :: way, last, q', .up hparent loaded climbs, hlast,
          Nat.succ_lt_succ short, nodup_chain_cons.mpr apart, ?_, missing⟩
        simpa [namesOn] using unmet

end Follow

/-- Whether the parents of a template lead, without repeating a name and within the limit, to one
that is not there. -/
def Orphaned (load : String → Except Fault Found) (maxDepth : Int) (name : String)
    (t : Template) (message : String) : Prop :=
  ∃ way last q, Climbs load t way last ∧ last.parent = some q ∧ way.length ≤ maxDepth.toNat ∧
    (name :: namesOn way).Nodup ∧
    Stops load maxDepth (name :: namesOn way) q.template (.diagnostic (.notFound message))

/-- Flattening tells that a template is missing just when the parents lead to a missing one. -/
theorem flatten_notFound_iff {t : Template} {name message : String} :
    flatten load Fault.diagnostic maxDepth t name = .error (.diagnostic (.notFound message)) ↔
      Orphaned load maxDepth name t message := by
  constructor
  · intro stopped
    rw [flatten] at stopped
    split at stopped
    · next followed =>
        cases stopped
        obtain ⟨way, last, q, climbs, hparent, short, distinct, fresh, missing⟩ :=
          follow_orphan (List.nodup_singleton name) followed
        refine ⟨way, last, q, climbs, hparent, Nat.le_of_lt short, distinct, ?_⟩
        refine .missing fresh ?_ missing
        rw [List.length_cons, namesOn, List.length_map]
        omega
    · cases stopped
  · rintro ⟨way, last, q, climbs, hparent, short, distinct, stops⟩
    exact flatten_stops climbs hparent short distinct stops

end Chain

theorem Source.template_error {s : Source} {limit : Int} {d : Diagnostic}
    (refused : s.template limit = .error d) : ∃ e, d = .source e := by
  unfold template at refused
  cases htokens : s.tokens with
  | error d' =>
      rw [htokens] at refused
      cases refused
      unfold tokens at htokens
      split at htokens
      · cases htokens
      · cases htokens
        exact ⟨_, rfl⟩
  | ok stream =>
      simp only [htokens, bind, Except.bind] at refused
      split at refused
      · cases refused
      · cases refused
        exact ⟨_, rfl⟩

namespace Plan

variable {p : Plan}

theorem parse_error {s : Source} {fault : Fault} (refused : p.parse s = .error fault) :
    ∃ e, fault = .diagnostic (.source e) := by
  unfold parse at refused
  split at refused
  · cases refused
  · next failed =>
      obtain ⟨e, rfl⟩ := Source.template_error failed
      cases refused
      exact ⟨e, rfl⟩

/-- Whether an include of a name finds nothing: no template of that name is there, or the parents of
the one that is there lead to one that is not. -/
inductive Unfound (p : Plan) (name : String) : Prop
  | absent {message : String} :
      p.library.read name = .error (.diagnostic (.notFound message)) → Unfound p name
  | orphan {found : Found} {message : String} : p.found name = .ok found →
      Chain.Orphaned p.found p.limits.depth name found.template message → Unfound p name

theorem found_notFound_iff {name message : String} :
    p.found name = .error (.diagnostic (.notFound message)) ↔
      p.library.read name = .error (.diagnostic (.notFound message)) := by
  simp only [found, sheet, bind, Except.bind]
  cases p.library.read name with
  | error fault => simp
  | ok sheet =>
      -- A source that is too large or not well written is there.
      dsimp only
      split
      · next refused =>
          split at refused
          · cases refused
            simp
          · cases refused
      · next accepted =>
          cases hparse : p.parse ⟨_, some name, _⟩ with
          | error fault =>
              obtain ⟨e, rfl⟩ := parse_error hparse
              simp
          | ok t => simp [pure, Except.pure]

/-- An include finds nothing just when the template of its name cannot be flattened for a template
that is not there. -/
theorem flattened_notFound_iff {name : String} :
    (∃ message, p.flattened name = .error (.diagnostic (.notFound message))) ↔ p.Unfound name := by
  constructor
  · rintro ⟨message, failed⟩
    simp only [flattened, bind, Except.bind] at failed
    cases hfound : p.found name with
    | error fault =>
        rw [hfound] at failed
        cases failed
        exact .absent (found_notFound_iff.mp hfound)
    | ok found =>
        rw [hfound] at failed
        dsimp only at failed
        cases hflatten : p.flatten found.template name with
        | error fault =>
            rw [hflatten] at failed
            cases failed
            exact .orphan hfound (Chain.flatten_notFound_iff.mp hflatten)
        | ok flat =>
            rw [hflatten] at failed
            cases failed
  · rintro (@⟨message, missing⟩ | @⟨found, message, hfound, orphaned⟩)
    · refine ⟨message, ?_⟩
      simp only [flattened, found_notFound_iff.mpr missing, bind, Except.bind]
    · have hflatten : p.flatten found.template name = .error (.diagnostic (.notFound message)) :=
        Chain.flatten_notFound_iff.mpr orphaned
      refine ⟨message, ?_⟩
      simp only [flattened, hfound, hflatten, bind, Except.bind]

end Plan

theorem Fault.isNotFound_iff {fault : Fault} :
    fault.isNotFound = true ↔ ∃ message, fault = .diagnostic (.notFound message) := by
  unfold Fault.isNotFound
  split <;> simp_all

/-- Whether all that was noted as missing from one trail to another one finds nothing. -/
def Trail.Skips (p : Plan) (t u : Trail) : Prop :=
  ∃ names, u.missing = t.missing ++ names ∧ ∀ name ∈ names, p.Unfound name

namespace Trail.Skips

variable {p : Plan}

theorem refl (t : Trail) : t.Skips p t := ⟨[], (List.append_nil _).symm, List.forall_mem_nil _⟩

theorem trans (t u v : Trail) (first : t.Skips p u) (second : u.Skips p v) : t.Skips p v := by
  obtain ⟨names, noted, unfound⟩ := first
  obtain ⟨more, notedMore, unfoundMore⟩ := second
  refine ⟨names ++ more, ?_, List.forall_mem_append.mpr ⟨unfound, unfoundMore⟩⟩
  rw [notedMore, noted, List.append_assoc]

end Trail.Skips

section Assemble

open Assembly

variable {p : Plan} {template : Option String} {room : Nat} {stack locals : List String}
  {name : String}

theorem Place.keeps_skips {place : Place}
    (expands : ∀ locals name, Assembly.Keeps (Trail.Skips p) (fun fault => fault.isNotFound = false)
      (place.expand locals name)) :
    place.Keeps p template (Trail.Skips p) fun fault => fault.isNotFound = false where
  refl := Trail.Skips.refl
  trans := Trail.Skips.trans
  checks _ e := checkExpr_raises (fun _ => rfl) e
  searches := Plan.bodyUsesLoop_raises (E := fun fault => fault.isNotFound = false) rfl
    fun _ _ _ there => there
  expands := expands

/-- What an include leads to is noted as missing only if it finds nothing, and that a template is
missing is never its error. -/
theorem expandInclude_skips :
    Keeps (Trail.Skips p) (fun fault => fault.isNotFound = false)
      (expandInclude p template room stack locals name) := by
  induction room generalizing stack locals name with
  | zero =>
      rw [expandInclude]
      split
      · exact .throw Trail.Skips.refl rfl
      · exact .throw Trail.Skips.refl rfl
  | succ room ih =>
      rw [expandInclude]
      split
      · exact .throw Trail.Skips.refl rfl
      · cases hflat : p.flattened name with
        | error fault =>
            dsimp only
            split
            · next missing =>
                obtain ⟨message, rfl⟩ := Fault.isNotFound_iff.mp missing
                have unfound := Plan.flattened_notFound_iff.mp ⟨message, hflat⟩
                refine .bind Trail.Skips.trans (.modify fun t => ⟨[name], rfl, ?_⟩) fun _ =>
                  .pure Trail.Skips.refl _
                exact List.forall_mem_singleton.mpr unfound
            · next there => exact .throw Trail.Skips.refl (by simpa using there)
        | ok flat =>
            refine .bind Trail.Skips.trans
              (.modify fun t => ⟨[], (List.append_nil _).symm, List.forall_mem_nil _⟩) fun _ => ?_
            exact assembleAll_keeps (Place.keeps_skips fun _ _ => ih) flat.1.body

theorem expandInclude_passes_iff (fresh : name ∉ stack) (t : Trail) :
    (expandInclude p template (room + 1) stack locals name).run t =
        (.ok [], { t with missing := t.missing ++ [name] }) ↔ p.Unfound name := by
  constructor
  · intro passed
    have skips : t.Skips p ((expandInclude p template (room + 1) stack locals name).run t).2 :=
      (expandInclude_skips t).1
    rw [passed] at skips
    obtain ⟨names, noted, unfound⟩ := skips
    rw [← List.append_cancel_left noted] at unfound
    exact unfound name (List.mem_singleton.mpr rfl)
  · intro unfound
    obtain ⟨message, hflat⟩ := Plan.flattened_notFound_iff.mpr unfound
    rw [expandInclude, if_neg (by simpa using fresh)]
    simp only [hflat, Fault.isNotFound, if_pos]
    rfl

/-- When statements were assembled, all names on the ways along their includes were noted that find
nothing. -/
theorem missing_of_path {body : List Stmt} {path : List String} (isPath : p.IncludePath body path)
    {included : Bool} {s u : Trail} {code : List Code}
    (run : (assembleAll p template ⟨included, expandInclude p template room stack⟩ locals body).run
      s = (.ok code, u)) : ∀ name ∈ path, p.Unfound name → name ∈ u.missing := by
  induction isPath generalizing room stack locals included s u code with
  | @last body name includes =>
      obtain ⟨pos, leaf⟩ := includes
      obtain ⟨_, t, _, v, expanded, within⟩ :=
        assembleAll_expands (fun _ _ => expandInclude_grows) body leaf s code u run
      refine List.forall_mem_singleton.mpr fun unfound => within.missing ?_
      obtain ⟨_, _, _, ⟨_, _, _, _, rfl⟩ | ⟨flat, hflat, _⟩⟩ := expandInclude_ran expanded
      · exact List.mem_append_right _ (List.mem_singleton.mpr rfl)
      · obtain ⟨message, failed⟩ := Plan.flattened_notFound_iff.mpr unfound
        rw [hflat] at failed
        cases failed
  | @step body name flat path includes hflat _ ih =>
      obtain ⟨pos, leaf⟩ := includes
      obtain ⟨_, t, _, v, expanded, within⟩ :=
        assembleAll_expands (fun _ _ => expandInclude_grows) body leaf s code u run
      obtain ⟨_, _, _, ⟨_, failed, _⟩ | ⟨flat', hflat', further⟩⟩ := expandInclude_ran expanded
      · rw [hflat] at failed
        cases failed
      · rw [hflat] at hflat'
        cases hflat'
        refine List.forall_mem_cons.mpr ⟨fun unfound => ?_,
          fun inner member unfound => within.missing (ih further inner member unfound)⟩
        obtain ⟨message, failed⟩ := Plan.flattened_notFound_iff.mpr unfound
        rw [hflat] at failed
        cases failed

end Assemble

end Stencil
