import Stencil.Proofs.Assembly.Escaping

namespace Stencil

open Stmt

theorem orSearch_eq_false {first : Except Fault Bool} {second : Unit → Except Fault Bool} :
    orSearch first second = .ok false ↔ first = .ok false ∧ second () = .ok false := by
  unfold orSearch
  split
  · simp
  · next other =>
      constructor
      · intro same
        exact (other same).elim
      · intro both
        exact (other both.1).elim

namespace Code

/-- Whether `loop` occurs nowhere in code. -/
def Unused (code : List Code) : Prop := anyExprAll Expr.usesLoop code = false

theorem unused_singleton {c : Code} : Unused [c] ↔ c.anyExpr Expr.usesLoop = false := by
  simp [Unused, anyExprAll]

theorem unused_append {first second : List Code} :
    Unused (first ++ second) ↔ Unused first ∧ Unused second := by
  induction first with
  | nil => simp [Unused, anyExprAll]
  | cons c rest ih =>
      unfold Unused at ih ⊢
      simp only [List.cons_append, anyExprAll, Bool.or_eq_false_iff, ih, and_assoc]

mutual

/-- Whether each loop is tracked whose body uses `loop`. -/
def Tracks : Code → Prop
  | .branch _ body others otherwise => TracksAll body ∧ TracksOthers others ∧ TracksAll otherwise
  | .loop _ tracked _ body empty =>
      (tracked = false → Unused body) ∧ TracksAll body ∧ TracksAll empty
  | .while _ body => TracksAll body
  | .spaceless body => TracksAll body
  | .text _ | .mark _ | .output _ _ | .set _ _ | .debug _ _ => True

def TracksAll : List Code → Prop
  | [] => True
  | c :: rest => c.Tracks ∧ TracksAll rest

def TracksOthers : List (Expr × List Code) → Prop
  | [] => True
  | (_, body) :: rest => TracksAll body ∧ TracksOthers rest

end

theorem tracksAll_append {first second : List Code} :
    TracksAll (first ++ second) ↔ TracksAll first ∧ TracksAll second := by
  induction first with
  | nil => simp [TracksAll]
  | cons c rest ih => simp [TracksAll, ih, and_assoc]

end Code

open Code (Unused TracksAll TracksOthers)

theorem Place.mark_unused (place : Place) (pos : Pos) : Unused (place.mark pos) := by
  unfold Place.mark
  split <;> rfl

theorem Place.marked_unused {place : Place} {pos : Pos} {code : List Code} (unused : Unused code) :
    Unused (place.mark pos ++ code) :=
  Code.unused_append.mpr ⟨place.mark_unused pos, unused⟩

abbrev Assembly.Unused (x : Assembly (List Code)) : Prop :=
  Step.Ensures (fun _ => True) Code.Unused x

section Search

variable {p : Plan} {template : Option String} {place : Place}
  {include? : String → Except Fault Bool}

mutual

theorem assemble_unused
    (hplace : ∀ names name, include? name = .ok false → Assembly.Unused (place.expand names name))
    {names : List String} : (s : Stmt) → Stmt.usesLoop include? s = .ok false →
      Assembly.Unused (assemble p template place names s)
  | .text _ value, _ => by
      rw [assemble]
      split
      · exact .pure rfl
      · exact .pure rfl
  | .output pos value escape, search => by
      rw [Stmt.usesLoop] at search
      rw [assemble]
      refine (checked _).bind fun _ _ => .pure (Place.marked_unused ?_)
      exact Code.unused_singleton.mpr (Except.ok.inj search)
  | .branch _ condition body others otherwise, search => by
      rw [Stmt.usesLoop] at search
      simp only [orSearch_eq_false] at search
      obtain ⟨hcondition, searchBody, searchOthers, searchOtherwise⟩ := search
      rw [assemble]
      apply (assembleAll_unused hplace body searchBody).bind
      intro body hbody
      apply (assembleAll_unused hplace otherwise searchOtherwise).bind
      intro otherwise hotherwise
      apply (checked _).bind
      intro _ _
      apply (assembleOthers_unused hplace others searchOthers).bind
      intro others hothers
      refine .pure (Place.marked_unused (Code.unused_singleton.mpr ?_))
      rw [Code.anyExpr, Except.ok.inj hcondition, hbody, hothers, hotherwise]
      rfl
  | .loop _ target items body empty, search => by
      rw [Stmt.usesLoop] at search
      simp only [orSearch_eq_false] at search
      obtain ⟨hhead, searchBody, searchEmpty⟩ := search
      have hitems : items.usesLoop = false := (Bool.or_eq_false_iff.mp (Except.ok.inj hhead)).2
      rw [assemble]
      apply (checked _).bind
      intro tracked _
      apply (checked _).bind
      intro _ _
      apply (assembleAll_unused hplace body searchBody).bind
      intro body hbody
      apply (assembleAll_unused hplace empty searchEmpty).bind
      intro empty hempty
      refine .pure (Place.marked_unused (Code.unused_singleton.mpr ?_))
      rw [Code.anyExpr, hitems, hbody, hempty]
      rfl
  | .while _ condition body, search => by
      rw [Stmt.usesLoop] at search
      simp only [orSearch_eq_false] at search
      obtain ⟨hcondition, searchBody⟩ := search
      rw [assemble]
      apply (assembleAll_unused hplace body searchBody).bind
      intro body hbody
      refine (checked _).bind fun _ _ =>
        .pure (Place.marked_unused (Code.unused_singleton.mpr ?_))
      rw [Code.anyExpr, Except.ok.inj hcondition, hbody]
      rfl
  | .block _ _ body, search => by
      rw [Stmt.usesLoop] at search
      rw [assemble]
      exact assembleAll_unused hplace body search
  | .include _ name, search => by
      rw [Stmt.usesLoop] at search
      rw [assemble]
      exact (hplace names name search).bind fun _ unused => .pure (Place.marked_unused unused)
  | .set _ target value, search => by
      rw [Stmt.usesLoop] at search
      have hvalue : value.usesLoop = false := (Bool.or_eq_false_iff.mp (Except.ok.inj search)).2
      rw [assemble]
      exact (checked _).bind fun _ _ =>
        .pure (Place.marked_unused (Code.unused_singleton.mpr hvalue))
  | .spaceless _ body, search => by
      rw [Stmt.usesLoop] at search
      rw [assemble]
      exact (assembleAll_unused hplace body search).bind fun body hbody =>
        .pure (Code.unused_singleton.mpr hbody)
  | .debug _ none _, _ => by
      rw [assemble]
      exact .pure (Place.marked_unused rfl)
  | .debug _ (some e) _, search => by
      rw [Stmt.usesLoop] at search
      rw [assemble]
      exact (checked _).bind fun _ _ =>
        .pure (Place.marked_unused (Code.unused_singleton.mpr (Except.ok.inj search)))

theorem assembleAll_unused
    (hplace : ∀ names name, include? name = .ok false → Assembly.Unused (place.expand names name))
    {names : List String} : (body : List Stmt) → Stmt.anyUsesLoop include? body = .ok false →
      Assembly.Unused (assembleAll p template place names body)
  | [], _ => by
      rw [assembleAll]
      exact .pure rfl
  | s :: rest, search => by
      rw [Stmt.anyUsesLoop, orSearch_eq_false] at search
      rw [assembleAll]
      apply (assemble_unused hplace s search.1).bind
      intro code hcode
      apply (assembleAll_unused hplace rest search.2).bind
      intro more hmore
      exact .pure (Code.unused_append.mpr ⟨hcode, hmore⟩)

theorem assembleOthers_unused
    (hplace : ∀ names name, include? name = .ok false → Assembly.Unused (place.expand names name))
    {names : List String} :
    (others : List (Expr × List Stmt)) → Stmt.othersUseLoop include? others = .ok false →
      Step.Ensures (fun _ => True) (fun others => Code.anyExprOthers Expr.usesLoop others = false)
        (assembleOthers p template place names others)
  | [], _ => by
      rw [assembleOthers]
      exact .pure rfl
  | (condition, body) :: rest, search => by
      rw [Stmt.othersUseLoop] at search
      simp only [orSearch_eq_false] at search
      obtain ⟨hcondition, searchBody, searchRest⟩ := search
      rw [assembleOthers]
      apply (checked _).bind
      intro _ _
      apply (assembleAll_unused hplace body searchBody).bind
      intro body hbody
      apply (assembleOthers_unused hplace rest searchRest).bind
      intro others hothers
      refine .pure ?_
      rw [Code.anyExprOthers, Except.ok.inj hcondition, hbody, hothers]
      rfl

end

/-- An include in which the search finds nothing, not even if it skips some of the templates around
it, is expanded to code without a use. -/
theorem expandInclude_unused {rounds room : Nat} {seen stack names : List String} {name : String}
    (around : seen ⊆ stack) (search : p.includeUsesLoop rounds seen name = .ok false) :
    Assembly.Unused (expandInclude p template room stack names name) := by
  induction room generalizing rounds seen stack names name with
  | zero =>
      rw [expandInclude.eq_def]
      dsimp only
      split
      · exact .throw _
      · exact .throw _
  | succ room ih =>
      rw [expandInclude.eq_def]
      dsimp only
      split
      · exact .throw _
      · next fresh =>
          have unseen : seen.contains name = false := by
            rw [List.contains_eq_mem, decide_eq_false_iff_not]
            intro member
            exact fresh (List.elem_eq_true_of_mem (around member))
          cases hflat : p.flattened name with
          | error fault =>
              dsimp only
              split
              · exact (Step.Ensures.modify fun _ _ => trivial).bind fun _ _ => .pure rfl
              · exact .throw _
          | ok flat =>
              apply (Step.Ensures.modify fun _ _ => trivial).bind
              intro _ _
              cases rounds with
              | zero =>
                  rw [Plan.includeUsesLoop, unseen] at search
                  cases search
              | succ rounds =>
                  rw [Plan.includeUsesLoop, unseen, hflat] at search
                  refine assembleAll_unused (fun names inner found => ?_) flat.1.body search
                  exact ih (List.cons_subset_cons name around) found

/-- Whether what includes are expanded to is tracked where it uses `loop`, and whether the search
sees all uses in it. -/
structure Place.Tracked (p : Plan) (place : Place) : Prop where
  tracks : ∀ names name,
    Step.Ensures (fun _ => True) TracksAll (place.expand names name)
  seen : ∀ names name, p.includeUsesLoop p.searchRounds [] name = .ok false →
    Assembly.Unused (place.expand names name)

theorem Place.marked_tracks {place : Place} {pos : Pos} {code : List Code}
    (tracks : TracksAll code) : TracksAll (place.mark pos ++ code) := by
  refine Code.tracksAll_append.mpr ⟨?_, tracks⟩
  unfold Place.mark
  split
  · trivial
  · exact ⟨trivial, trivial⟩

mutual

theorem assemble_tracks (hplace : place.Tracked p) {names : List String} : (s : Stmt) →
    Step.Ensures (fun _ => True) TracksAll (assemble p template place names s)
  | .text _ value => by
      rw [assemble]
      split
      · exact .pure trivial
      · exact .pure ⟨trivial, trivial⟩
  | .output pos value escape => by
      rw [assemble]
      exact (checked _).bind fun _ _ => .pure (Place.marked_tracks ⟨trivial, trivial⟩)
  | .branch _ condition body others otherwise => by
      rw [assemble]
      apply (assembleAll_tracks hplace body).bind
      intro body hbody
      apply (assembleAll_tracks hplace otherwise).bind
      intro otherwise hotherwise
      apply (checked _).bind
      intro _ _
      apply (assembleOthers_tracks hplace others).bind
      intro others hothers
      exact .pure (Place.marked_tracks ⟨⟨hbody, hothers, hotherwise⟩, trivial⟩)
  | .loop _ target items body empty => by
      rw [assemble]
      have searched : Step.Ensures (fun _ : Trail => True)
          (fun tracked => p.bodyUsesLoop body = .ok tracked)
          (Assembly.ofExcept (p.bodyUsesLoop body)) := .mk_pure fun _ found => found
      apply searched.bind
      intro tracked found
      apply (checked _).bind
      intro _ _
      have unused : ∀ names, Step.Ensures (fun _ : Trail => True)
          (fun code => tracked = false → Code.Unused code)
          (assembleAll p template place names body) := by
        intro names
        cases tracked with
        | false => exact (assembleAll_unused hplace.seen body found).mono fun _ unused _ => unused
        | true => exact fun _ _ => ⟨trivial, fun _ _ impossible => nomatch impossible⟩
      apply ((unused _).and (assembleAll_tracks hplace body)).bind
      intro body hbody
      apply (assembleAll_tracks hplace empty).bind
      intro empty hempty
      exact .pure (Place.marked_tracks ⟨⟨hbody.1, hbody.2, hempty⟩, trivial⟩)
  | .while _ _ body => by
      rw [assemble]
      apply (assembleAll_tracks hplace body).bind
      intro body hbody
      exact (checked _).bind fun _ _ => .pure (Place.marked_tracks ⟨hbody, trivial⟩)
  | .block _ _ body => by
      rw [assemble]
      exact assembleAll_tracks hplace body
  | .include pos name => by
      rw [assemble]
      exact (hplace.tracks names name).bind fun _ tracks => .pure (Place.marked_tracks tracks)
  | .set _ _ _ => by
      rw [assemble]
      exact (checked _).bind fun _ _ => .pure (Place.marked_tracks ⟨trivial, trivial⟩)
  | .spaceless _ body => by
      rw [assemble]
      exact (assembleAll_tracks hplace body).bind fun body hbody => .pure ⟨hbody, trivial⟩
  | .debug _ none _ => by
      rw [assemble]
      exact .pure (Place.marked_tracks ⟨trivial, trivial⟩)
  | .debug _ (some _) _ => by
      rw [assemble]
      exact (checked _).bind fun _ _ => .pure (Place.marked_tracks ⟨trivial, trivial⟩)

theorem assembleAll_tracks (hplace : place.Tracked p) {names : List String} :
    (body : List Stmt) →
      Step.Ensures (fun _ => True) TracksAll (assembleAll p template place names body)
  | [] => by
      rw [assembleAll]
      exact .pure trivial
  | s :: rest => by
      rw [assembleAll]
      apply (assemble_tracks hplace s).bind
      intro code tracks
      apply (assembleAll_tracks hplace rest).bind
      intro more tracksMore
      exact .pure (Code.tracksAll_append.mpr ⟨tracks, tracksMore⟩)

theorem assembleOthers_tracks (hplace : place.Tracked p) {names : List String} :
    (others : List (Expr × List Stmt)) →
      Step.Ensures (fun _ => True) TracksOthers (assembleOthers p template place names others)
  | [] => by
      rw [assembleOthers]
      exact .pure trivial
  | (_, body) :: rest => by
      rw [assembleOthers]
      apply (checked _).bind
      intro _ _
      apply (assembleAll_tracks hplace body).bind
      intro body hbody
      exact (assembleOthers_tracks hplace rest).bind fun _ tracks => .pure ⟨hbody, tracks⟩

end

theorem expandInclude_tracks {room : Nat} {stack names : List String} {name : String} :
    Step.Ensures (fun _ => True) TracksAll
      (expandInclude p template room stack names name) := by
  induction room generalizing stack names name with
  | zero =>
      rw [expandInclude.eq_def]
      dsimp only
      split
      · exact .throw _
      · exact .throw _
  | succ room ih =>
      rw [expandInclude.eq_def]
      dsimp only
      split
      · exact .throw _
      · cases hflat : p.flattened name with
        | error fault =>
            dsimp only
            split
            · exact (Step.Ensures.modify fun _ _ => trivial).bind fun _ _ => .pure trivial
            · exact .throw _
        | ok flat =>
            apply (Step.Ensures.modify fun _ _ => trivial).bind
            intro _ _
            refine assembleAll_tracks ⟨fun _ _ => ih, fun _ _ search => ?_⟩ flat.1.body
            exact expandInclude_unused (List.nil_subset _) search

end Search

/-- In an assembled template each loop whose body uses `loop`, be it in an include, is tracked. -/
theorem Plan.tracks_of_assemble {p : Plan} {s : Source} {a : Assembled} {u : Trail}
    (run : (p.assemble s).run {} = (.ok a, u)) : TracksAll a.code := by
  obtain ⟨_, flat, _, _, runBody, _⟩ := assemble_ok run
  have place : Place.Tracked p
      ⟨false, expandInclude p s.name p.limits.depth.toNat [firstGiven [s.name] unnamed]⟩ :=
    ⟨fun _ _ => expandInclude_tracks, fun _ _ search =>
      expandInclude_unused (List.nil_subset _) search⟩
  have tracks : Step.Ensures _ _ (assembleAll p s.name _ [] flat.1.body) :=
    assembleAll_tracks place flat.1.body
  exact (tracks {} trivial).2 a.code (by rw [runBody])

end Stencil
