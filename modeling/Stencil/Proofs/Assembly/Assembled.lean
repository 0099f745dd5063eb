import Stencil.Proofs.Assembly.Bare
import Stencil.Proofs.Assembly.Reads
import Stencil.Proofs.Assembly.Registered

namespace Stencil

namespace Assembly

variable {α β : Type}

/-- Whether a step succeeds just when a condition holds, whatever was noted before, and what it then
gives has a property. -/
structure Decides (x : Assembly α) (condition : Prop) (P : α → Prop) : Prop where
  succeeds : condition → ∀ t, ∃ a u, x.run t = (.ok a, u)
  only : ∀ {t a u}, x.run t = (.ok a, u) → condition ∧ P a

namespace Decides

variable {x : Assembly α} {f : α → Assembly β} {first second : Prop} {P : α → Prop} {Q : β → Prop}

theorem bind (hx : Decides x first P) (hf : ∀ a, P a → Decides (f a) second Q) :
    Decides (x >>= f) (first ∧ second) Q where
  succeeds := by
    rintro ⟨hfirst, hsecond⟩ t
    obtain ⟨a, m, run⟩ := hx.succeeds hfirst t
    obtain ⟨b, u, run'⟩ := (hf a (hx.only run).2).succeeds hsecond m
    refine ⟨b, u, ?_⟩
    rw [Step.run_bind, run]
    exact run'
  only := by
    intro t b u run
    obtain ⟨a, m, runFirst, runSecond⟩ := Step.run_bind_ok run
    obtain ⟨hfirst, given⟩ := hx.only runFirst
    obtain ⟨hsecond, result⟩ := (hf a given).only runSecond
    exact ⟨⟨hfirst, hsecond⟩, result⟩

theorem pure {a : α} (given : P a) : Decides (Pure.pure a : Assembly α) True P where
  succeeds _ t := ⟨a, t, rfl⟩
  only run := by
    cases run
    exact ⟨trivial, given⟩

theorem noteFiles (files : List String) :
    Decides (Assembly.noteFiles files) True fun _ => True where
  succeeds _ _ := ⟨(), _, rfl⟩
  only _ := ⟨trivial, trivial⟩

theorem noteMissing (name : String) : Decides (Assembly.noteMissing name) True fun _ => True where
  succeeds _ _ := ⟨(), _, rfl⟩
  only _ := ⟨trivial, trivial⟩

theorem bindKnown {result : Except Fault α} {a : α} (given : result = .ok a)
    (hf : Decides (f a) second Q) : Decides (ofExcept result >>= f) second Q where
  succeeds holds t := by
    rw [Step.run_bind, ofExcept, Step.run_mk_pure, given]
    exact hf.succeeds holds t
  only run := by
    rw [Step.run_bind, ofExcept, Step.run_mk_pure, given] at run
    exact hf.only run

theorem check {result : Except Fault Unit} (passes : result = .ok () ↔ first) :
    Decides (ofExcept result) first fun _ => True where
  succeeds holds t := ⟨(), t, by rw [ofExcept, Step.run_mk_pure, passes.mpr holds]⟩
  only run := ⟨passes.mp (ofExcept_run_ok run).1, trivial⟩

theorem congr (hx : Decides x first P) (same : first ↔ second) : Decides x second P where
  succeeds holds := hx.succeeds (same.mpr holds)
  only run := (hx.only run).imp_left same.mp

end Decides

end Assembly

section Assemble

open Assembly Stmt

variable {p : Plan} {template : Option String} {place : Place} {expand : String → List Code}
  {locals : List String}

/-- Whether a step gives code that comes to an outline, and succeeds just when all names in that are
registered. -/
abbrev Assembly.Outlines (p : Plan) (locals : List String) (x : Assembly (List Code))
    (outline : List Code) : Prop :=
  Decides x (Code.EachAll (Expr.Registered p.registries) locals outline)
    fun code => Code.bareAll code = outline

/-- Whether the includes of a name come to what `expand` gives where they stand, and the search for
`loop` sees that. -/
structure Place.Outlines (p : Plan) (place : Place) (expand : String → List Code) (name : String) :
    Prop where
  expands : ∀ locals, Assembly.Outlines p locals (place.expand locals name) (expand name)
  search : p.includeUsesLoop p.searchRounds [] name = .ok (Code.namesLoopAll (expand name))

theorem Place.bareAll_mark (place : Place) (pos : Pos) (code : List Code) :
    Code.bareAll (place.mark pos ++ code) = Code.bareAll code := by
  unfold Place.mark
  split
  · rfl
  · rw [List.singleton_append, Code.bareAll, Code.bare, List.nil_append]

theorem checkExpr_decides (e : Expr) :
    Decides (Assembly.ofExcept (checkExpr p.registries template locals e))
      (e.erase.Registered p.registries locals) fun _ => True :=
  .check ((checkExpr_ok_iff e).trans Expr.registered_erase.symm)

mutual

theorem assemble_outlines {locals : List String} :
    (s : Stmt) → (∀ pos name, .include pos name ∈ s.leaves → place.Outlines p expand name) →
      Outlines p locals (assemble p template place locals s) (outline expand s)
  | .text _ value, _ => by
      rw [assemble, outline]
      split
      · refine (Decides.pure ?_).congr ?_
        · rfl
        · simp [Code.EachAll]
      · refine (Decides.pure ?_).congr ?_
        · rfl
        · simp [Code.EachAll, Code.Each]
  | .output pos value escape, _ => by
      rw [assemble, outline]
      refine ((checkExpr_decides value).bind fun _ _ => .pure ?_).congr ?_
      · rw [place.bareAll_mark, Code.bareAll_singleton, Code.bare]
      · simp [Code.eachAll_singleton, Code.Each]
  | .branch pos condition body others otherwise, places => by
      simp only [leaves, List.mem_append] at places
      rw [assemble, outline]
      refine ((assembleAll_outlines body
          fun pos name member => places pos name (.inl member)).bind fun body hbody =>
        (assembleAll_outlines otherwise
          fun pos name member => places pos name (.inr (.inr member))).bind fun otherwise hother =>
        (checkExpr_decides condition).bind fun _ _ =>
        (assembleOthers_outlines others
          fun pos name member => places pos name (.inr (.inl member))).bind fun others hothers =>
        .pure ?_).congr ?_
      · rw [place.bareAll_mark, Code.bareAll_singleton, Code.bare, hbody, hother, hothers]
      · rw [Code.eachAll_singleton, Code.Each]
        grind
  | .loop pos target items body empty, places => by
      simp only [leaves, List.mem_append] at places
      have searched : p.bodyUsesLoop body = .ok (Code.namesLoopAll (outlineAll expand body)) :=
        anyUsesLoop_eq_outline body fun pos name member => (places pos name (.inl member)).search
      rw [assemble, outline]
      apply Decides.bindKnown searched
      refine ((checkExpr_decides items).bind fun _ _ =>
        (assembleAll_outlines body
          fun pos name member => places pos name (.inl member)).bind fun body hbody =>
        (assembleAll_outlines empty
          fun pos name member => places pos name (.inr member)).bind fun empty hempty =>
        .pure ?_).congr ?_
      · rw [place.bareAll_mark, Code.bareAll_singleton, Code.bare, hbody, hempty]
      · rw [Code.eachAll_singleton, Code.Each, Code.innerLocals, Target.names_erase, and_true]
  | .while pos condition body, places => by
      rw [assemble, outline]
      refine ((assembleAll_outlines body places).bind fun body hbody =>
        (checkExpr_decides condition).bind fun _ _ => .pure ?_).congr ?_
      · rw [place.bareAll_mark, Code.bareAll_singleton, Code.bare, hbody]
      · rw [Code.eachAll_singleton, Code.Each]
        grind
  | .block _ _ body, places => by
      rw [assemble, outline]
      exact assembleAll_outlines body places
  | .include pos name, places => by
      have here := places pos name (List.mem_singleton.mpr rfl)
      rw [assemble, outline]
      refine ((here.expands locals).bind fun code hcode => .pure ?_).congr ?_
      · rw [place.bareAll_mark, hcode]
      · rw [and_true]
  | .set pos target value, _ => by
      rw [assemble, outline]
      refine ((checkExpr_decides value).bind fun _ _ => .pure ?_).congr ?_
      · rw [place.bareAll_mark, Code.bareAll_singleton, Code.bare]
      · simp [Code.eachAll_singleton, Code.Each]
  | .spaceless _ body, places => by
      rw [assemble, outline]
      refine ((assembleAll_outlines body places).bind fun body hbody => .pure ?_).congr ?_
      · rw [Code.bareAll_singleton, Code.bare, hbody]
      · simp [Code.eachAll_singleton, Code.Each]
  | .debug pos none label, _ => by
      rw [assemble, outline]
      refine (Decides.pure ?_).congr ?_
      · rw [place.bareAll_mark, Code.bareAll_singleton, Code.bare]
      · simp [Code.eachAll_singleton, Code.Each]
  | .debug pos (some e) label, _ => by
      rw [assemble, outline]
      refine ((checkExpr_decides e).bind fun _ _ => .pure ?_).congr ?_
      · rw [place.bareAll_mark, Code.bareAll_singleton, Code.bare]
      · simp [Code.eachAll_singleton, Code.Each]

theorem assembleAll_outlines {locals : List String} :
    (body : List Stmt) →
      (∀ pos name, .include pos name ∈ leavesOf body → place.Outlines p expand name) →
      Outlines p locals (assembleAll p template place locals body) (outlineAll expand body)
  | [], _ => by
      rw [assembleAll, outlineAll]
      refine (Decides.pure ?_).congr ?_
      · rfl
      · simp [Code.EachAll]
  | s :: rest, places => by
      simp only [leavesOf, List.mem_append] at places
      rw [assembleAll, outlineAll]
      refine ((assemble_outlines s
          fun pos name member => places pos name (.inl member)).bind fun code hcode =>
        (assembleAll_outlines rest
          fun pos name member => places pos name (.inr member)).bind fun more hmore =>
        .pure ?_).congr ?_
      · rw [Code.bareAll_append, hcode, hmore]
      · rw [Code.eachAll_append, and_true]

theorem assembleOthers_outlines {locals : List String} :
    (others : List (Expr × List Stmt)) →
      (∀ pos name, .include pos name ∈ leavesOfOthers others → place.Outlines p expand name) →
      Decides (assembleOthers p template place locals others)
        (Code.EachOthers (Expr.Registered p.registries) locals (outlineOthers expand others))
        fun code => Code.bareOthers code = outlineOthers expand others
  | [], _ => by
      rw [assembleOthers, outlineOthers]
      refine (Decides.pure ?_).congr ?_
      · rfl
      · simp [Code.EachOthers]
  | (condition, body) :: rest, places => by
      simp only [leavesOfOthers, List.mem_append] at places
      rw [assembleOthers, outlineOthers]
      refine ((checkExpr_decides condition).bind fun _ _ =>
        (assembleAll_outlines body
          fun pos name member => places pos name (.inl member)).bind fun body hbody =>
        (assembleOthers_outlines rest
          fun pos name member => places pos name (.inr member)).bind fun others hothers =>
        .pure ?_).congr ?_
      · rw [Code.bareOthers, hbody, hothers]
      · rw [Code.EachOthers, and_true]

end

theorem expandInclude_outlines {room : Nat} {stack : List String} {name : String}
    (opens : p.Opens room stack name) (shallow : room ≤ p.limits.depth.toNat) :
    Outlines p locals (expandInclude p template room stack locals name) (p.included room name) := by
  induction room generalizing stack name locals with
  | zero => exact opens.elim
  | succ room ih =>
      obtain ⟨fresh, further⟩ := opens
      rw [expandInclude, Plan.included, if_neg (by simpa using fresh)]
      cases hflat : p.flattened name with
      | error fault =>
          rw [hflat] at further
          dsimp only at further ⊢
          rw [if_pos further]
          refine ((Decides.noteMissing name).bind fun _ _ => .pure ?_).congr ?_
          · rfl
          · simp [Code.EachAll]
      | ok flat =>
          rw [hflat] at further
          dsimp only at further ⊢
          refine ((Decides.noteFiles flat.2).bind fun _ _ =>
            assembleAll_outlines flat.1.body fun pos inner leaf => ?_).congr ?_
          · have opened := further inner ⟨pos, leaf⟩
            refine ⟨fun locals => ih opened (by omega), ?_⟩
            refine Plan.search_of_opens opened ?_ (List.nil_subset _)
            unfold Plan.searchRounds
            omega
          · rw [true_and]

theorem expandInclude_opens {room : Nat} {stack : List String} {name : String} {s u : Trail}
    {code : List Code}
    (run : (expandInclude p template room stack locals name).run s = (.ok code, u)) :
    p.Opens room stack name := by
  induction room generalizing stack locals name s u code with
  | zero =>
      obtain ⟨_, impossible, _⟩ := expandInclude_ran run
      cases impossible
  | succ room ih =>
      obtain ⟨_, same, fresh, ⟨fault, hflat, missing, _⟩ | ⟨flat, hflat, runBody⟩⟩ :=
        expandInclude_ran run
      · refine ⟨fresh, ?_⟩
        rw [hflat]
        exact missing
      · cases same
        refine ⟨fresh, ?_⟩
        rw [hflat]
        rintro inner ⟨pos, leaf⟩
        obtain ⟨_, _, _, _, expanded, _⟩ :=
          assembleAll_expands (fun _ _ => expandInclude_grows) flat.1.body leaf _ _ _ runBody
        exact ih expanded

end Assemble

namespace Plan

def assembleTemplate (p : Plan) (t : Template) (name filename : Option String) :
    Assembly Assembled := do
  let (flat, parents) ← Assembly.ofExcept (p.flatten t (firstGiven [name] "<string>"))
  let expand := expandInclude p name p.limits.depth.toNat [firstGiven [name] unnamed]
  let code ← assembleAll p name ⟨false, expand⟩ [] flat.body
  Assembly.ofExcept (checkCode filename code)
  let trail ← get
  return ⟨code, (parents ++ trail.files).eraseDups, trail.missing.isEmpty⟩

variable {p : Plan}

theorem assemble_eq (p : Plan) (s : Source) :
    p.assemble s =
      Assembly.ofExcept (p.parse s) >>= fun t => p.assembleTemplate t s.name s.filename := rfl

section Decided

open Assembly

variable {t : Template} {name filename : Option String} {flat : Template × List String}

theorem assembleAll_outline (opens : p.OpensAll name flat.1.body) :
    Outlines p []
      (assembleAll p name
        ⟨false, expandInclude p name p.limits.depth.toNat [firstGiven [name] unnamed]⟩ []
        flat.1.body) (p.outline flat.1.body) := by
  refine assembleAll_outlines flat.1.body fun pos inner leaf => ?_
  have opened := opens inner ⟨pos, leaf⟩
  refine ⟨fun locals => expandInclude_outlines opened (Nat.le_refl _), ?_⟩
  refine search_of_opens opened ?_ (List.nil_subset _)
  unfold searchRounds
  omega

/-- Assembling a template that can be flattened succeeds just when all of its includes open, all
names are registered and the outline passes the check of code. The code then comes to the
outline. -/
theorem assembleTemplate_decides
    (hflatten : p.flatten t (firstGiven [name] "<string>") = .ok flat) :
    Decides (p.assembleTemplate t name filename)
      (p.OpensAll name flat.1.body ∧
        Code.EachAll (Expr.Registered p.registries) [] (p.outline flat.1.body) ∧
        checkCode filename (p.outline flat.1.body) = .ok ())
      fun a => Code.bareAll a.code = p.outline flat.1.body where
  succeeds := by
    rintro ⟨opens, registered, accepted⟩ s
    obtain ⟨code, u, run⟩ := (assembleAll_outline opens).succeeds registered s
    have same : checkCode filename code = .ok () := by
      rw [← checkCode_bareAll, ((assembleAll_outline opens).only run).2, accepted]
    refine ⟨⟨code, (flat.2 ++ u.files).eraseDups, u.missing.isEmpty⟩, u, ?_⟩
    simp only [assembleTemplate, Assembly.ofExcept, Step.run_bind, Step.run_mk_pure, hflatten, run,
      same, Step.run_get, Step.run_pure]
  only := by
    intro s a u run
    obtain ⟨flat', _, flattened, rest⟩ := Step.run_bind_ok run
    obtain ⟨same, rfl⟩ := ofExcept_run_ok flattened
    rw [hflatten] at same
    cases same
    obtain ⟨code, _, runBody, checked⟩ := Step.run_bind_ok rest
    obtain ⟨_, _, runCheck, got⟩ := Step.run_bind_ok checked
    obtain ⟨accepted, rfl⟩ := ofExcept_run_ok runCheck
    obtain ⟨_, _, _, given⟩ := Step.run_bind_ok got
    cases given
    have opens : p.OpensAll name flat.1.body := by
      rintro inner ⟨pos, leaf⟩
      obtain ⟨_, _, _, _, expanded, _⟩ :=
        assembleAll_expands (fun _ _ => expandInclude_grows) flat.1.body leaf _ _ _ runBody
      exact expandInclude_opens expanded
    obtain ⟨registered, outlined⟩ := (assembleAll_outline opens).only runBody
    refine ⟨⟨opens, registered, ?_⟩, outlined⟩
    rw [← outlined, checkCode_bareAll, accepted]

end Decided

end Plan

end Stencil
