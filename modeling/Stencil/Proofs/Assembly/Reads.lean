import Stencil.Proofs.Assembly.Trail
import Stencil.Proofs.Inheritance.Ancestors

namespace Stencil

namespace Plan

variable {p q : Plan}

theorem sheet_ok {name : String} {sheet : Sheet} :
    p.sheet name = .ok sheet ↔
      p.library.read name = .ok sheet ∧ ¬ (sheet.text.utf8ByteSize : Int) > p.limits.size := by
  rw [Plan.sheet]
  cases p.library.read name with
  | error fault => simp [bind, Except.bind]
  | ok found =>
      simp only [bind, Except.bind]
      split
      · next large =>
          refine ⟨fun impossible => (nomatch impossible), fun ⟨same, small⟩ => ?_⟩
          cases same
          exact (small large).elim
      · next small =>
          refine ⟨fun same => ?_, fun ⟨same, _⟩ => ?_⟩
          · cases same
            exact ⟨rfl, small⟩
          · cases same
            rfl

theorem found_ok {name : String} {found : Found} (h : p.found name = .ok found) :
    ∃ sheet, p.sheet name = .ok sheet ∧
      p.parse ⟨sheet.text, some name, sheet.filename⟩ = .ok found.template ∧
      found.filename = sheet.filename := by
  obtain ⟨sheet, hsheet, rest⟩ := Except.bind_ok h
  obtain ⟨template, hparse, given⟩ := Except.bind_ok rest
  cases given
  exact ⟨sheet, hsheet, hparse, rfl⟩

theorem flattened_ok {name : String} {flat : Template × List String}
    (h : p.flattened name = .ok flat) :
    ∃ found inner, p.found name = .ok found ∧ p.flatten found.template name = .ok inner ∧
      flat = (inner.1, Chain.addedFiles found ++ inner.2) := by
  obtain ⟨found, hfound, rest⟩ := Except.bind_ok h
  obtain ⟨inner, hflatten, given⟩ := Except.bind_ok rest
  cases given
  exact ⟨found, inner, hfound, hflatten, rfl⟩

theorem flattened_of_found {name : String} {found : Found} {inner : Template × List String}
    (hfound : p.found name = .ok found) (hflatten : p.flatten found.template name = .ok inner) :
    p.flattened name = .ok (inner.1, Chain.addedFiles found ++ inner.2) := by
  simp only [flattened, hfound, bind, Except.bind, hflatten]
  rfl

/-- The names that are looked up when a template is assembled under a name: those of its ancestors,
those that its body includes once it is flattened, and those that these lead to in turn. -/
inductive Reads (p : Plan) : String → Template → String → Prop
  | ancestor {name : String} {t : Template} {read : String} :
      Chain.Ancestor p.found t read → Reads p name t read
  | included {name : String} {t : Template} {flat : Template × List String} {read : String} :
      p.flatten t name = .ok flat → Stmt.Includes flat.1.body read → Reads p name t read
  | within {name : String} {t : Template} {flat : Template × List String} {inner : String}
      {found : Found} {read : String} :
      p.flatten t name = .ok flat → Stmt.Includes flat.1.body inner → p.found inner = .ok found →
        Reads p inner found.template read → Reads p name t read

/-- Whether an include below the templates of a stack is expanded with all the includes in it, at
most `room` of them inside each other. What each of them is flattened to satisfies `P`. -/
def Unfolds (p : Plan) (P : Template × List String → Prop) :
    (room : Nat) → (stack : List String) → (name : String) → Prop
  | 0, _, _ => False
  | room + 1, stack, name =>
      name ∉ stack ∧ ∃ flat, p.flattened name = .ok flat ∧ P flat ∧
        ∀ inner, Stmt.Includes flat.1.body inner → Unfolds p P room (name :: stack) inner

theorem Unfolds.mono {P Q : Template × List String → Prop} (weaker : ∀ flat, P flat → Q flat)
    {room : Nat} {stack : List String} {name : String} (unfolds : Unfolds p P room stack name) :
    Unfolds p Q room stack name := by
  induction room generalizing stack name with
  | zero => exact unfolds
  | succ room ih =>
      obtain ⟨fresh, flat, hflat, satisfied, further⟩ := unfolds
      refine ⟨fresh, flat, hflat, weaker flat satisfied, ?_⟩
      exact fun inner member => ih (further inner member)

end Plan

variable {p : Plan} {template : Option String}

section Expanded

open Assembly

variable {room : Nat} {stack locals : List String} {name : String} {s u : Trail} {code : List Code}

/-- How an include was expanded: it was noted as missing, or the template of its name was
assembled. -/
theorem expandInclude_ran
    (run : (expandInclude p template room stack locals name).run s = (.ok code, u)) :
    ∃ room', room = room' + 1 ∧ name ∉ stack ∧
      ((∃ fault, p.flattened name = .error fault ∧ fault.isNotFound = true ∧ code = [] ∧
          u = { s with missing := s.missing ++ [name] }) ∨
        ∃ flat, p.flattened name = .ok flat ∧
          (assembleAll p template ⟨true, expandInclude p template room' (name :: stack)⟩ locals
            flat.1.body).run { s with files := s.files ++ flat.2 } = (.ok code, u)) := by
  rw [expandInclude.eq_def] at run
  dsimp only at run
  split at run
  · cases run
  · next unmet =>
      cases room with
      | zero => cases run
      | succ room =>
          refine ⟨room, rfl, by simpa using unmet, ?_⟩
          dsimp only at run
          cases hflat : p.flattened name with
          | error fault =>
              simp only [hflat] at run
              split at run
              · next missing =>
                  cases run
                  exact .inl ⟨fault, rfl, missing, rfl, rfl⟩
              · cases run
          | ok flat =>
              simp only [hflat] at run
              exact .inr ⟨flat, rfl, run⟩

theorem expandInclude_ok
    (run : (expandInclude p template room stack locals name).run s = (.ok code, u))
    (complete : u.missing = []) :
    ∃ room' flat t, room = room' + 1 ∧ name ∉ stack ∧ p.flattened name = .ok flat ∧
      flat.2 ⊆ u.files ∧
      (assembleAll p template ⟨true, expandInclude p template room' (name :: stack)⟩ locals
        flat.1.body).run t = (.ok code, u) := by
  obtain ⟨room', hroom, fresh, ⟨_, _, _, _, rfl⟩ | ⟨flat, hflat, runBody⟩⟩ := expandInclude_ran run
  · simp at complete
  · have within : Trail.Within _ u :=
      (assembleAll_grows (fun _ _ => expandInclude_grows) flat.1.body).within runBody
    refine ⟨room', flat, _, hroom, fresh, hflat, ?_, runBody⟩
    exact List.Subset.trans (List.subset_append_right s.files flat.2) within.files

end Expanded

/-- An include that was expanded with nothing missing unfolds, and its files are noted. -/
theorem expandInclude_unfolds {room : Nat} {stack locals : List String} {name : String}
    {s u : Trail} {code : List Code}
    (run : (expandInclude p template room stack locals name).run s = (.ok code, u))
    (complete : u.missing = []) :
    p.Unfolds (fun flat => flat.2 ⊆ u.files) room stack name := by
  induction room generalizing stack locals name s u code with
  | zero =>
      obtain ⟨_, _, _, hroom, _⟩ := expandInclude_ok run complete
      cases hroom
  | succ room ih =>
      obtain ⟨_, flat, t, hroom, fresh, hflat, files, runBody⟩ := expandInclude_ok run complete
      cases hroom
      refine ⟨fresh, flat, hflat, files, ?_⟩
      rintro inner ⟨pos, member⟩
      obtain ⟨_, _, _, v, expanded, within⟩ :=
        assembleAll_expands (fun _ _ => expandInclude_grows) flat.1.body member t code u runBody
      refine (ih expanded (within.missing_eq_nil complete)).mono ?_
      exact fun flat listed => List.Subset.trans listed within.files

namespace Plan

variable {p : Plan}

theorem Reads.found_of_unfolds {files : List String} {room : Nat} {stack : List String}
    {name read : String} {found : Found}
    (unfolds : p.Unfolds (fun flat => flat.2 ⊆ files) room stack name)
    (hfound : p.found name = .ok found) (reads : p.Reads name found.template read) :
    ∃ target, p.found read = .ok target ∧ Chain.addedFiles target ⊆ files := by
  generalize htemplate : found.template = t at reads
  induction reads generalizing room stack found with
  | ancestor isAncestor =>
      cases room with
      | zero => exact unfolds.elim
      | succ room =>
          subst htemplate
          obtain ⟨_, flat, hflat, listed, _⟩ := unfolds
          obtain ⟨found', inner, hfound', hflatten, rfl⟩ := flattened_ok hflat
          rw [hfound] at hfound'
          cases hfound'
          obtain ⟨target, htarget, added⟩ := Chain.flatten_found hflatten isAncestor
          exact ⟨target, htarget,
            List.Subset.trans (List.Subset.trans added (List.subset_append_right _ _)) listed⟩
  | included hflatten member =>
      cases room with
      | zero => exact unfolds.elim
      | succ room =>
          subst htemplate
          obtain ⟨_, flat, hflat, _, further⟩ := unfolds
          rw [flattened_of_found hfound hflatten] at hflat
          cases hflat
          cases room with
          | zero => exact (further _ member).elim
          | succ room =>
              obtain ⟨_, target, htarget, listed, _⟩ := further _ member
              obtain ⟨found', _, hfound', _, rfl⟩ := flattened_ok htarget
              exact ⟨found', hfound',
                List.Subset.trans (List.subset_append_left _ _) listed⟩
  | within hflatten member hinner _ ih =>
      cases room with
      | zero => exact unfolds.elim
      | succ room =>
          subst htemplate
          obtain ⟨_, flat, hflat, _, further⟩ := unfolds
          rw [flattened_of_found hfound hflatten] at hflat
          cases hflat
          exact ih (further _ member) hinner rfl

theorem assemble_ok {s : Source} {a : Assembled} {u : Trail}
    (run : (p.assemble s).run {} = (.ok a, u)) :
    ∃ t flat, p.parse s = .ok t ∧ p.flatten t (firstGiven [s.name] "<string>") = .ok flat ∧
      (assembleAll p s.name
        ⟨false, expandInclude p s.name p.limits.depth.toNat [firstGiven [s.name] unnamed]⟩ []
        flat.1.body).run {} = (.ok a.code, u) ∧
      checkCode s.filename a.code = .ok () ∧
      a.dependencies = (flat.2 ++ u.files).eraseDups ∧ a.complete = u.missing.isEmpty := by
  obtain ⟨t, _, runParse, runFlatten⟩ := Step.run_bind_ok run
  obtain ⟨flat, _, runFlat, runBody⟩ := Step.run_bind_ok runFlatten
  obtain ⟨code, _, runCode, runCheck⟩ := Step.run_bind_ok runBody
  obtain ⟨_, _, checked, runGet⟩ := Step.run_bind_ok runCheck
  obtain ⟨_, _, got, given⟩ := Step.run_bind_ok runGet
  obtain ⟨hparse, rfl⟩ := Assembly.ofExcept_run_ok runParse
  obtain ⟨hflat, rfl⟩ := Assembly.ofExcept_run_ok runFlat
  obtain ⟨hcheck, rfl⟩ := Assembly.ofExcept_run_ok checked
  cases got
  cases given
  exact ⟨t, flat, hparse, hflat, runCode, hcheck, rfl, rfl⟩

theorem unfolds_of_assemble {s : Source} {a : Assembled} {u : Trail}
    (run : (p.assemble s).run {} = (.ok a, u)) (complete : a.complete) {t : Template}
    {flat : Template × List String} (hparse : p.parse s = .ok t)
    (hflatten : p.flatten t (firstGiven [s.name] "<string>") = .ok flat) {inner : String}
    (member : Stmt.Includes flat.1.body inner) :
    p.Unfolds (fun flat => flat.2 ⊆ a.dependencies) p.limits.depth.toNat
      [firstGiven [s.name] unnamed] inner := by
  obtain ⟨t', flat', hparse', hflatten', runBody, _, dependencies, hcomplete⟩ := assemble_ok run
  rw [hparse] at hparse'
  cases hparse'
  rw [hflatten] at hflatten'
  cases hflatten'
  rw [hcomplete, List.isEmpty_iff] at complete
  obtain ⟨pos, leaf⟩ := member
  obtain ⟨_, _, _, v, expanded, within⟩ :=
    assembleAll_expands (fun _ _ => expandInclude_grows) flat.1.body leaf _ _ _ runBody
  refine (expandInclude_unfolds expanded (within.missing_eq_nil complete)).mono ?_
  intro inner listed file member
  rw [dependencies, List.mem_eraseDups, List.mem_append]
  exact .inr (within.files (listed member))

/-- All that a source reads when it is assembled was found if nothing was missing, and its files are
among the dependencies. -/
theorem Reads.found_of_assemble {s : Source} {a : Assembled} {u : Trail}
    (run : (p.assemble s).run {} = (.ok a, u)) (complete : a.complete) {t : Template}
    (hparse : p.parse s = .ok t) {read : String}
    (reads : p.Reads (firstGiven [s.name] "<string>") t read) :
    ∃ target, p.found read = .ok target ∧ Chain.addedFiles target ⊆ a.dependencies := by
  obtain ⟨t', flat', hparse', hflatten', _, _, dependencies, _⟩ := assemble_ok run
  rw [hparse] at hparse'
  cases hparse'
  cases reads with
  | ancestor isAncestor =>
      obtain ⟨target, htarget, added⟩ := Chain.flatten_found hflatten' isAncestor
      refine ⟨target, htarget, fun file member => ?_⟩
      rw [dependencies, List.mem_eraseDups, List.mem_append]
      exact .inl (added member)
  | included hflatten member =>
      have unfolds := unfolds_of_assemble run complete hparse hflatten member
      cases hroom : p.limits.depth.toNat with
      | zero =>
          rw [hroom] at unfolds
          exact unfolds.elim
      | succ room =>
          rw [hroom] at unfolds
          obtain ⟨_, target, htarget, listed, _⟩ := unfolds
          obtain ⟨found, _, hfound, _, rfl⟩ := flattened_ok htarget
          exact ⟨found, hfound, List.Subset.trans (List.subset_append_left _ _) listed⟩
  | within hflatten member hinner further =>
      exact further.found_of_unfolds
        (unfolds_of_assemble run complete hparse hflatten member) hinner

end Plan

end Stencil
