import Stencil.Proofs.Assembly.Missing
import Stencil.Proofs.Environment.Recursion

/-!
Warnings of missing includes. An include is passed over with a warning just when it finds nothing,
which is the case, too, when its template is there and a parent of it is not.
-/

namespace Stencil

namespace Plan

open Assembly

variable {p : Plan} {s : Source}

theorem checkCode_raises {filename : Option String} (code : List Code) :
    Except.Raises (fun fault => fault.isNotFound = false) (checkCode filename code) := by
  intro fault refused
  obtain ⟨_, rfl⟩ := checkCode_error refused
  rfl

/-- What is noted as missing finds nothing, and an error that tells so is about the parents of the
source itself. -/
theorem assemble_skips (p : Plan) (s : Source) :
    Trail.Skips p {} ((p.assemble s).run {}).2 ∧
      ∀ message, ((p.assemble s).run {}).1 = .error (.diagnostic (.notFound message)) →
        ∃ t, p.parse s = .ok t ∧
          Chain.Orphaned p.found p.limits.depth (firstGiven [s.name] "<string>") t message := by
  rw [assemble_eq, Step.run_bind, Assembly.ofExcept, Step.run_mk_pure]
  cases hparse : p.parse s with
  | error fault =>
      refine ⟨.refl {}, fun message failed => ?_⟩
      obtain ⟨_, rfl⟩ := parse_error hparse
      cases failed
  | ok t =>
      dsimp only
      rw [assembleTemplate, Step.run_bind, Assembly.ofExcept, Step.run_mk_pure]
      cases hflatten : p.flatten t (firstGiven [s.name] "<string>") with
      | error fault =>
          refine ⟨.refl {}, fun message failed => ⟨t, rfl, ?_⟩⟩
          cases failed
          exact Chain.flatten_notFound_iff.mp hflatten
      | ok flat =>
          dsimp only
          have keeps : Keeps (Trail.Skips p) (fun fault => fault.isNotFound = false)
              (assembleAll p s.name ⟨false, expandInclude p s.name p.limits.depth.toNat
                  [firstGiven [s.name] unnamed]⟩ [] flat.1.body >>= fun code =>
                Assembly.ofExcept (checkCode s.filename code) >>= fun _ => get >>= fun trail =>
                  pure (Assembled.mk code (flat.2 ++ trail.files).eraseDups
                    trail.missing.isEmpty)) := by
            refine .bind Trail.Skips.trans (assembleAll_keeps (Place.keeps_skips fun _ _ =>
              expandInclude_skips) flat.1.body) fun code => ?_
            refine .bind Trail.Skips.trans (.ofExcept Trail.Skips.refl (checkCode_raises code))
              fun _ => ?_
            exact .bind Trail.Skips.trans (.get Trail.Skips.refl) fun _ =>
              .pure Trail.Skips.refl _
          refine ⟨(keeps {}).1, fun message failed => ?_⟩
          exact Bool.noConfusion ((keeps {}).2 _ failed)

theorem flat_of_flatten {t : Template} {flat : Template × List String} (hparse : p.parse s = .ok t)
    (hflatten : p.flatten t (firstGiven [s.name] "<string>") = .ok flat) :
    p.flat s = .ok flat.1 := by
  simp only [Plan.flat, hparse, hflatten, bind, Except.bind]
  rfl

/-- When a source was assembled, an include on a way from it was noted as missing just if it finds
nothing. -/
theorem assemble_missing {a : Assembled} {u : Trail} (run : (p.assemble s).run {} = (.ok a, u)) :
    ∃ flat, p.flat s = .ok flat ∧ ∀ path, p.IncludePath flat.body path →
      ∀ name ∈ path, name ∈ u.missing ↔ p.Unfound name := by
  obtain ⟨t, flat, hparse, hflatten, runBody, _⟩ := assemble_ok run
  refine ⟨flat.1, flat_of_flatten hparse hflatten, fun path isPath name member => ⟨?_, ?_⟩⟩
  · obtain ⟨⟨names, noted, unfound⟩, _⟩ := assemble_skips p s
    rw [run] at noted
    rw [noted]
    exact unfound name
  · exact missing_of_path isPath runBody name member

end Plan

namespace Engine

/-- An include that stands below other templates is passed over just when it finds nothing, because
no template of its name is there or because the parents of the one that is there lead to one that is
not. Whatever is compiled, warnings name includes that find nothing; when it is compiled in the end,
there is one for each such include on the ways from it; and the error that a template is missing is
never about an include, but only about the parents of what is compiled. -/
theorem skipped_iff_unfound (e : Engine) :
    (∀ template room stack locals name t, name ∉ stack →
      ((expandInclude e.plan template (room + 1) stack locals name).run t =
        (.ok [], { t with missing := t.missing ++ [name] }) ↔ e.plan.Unfound name)) ∧
    ∀ s, ∃ names : List String, ((assemble s).run e).2.log = e.log ++ names.map missingIncludeText ∧
      (∀ name ∈ names, e.plan.Unfound name) ∧
      (∀ a, ((assemble s).run e).1 = .ok a → ∃ flat, e.plan.flat s = .ok flat ∧
        ∀ path, e.plan.IncludePath flat.body path →
          ∀ name ∈ path, name ∈ names ↔ e.plan.Unfound name) ∧
      ∀ message, ((assemble s).run e).1 = .error (.diagnostic (.notFound message)) →
        ∃ t, e.plan.parse s = .ok t ∧ Chain.Orphaned e.plan.found e.plan.limits.depth
          (firstGiven [s.name] "<string>") t message := by
  refine ⟨fun _ _ _ _ _ t fresh => expandInclude_passes_iff fresh t, fun s => ?_⟩
  obtain ⟨⟨names, noted, unfound⟩, failing⟩ := e.plan.assemble_skips s
  rw [List.nil_append] at noted
  rw [assemble_run, noted]
  refine ⟨names, rfl, unfound, fun a assembled => ?_, failing⟩
  rw [← noted]
  exact Plan.assemble_missing (Prod.ext assembled rfl)

def orphanText : String :=
  "\x7b% for i in 1..2 %\x7d\x7b% include 'part' %\x7d\x7b% include 'gone' %\x7d\x7b% endfor %\x7d"

/-- A page that includes, in a loop, a part whose parent is not there and a part that is not. -/
def orphanPages : Engine :=
  overTemplates [("page", orphanText), ("part", "\x7b% extends 'base' %\x7d")]

theorem orphanPages_unfound : orphanPages.plan.Unfound "part" := by
  have failed : (orphanPages.plan.flattened "part").toOption.isNone = true := by decide +kernel
  cases hflat : orphanPages.plan.flattened "part" with
  | ok flat =>
      rw [hflat] at failed
      cases failed
  | error fault =>
      have complete : orphanPages.plan.Complete := complete_overTemplates (by decide +kernel)
      obtain ⟨message, rfl⟩ := Fault.isNotFound_iff.mp (complete.missing _ _ hflat)
      exact Plan.flattened_notFound_iff.mp ⟨message, hflat⟩

theorem skipped_iff_unfound_orphanPages : "part" ∉ ["page"] ∧
    (expandInclude orphanPages.plan (some "page") 50 ["page"] [] "part").run {} =
      (.ok [], { missing := ["part"] }) ∧
    (∃ a, ((assemble ⟨orphanText, some "page", none⟩).run orphanPages).1 = .ok a) ∧
    missingIncludeText "part" ∈
      ((assemble ⟨orphanText, some "page", none⟩).run orphanPages).2.log := by
  obtain ⟨passes, whole⟩ := skipped_iff_unfound orphanPages
  refine ⟨by decide, (passes _ 49 _ _ _ {} (by decide)).mpr orphanPages_unfound, ?_⟩
  obtain ⟨a, assembled, -⟩ := Except.exists_of_any
    (x := ((assemble ⟨orphanText, some "page", none⟩).run orphanPages).1)
    (P := fun _ => True) (by decide +kernel)
  obtain ⟨names, logged, -, passedOver, -⟩ := whole ⟨orphanText, some "page", none⟩
  obtain ⟨flat, flattened, noted⟩ := passedOver a assembled
  obtain ⟨flat', flattened', includes⟩ := Except.exists_of_any
    (x := orphanPages.plan.flat ⟨orphanText, some "page", none⟩)
    (P := fun flat => "part" ∈ Stmt.includedNames flat.body) (by decide +kernel)
  rw [flattened] at flattened'
  cases flattened'
  have isNoted := (noted ["part"] (.last (Stmt.mem_includedNames.mp includes)) "part"
    (List.mem_singleton.mpr rfl)).mpr orphanPages_unfound
  refine ⟨⟨a, assembled⟩, ?_⟩
  rw [logged]
  exact List.mem_append_right _ (List.mem_map_of_mem isNoted)

/-- A template that is there is passed over when its parent is not. -/
theorem orphan_passed_over : ¬ ∀ (e : Engine) (template : Option String) (room : Nat)
    (stack locals : List String) (name : String) (t : Trail), name ∉ stack →
      ((expandInclude e.plan template (room + 1) stack locals name).run t =
          (.ok [], { t with missing := t.missing ++ [name] }) ↔
        ∃ message, e.plan.library.read name = .error (.diagnostic (.notFound message))) := by
  intro absent
  have passed : (expandInclude orphanPages.plan (some "page") 50 ["page"] [] "part").run {} =
      (.ok [], { missing := ["part"] }) :=
    (expandInclude_passes_iff (by decide) {}).mpr orphanPages_unfound
  obtain ⟨message, missing⟩ := (absent orphanPages _ _ _ _ _ {} (by decide)).mp passed
  have there : (orphanPages.plan.library.read "part").toOption.isSome = true := by decide +kernel
  rw [missing] at there
  cases there

end Engine

end Stencil
