import Stencil.Proofs.Render.Function

/-!
Loops as instructions. A loop saves what it shadows, makes its metadata, goes through its items and
restores what it has saved; around it all names stand for what they stood for before. So the function
of a template writes, reports and fails like the template.
-/

namespace Stencil

open Eval

section Loop

variable {s : Setting} {scopes : List LoopScope} {loop : Nat} {target : Target} {tracked : Bool}
  {found : List Value} {saved : Nat → String → Option Value}

/-- Related worlds where a loop has found its items and saved what it shadows. -/
structure Ready (scopes : List LoopScope) (loop : Nat) (target : Target) (tracked : Bool)
    (found : List Value) (saved : Nat → String → Option Value) (w v : World) : Prop
    extends At scopes loop saved w v where
  items : v.locals.lookup (itemsId loop) = some (.list found)
  shadowed : ∀ name ∈ boundNames target tracked, name ∈ namesIn scopes →
    v.saved loop name = v.named name

/-- Related worlds where the values of some names may be anything. -/
structure AtBut (scopes : List LoopScope) (free : List String) (next : Nat)
    (saved : Nat → String → Option Value) (w v : World) : Prop where
  same : v = { w with locals := v.locals }
  stands : ∃ named, (∀ name ∉ free, named name = v.named name) ∧
    Stands v.saved scopes named w.locals
  kept : ∀ loop < next, v.saved loop = saved loop

namespace AtBut

variable {free : List String} {w v : World}

theorem of_at (related : At scopes loop saved w v) (free : List String) :
    AtBut scopes free loop saved w v where
  same := related.same
  stands := ⟨v.named, fun _ _ => rfl, related.stands⟩
  kept := related.kept

theorem all (related : AtBut scopes [] loop saved w v) : At scopes loop saved w v := by
  obtain ⟨named, same, stands⟩ := related.stands
  refine ⟨⟨related.same, stands.congr (fun name _ => ?_) fun _ _ => rfl⟩, related.kept⟩
  exact (same name List.not_mem_nil).symm

theorem bind {name : String} (related : AtBut scopes (name :: free) loop saved w v)
    (isBound : name ∈ namesIn scopes) (a : Value) :
    AtBut scopes free loop saved (w.setLocal name a) (v.setLocal (localId name) a) where
  same := by
    rw [related.same]
    rfl
  stands := by
    obtain ⟨named, same, stands⟩ := related.stands
    refine ⟨Function.update named name (some a), fun other notFree => ?_, ?_⟩
    · rw [World.setLocal_named, Function.update_apply, Function.update_apply]
      split
      · rfl
      · next different => exact same other (by simp [different, notFree])
    · rw [World.setLocal_saved]
      exact stands.update isBound a
  kept := by
    rw [World.setLocal_saved]
    exact related.kept

theorem moveLoop (related : AtBut scopes free loop saved w v) (id index : Nat) :
    AtBut scopes free loop saved (w.moveLoop id index) (v.moveLoop id index) := by
  have moved : v.moveLoop id index = { w.moveLoop id index with locals := v.locals } := by
    rw [related.same, World.moveLoop, World.moveLoop]
    dsimp only
    split <;> rfl
  rw [moved]
  exact ⟨rfl, (World.moveLoop_locals w id index).symm ▸ related.stands, related.kept⟩

end AtBut

theorem AtBut.bindTarget {item : Value} {w v : World}
    (related : AtBut scopes target.names loop saved w v)
    (isBound : ∀ name ∈ target.names, name ∈ namesIn scopes)
    (shape : target.isPair → ∃ key value, item = .tuple [key, value]) :
    At scopes loop saved (Stencil.bindTarget target item w)
      (Stencil.bindTarget target.variables item v) := by
  cases target with
  | one b => exact (related.bind (isBound _ (by simp [Target.names, Target.binders])) item).all
  | pair k b =>
      obtain ⟨key, value, rfl⟩ := shape rfl
      exact ((related.bind (isBound _ (by simp [Target.names, Target.binders])) key).bind
        (isBound _ (by simp [Target.names, Target.binders])) value).all

theorem atItem_simulates {item : Value} (isBound : ∀ name ∈ target.names, name ∈ namesIn scopes)
    (shape : target.isPair → ∃ key value, item = .tuple [key, value]) (id : Option Nat)
    (index : Nat) :
    Simulates (AtBut scopes target.names loop saved) (At scopes loop saved)
      (atItem target id item index) (atItem target.variables id item index) := by
  intro w v related
  suffices bound : At scopes loop saved ((atItem target id item index).run w).2
      ((atItem target.variables id item index).run v).2 from
    ⟨rfl, bound.same, fun _ _ => bound⟩
  cases id with
  | none => exact related.bindTarget isBound shape
  | some id => exact (related.moveLoop id index).bindTarget isBound shape

theorem loopItems_pairs {v : Value} {w u : World}
    (run : (v.loopItems true).run w = (.ok found, u)) :
    ∀ item ∈ found, ∃ key value, item = .tuple [key, value] := by
  unfold Value.loopItems at run
  split at run
  · cases run
    nofun
  · cases run
    intro item member
    obtain ⟨⟨key, value⟩, -, rfl⟩ := List.mem_map.mp member
    exact ⟨key, value, rfl⟩
  · obtain ⟨items, m, -, run⟩ := Step.run_bind_ok run
    cases run
    intro item member
    obtain ⟨⟨value, i⟩, -, rfl⟩ := List.mem_map.mp member
    exact ⟨.int i, value, rfl⟩

theorem mem_shadowedNames {name : String} :
    name ∈ shadowedNames (namesIn scopes) target tracked ↔
      name ∈ boundNames target tracked ∧ name ∈ namesIn scopes := by
  rw [shadowedNames, List.mem_filter, List.contains_iff_mem]

theorem saves_ready (older : ∀ scope ∈ scopes, scope.number < loop) {w v : World}
    (related : At scopes loop saved w v) :
    ∃ u, (setVariable (itemsId loop) (.list found) >>= fun _ => runAll s (saves loop
        (shadowedNames (namesIn scopes) target tracked))).run v = (.ok [], u) ∧
      Ready scopes loop target tracked found saved w u := by
  have named : (v.setLocal (itemsId loop) (.list found)).named = v.named := by
    funext name
    rw [World.named, World.setLocal_lookup, if_neg (localId_ne_itemsId name loop)]
    rfl
  have savedBefore : (v.setLocal (itemsId loop) (.list found)).saved = v.saved := by
    funext other name
    rw [World.saved, World.setLocal_lookup, if_neg (savedId_ne_itemsId other name loop)]
    rfl
  obtain ⟨u, run, same, copied, others⟩ := copies_run (s := s) localId
    (savedId loop) (fun same => (savedId_inj.mp same).2)
    (fun name other => localId_ne_savedId name loop other)
    (shadowedNames (namesIn scopes) target tracked)
    (v := v.setLocal (itemsId loop) (.list found)) fun name member => by
      obtain ⟨a, _, assigned⟩ := related.stands.lookup_bound (mem_shadowedNames.mp member).2
      exact Option.isSome_iff_exists.mpr ⟨a, (congrFun named name).trans assigned⟩
  have namedAfter : u.named = v.named := by
    funext name
    exact (others _ fun other _ => localId_ne_savedId name loop other).trans (congrFun named name)
  have keptSaved {other : Nat} (different : other ≠ loop) : u.saved other = v.saved other := by
    funext name
    refine (others _ fun shadowed _ same => different (savedId_inj.mp same).1).trans ?_
    exact congrFun (congrFun savedBefore other) name
  refine ⟨u, ?_, ⟨⟨⟨?_, ?_⟩, fun earlier before => ?_⟩, ?_, fun name bound isBound => ?_⟩⟩
  · rw [Step.run_bind, setVariable, Step.run_modify]
    exact run
  · rw [same, related.same]
    rfl
  · refine related.stands.congr (fun name _ => congrFun namedAfter name) fun scope member => ?_
    exact keptSaved (Nat.ne_of_lt (older scope member))
  · rw [keptSaved (Nat.ne_of_lt before), related.kept earlier before]
  · rw [others _ fun name _ => (savedId_ne_itemsId loop name loop).symm, World.setLocal_lookup,
      if_pos rfl]
  · refine (copied name (mem_shadowedNames.mpr ⟨bound, isBound⟩)).trans ?_
    exact (congrFun named name).trans (congrFun namedAfter name).symm

theorem loopVariables_names (w : World) (target : Target) (tracked : Bool) :
    (w.loopVariables target tracked).map (·.1) = boundNames target tracked := by
  cases target <;> cases tracked <;> rfl

theorem loopVariables_loop {target : Target} (free : "loop" ∉ target.names) (w : World) :
    (w.loopVariables target true).lookup "loop" = some (.loop w.loops.size) := by
  cases target with
  | one b =>
      have other : "loop" ≠ b.name := fun same => free (same ▸ List.mem_singleton_self _)
      simp [World.loopVariables, loopBindings, World.loopId?, List.lookup_cons,
        beq_false_of_ne other]
  | pair k v =>
      simp only [Target.names, Target.binders, List.map_cons, List.map_nil, List.mem_cons,
        List.not_mem_nil, or_false, not_or] at free
      simp [World.loopVariables, loopBindings, World.loopId?, List.lookup_cons,
        beq_false_of_ne free.1, beq_false_of_ne free.2]

theorem mem_boundNames {name : String} : name ∈ boundNames target tracked ↔
    name ∈ target.names ∨ tracked ∧ name = "loop" := by
  cases tracked <;> simp [boundNames]

/-- Before the first round the names that a loop binds mean nothing but its metadata. -/
theorem Ready.rounds {w v u : World} (ready : Ready scopes loop target tracked found saved w v)
    (same : u = { w.inLoop target tracked found with locals := u.locals })
    (keptSaved : u.saved = v.saved)
    (keptNamed : ∀ name ∉ boundNames target tracked, u.named name = v.named name)
    (metadata : tracked → u.named "loop" = some (.loop w.loops.size)) :
    AtBut (⟨loop, boundNames target tracked⟩ :: scopes) target.names loop saved
      (w.inLoop target tracked found) u where
  same := same
  kept earlier before := (congrFun keptSaved earlier).trans (ready.kept earlier before)
  stands := by
    refine ⟨fun name => if name ∈ target.names then
        (w.loopVariables target tracked).lookup name else u.named name,
      fun name other => if_neg other, .loop (loopVariables_names w target tracked) ?_ ?_⟩
    · intro name bound
      split
      · rfl
      · next other =>
          obtain ⟨isTracked, rfl⟩ := (mem_boundNames.mp bound).resolve_left other
          obtain rfl : tracked = true := isTracked
          rw [loopVariables_loop other, metadata rfl]
    · refine ready.stands.congr (fun name isBound => ?_) fun _ _ => by rw [keptSaved]
      unfold LoopScope.outside
      split
      · next bound => rw [keptSaved, ready.shadowed name bound isBound]
      · next unbound =>
          have other : name ∉ target.names := fun isTarget =>
            unbound (mem_boundNames.mpr (.inl isTarget))
          exact (if_neg other).trans (keptNamed name unbound)

/-- The metadata of a loop leads to that of the loop around, which has been saved if there is one. -/
theorem Ready.makeLoop {w v : World} (ready : Ready scopes loop target true found saved w v) :
    ∃ u, (makeLoop loop (if (shadowedNames (namesIn scopes) target true).contains "loop" then
        some (savedId loop "loop") else none)).run v = (.ok (), u) ∧
      AtBut (⟨loop, boundNames target true⟩ :: scopes) target.names loop saved
        (w.inLoop target true found) u ∧
      u.locals.lookup (itemsId loop) = some (.list found) ∧
      u.locals.lookup (localId "loop") = some (.loop w.loops.size) := by
  have bound : "loop" ∈ boundNames target true := mem_boundNames.mpr (.inr ⟨rfl, rfl⟩)
  have sameLoops : v.loops = w.loops := by rw [ready.same]
  have around : (readParent (if (shadowedNames (namesIn scopes) target true).contains "loop" then
      some (savedId loop "loop") else none)).run v =
      (.ok ((w.locals.lookup "loop").getD .null), v) := by
    by_cases isBound : "loop" ∈ namesIn scopes
    · obtain ⟨a, atWorld, named⟩ := ready.stands.lookup_bound isBound
      have isSaved : v.locals.lookup (savedId loop "loop") = some a :=
        (ready.shadowed "loop" bound isBound).trans named
      rw [if_pos (by simp [mem_shadowedNames, bound, isBound]), atWorld]
      exact readVariable_run isSaved
    · rw [if_neg (by simp [mem_shadowedNames, isBound]), ready.stands.lookup_unbound isBound]
      rfl
  refine ⟨({ v with loops := v.loops.push (.start found ((w.locals.lookup "loop").getD .null)) } :
    World).setLocal (localId "loop") (.loop v.loops.size), ?_, ?_, ?_, ?_⟩
  · rw [Stencil.makeLoop, Step.run_bind, readItems_run ready.items]
    dsimp only
    rw [Step.run_bind, around]
    rfl
  · refine ready.rounds ?_ ?_ (fun name other => ?_) fun _ => ?_
    · rw [World.inLoop, if_pos rfl, ready.same]
      rfl
    · exact World.setLocal_saved _ _ _
    · rw [World.setLocal_named, Function.update_of_ne (ne_of_mem_of_not_mem bound other).symm]
      rfl
    · rw [World.setLocal_named, Function.update_self, sameLoops]
  · rw [World.setLocal_lookup, if_neg (localId_ne_itemsId _ _).symm]
    exact ready.items
  · rw [World.setLocal_lookup, if_pos rfl, sameLoops]

/-- Related worlds in a loop that goes through its items, with the metadata of this number. -/
structure Entered (scopes : List LoopScope) (loop : Nat) (target : Target) (tracked : Bool)
    (found : List Value) (id : Option Nat) (saved : Nat → String → Option Value) (w v : World) :
    Prop extends
    AtBut (⟨loop, boundNames target tracked⟩ :: scopes) target.names loop saved w v where
  items : v.locals.lookup (itemsId loop) = some (.list found)
  metadata : (readLoop tracked).run v = (.ok id, v)

theorem Ready.enters {w v : World} (ready : Ready scopes loop target tracked found saved w v) :
    ∃ u, (runAll s (makes loop tracked (shadowedNames (namesIn scopes) target tracked))).run v =
        (.ok [], u) ∧
      Entered scopes loop target tracked found (w.loopId? tracked) saved
        (w.inLoop target tracked found) u := by
  cases tracked with
  | false =>
      refine ⟨v, rfl, ready.rounds ready.same rfl (fun _ _ => rfl) nofun, ready.items, rfl⟩
  | true =>
      obtain ⟨u, run, rounds, items, metadata⟩ := ready.makeLoop
      refine ⟨u, ?_, rounds, items, ?_⟩
      · rw [makes, if_pos rfl, runAll_singleton, Instr.run, Step.run_bind, run]
        rfl
      · rw [readLoop, if_pos rfl, Step.run_bind, readVariable_run metadata]
        rfl

theorem AtBut.leaves {w v : World} (related :
      AtBut (⟨loop, boundNames target tracked⟩ :: scopes) target.names loop saved w v) :
    ∃ u, (runAll s (restores loop (shadowedNames (namesIn scopes) target tracked))).run v =
        (.ok [], u) ∧
      At scopes loop saved
        { w with locals := w.locals.drop (boundNames target tracked).length } u := by
  obtain ⟨named, sameNamed, stands⟩ := related.stands
  have standsAround := stands.around
  obtain ⟨u, run, same, copied, others⟩ := copies_run (s := s) (savedId loop) localId
    localId_inj.mp (fun name other => (localId_ne_savedId other loop name).symm)
    (shadowedNames (namesIn scopes) target tracked) (v := v) fun name member => by
      obtain ⟨inner, outer⟩ := mem_shadowedNames.mp member
      obtain ⟨a, -, found⟩ := standsAround.lookup_bound outer
      rw [LoopScope.outside, if_pos inner] at found
      exact Option.isSome_iff_exists.mpr ⟨a, found⟩
  have keptSaved : u.saved = v.saved := by
    funext other name
    exact others _ fun shadowed _ => (localId_ne_savedId shadowed other name).symm
  refine ⟨u, run, ⟨⟨?_, ?_⟩, fun earlier before => ?_⟩⟩
  · rw [same, related.same]
  · refine standsAround.congr (fun name isBound => ?_) fun _ _ => by rw [keptSaved]
    unfold LoopScope.outside
    split
    · next inner => exact copied name (mem_shadowedNames.mpr ⟨inner, isBound⟩)
    · next outer =>
        rw [sameNamed name fun isTarget => outer (mem_boundNames.mpr (.inl isTarget))]
        exact others _ fun shadowed member same =>
          outer (localId_inj.mp same ▸ (mem_shadowedNames.mp member).1)
  · rw [keptSaved, related.kept earlier before]

theorem rounds_simulate {code : List Code} {body : List Instr} (id : Option Nat)
    (shape : ∀ item ∈ found, target.isPair → ∃ key value, item = .tuple [key, value])
    (hbody : Refines (⟨loop, boundNames target tracked⟩ :: scopes) (loop + 1) (executeAll s code)
      (runAll s body)) :
    Simulates (Entered scopes loop target tracked found id saved) (At scopes loop saved)
      (forEach (fun (item, index) => do
          atItem target id item index
          executeAll s code) found.zipIdx [] >>= fun written =>
        leaveLoop (boundNames target tracked).length >>= fun _ => pure written)
      (runAll s (.forItems loop target tracked body ::
        restores loop (shadowedNames (namesIn scopes) target tracked))) := by
  have isBound : ∀ name ∈ target.names,
      name ∈ namesIn (⟨loop, boundNames target tracked⟩ :: scopes) := fun name isTarget =>
    List.mem_append_left _ (mem_boundNames.mpr (.inl isTarget))
  have rounds : Simulates
      (AtBut (⟨loop, boundNames target tracked⟩ :: scopes) target.names loop saved)
      (AtBut (⟨loop, boundNames target tracked⟩ :: scopes) target.names loop saved)
      (forEach (fun (item, index) => do
          atItem target id item index
          executeAll s code) found.zipIdx [])
      (forEach (fun (item, index) => do
          atItem target.variables id item index
          runAll s body) found.zipIdx []) := by
    refine .forEach (fun (item, index) member => ?_) (fun _ _ related => related.same) []
    refine (atItem_simulates isBound
      (shape item (List.fst_mem_of_mem_zipIdx member)) id index).bind fun _ _ _ _ => ?_
    exact (hbody.mono (Nat.le_succ loop) saved).mono fun _ _ related => .of_at related _
  have entered := (rounds.strengthen fun w v
    (entered : Entered scopes loop target tracked found id saved w v) => entered.toAtBut).replace
    (z := Instr.run s (.forItems loop target tracked body)) fun w v entered => by
      rw [Instr.run, Step.run_bind, readItems_run entered.items]
      dsimp only
      rw [Step.run_bind, entered.metadata]
  rw [runAll_cons]
  refine entered.bind fun written _ _ _ w v related => ?_
  obtain ⟨u, run, left⟩ := related.leaves (s := s)
  rw [Step.run_bind, run]
  dsimp only
  rw [List.append_nil]
  exact ⟨rfl, left.same, fun _ _ => left⟩

section

variable {code empty : List Code} {body otherwise : List Instr}

theorem found_simulates
    (shape : ∀ item ∈ found, target.isPair → ∃ key value, item = .tuple [key, value])
    (hbody : Refines (⟨loop, boundNames target tracked⟩ :: scopes) (loop + 1) (executeAll s code)
      (runAll s body))
    (hempty : Refines scopes (loop + 1) (executeAll s empty) (runAll s otherwise)) :
    Simulates (Ready scopes loop target tracked found saved) (At scopes loop saved)
      (if found.isEmpty then executeAll s empty
        else enterLoop target tracked found >>= fun (id, added) =>
          forEach (fun (item, index) => do
              atItem target id item index
              executeAll s code) found.zipIdx [] >>= fun written =>
            leaveLoop added >>= fun _ => pure written)
      (Instr.run s (.ifItems loop (roundInstrs (namesIn scopes) loop target tracked body)
        otherwise)) := by
  cases isEmpty : found.isEmpty with
  | true =>
      refine Simulates.replace (y := runAll s otherwise) ?_ fun w v ready => ?_
      · exact (hempty.mono (Nat.le_succ loop) saved).strengthen fun _ _ ready => ready.toAt
      · rw [Instr.run, Step.run_bind, readItems_run ready.items]
        dsimp only
        rw [if_pos isEmpty]
  | false =>
      intro w v ready
      obtain ⟨u, run, entered⟩ := ready.enters (s := s)
      have length : (w.loopVariables target tracked).length = (boundNames target tracked).length := by
        rw [← loopVariables_names w, List.length_map]
      rw [Instr.run, Step.run_bind, readItems_run ready.items]
      dsimp only
      rw [if_neg (by simp [isEmpty]), if_neg Bool.false_ne_true, roundInstrs, runAll_append,
        Step.run_bind, run, Step.run_bind, enterLoop_run]
      dsimp only
      rw [length]
      simp only [List.nil_append, bind_pure]
      exact rounds_simulate (w.loopId? tracked) shape hbody _ _ entered

theorem loop_refines {items : Expr} (older : ∀ scope ∈ scopes, scope.number < loop)
    (hbody : Refines (⟨loop, boundNames target tracked⟩ :: scopes) (loop + 1) (executeAll s code)
      (runAll s body))
    (hempty : Refines scopes (loop + 1) (executeAll s empty) (runAll s otherwise)) :
    Refines scopes loop (execute s (.loop target tracked items code empty))
      (runAll s (loopInstrs (namesIn scopes) loop target tracked items body otherwise)) := by
  have byName : ByName (evaluate s items >>= fun v => v.loopItems target.isPair) :=
    (evaluate_byName s items).bind fun v => (v.loopItems_blind _).byName
  have first : Refines scopes loop _ (inScope (namesIn scopes) _) := .inScope byName
  intro saved
  have function : runAll s (loopInstrs (namesIn scopes) loop target tracked items body otherwise) =
      inScope (namesIn scopes) (evaluate s items >>= fun v => v.loopItems target.isPair) >>=
        fun found => (setVariable (itemsId loop) (.list found) >>= fun _ =>
          runAll s (saves loop (shadowedNames (namesIn scopes) target tracked))) >>= fun written =>
            Instr.run s (.ifItems loop (roundInstrs (namesIn scopes) loop target tracked body)
              otherwise) >>= fun more => pure (written ++ more) := by
    simp only [loopInstrs, runAll_append, Instr.run, bind_assoc, pure_bind,
      List.nil_append, runAll, List.append_nil, bind_pure]
  rw [function, execute, ← bind_assoc]
  refine (first saved).bind fun found w u run => ?_
  have shape : ∀ item ∈ found, target.isPair → ∃ key value, item = .tuple [key, value] := by
    intro item member isPair
    obtain ⟨v, m, -, listed⟩ := Step.run_bind_ok run
    rw [isPair] at listed
    exact loopItems_pairs listed item member
  refine Simulates.after [] (fun _ _ related => saves_ready older related) ?_
  simp only [List.nil_append, bind_pure]
  exact found_simulates shape hbody hempty

end

end Loop

section Compile

variable {s : Setting}

mutual

theorem compile_le (names : List String) (next : Nat) :
    (c : Code) → next ≤ (compile names next c).2
  | .text _ | .mark _ | .output _ _ | .debug _ _ | .set _ _ => Nat.le_refl next
  | .while _ body | .spaceless body => compileAll_le names next body
  | .branch _ body others otherwise =>
      Nat.le_trans (compileAll_le names next body)
        (Nat.le_trans (compileAll_le names _ otherwise) (compileOthers_le names _ others))
  | .loop target tracked _ body empty =>
      Nat.le_trans (Nat.le_succ next)
        (Nat.le_trans (compileAll_le (boundNames target tracked ++ names) _ body)
          (compileAll_le names _ empty))

theorem compileAll_le (names : List String) (next : Nat) :
    (code : List Code) → next ≤ (compileAll names next code).2
  | [] => Nat.le_refl next
  | c :: rest => Nat.le_trans (compile_le names next c) (compileAll_le names _ rest)

theorem compileOthers_le (names : List String) (next : Nat) :
    (others : List (Expr × List Code)) → next ≤ (compileOthers names next others).2
  | [] => Nat.le_refl next
  | (_, body) :: rest =>
      Nat.le_trans (compileAll_le names next body) (compileOthers_le names _ rest)

end

theorem older_of_le {scopes : List LoopScope} {next after : Nat}
    (older : ∀ scope ∈ scopes, scope.number < next) (le : next ≤ after) :
    ∀ scope ∈ scopes, scope.number < after :=
  fun scope isScope => Nat.lt_of_lt_of_le (older scope isScope) le

mutual

theorem compile_refines {scopes : List LoopScope} {next : Nat}
    (older : ∀ scope ∈ scopes, scope.number < next) : (c : Code) →
    Refines scopes next (execute s c) (runAll s (compile (namesIn scopes) next c).1)
  | .text value => by
      rw [compile, runAll_singleton]
      exact .inScope (.pure _)
  | .mark line => by
      rw [compile, runAll_singleton]
      exact .inScope (Blind.byName fun _ _ _ _ => rfl)
  | .output value escape => by
      rw [compile, runAll_singleton]
      exact .inScope ((evaluate_byName s value).bind fun v =>
        .getBind (fun _ => .pure _) fun _ _ _ => rfl)
  | .debug none label => by
      rw [compile, runAll_singleton]
      refine .inScope (.getBind (fun w => ?_) fun _ _ _ => rfl)
      exact .bind (.pure _) fun v => .getBind (fun _ => .pure _) fun _ _ _ => rfl
  | .debug (some value) label => by
      rw [compile, runAll_singleton]
      exact .inScope ((evaluate_byName s value).bind fun v =>
        .getBind (fun _ => .pure _) fun _ _ _ => rfl)
  | .branch condition body others otherwise => by
      have bodyLe := compileAll_le (namesIn scopes) next body
      have otherwiseLe := Nat.le_trans bodyLe (compileAll_le (namesIn scopes) _ otherwise)
      have rest := (compileAll_refines (older_of_le older bodyLe) otherwise).mono bodyLe
      rw [compile, runAll_singleton]
      refine .bind (.inScope (holds_byName s condition)) fun answer => ?_
      cases answer with
      | true => exact compileAll_refines older body
      | false =>
          exact compileOthers_refines (older_of_le older otherwiseLe) otherwiseLe rest others
  | .loop target tracked items body empty => by
      have bodyLe := compileAll_le (boundNames target tracked ++ namesIn scopes) (next + 1) body
      have inner : ∀ scope ∈ (⟨next, boundNames target tracked⟩ : LoopScope) :: scopes,
          scope.number < next + 1 :=
        List.forall_mem_cons.mpr ⟨Nat.lt_succ_self next, older_of_le older (Nat.le_succ next)⟩
      rw [compile]
      exact loop_refines older (compileAll_refines inner body)
        ((compileAll_refines (older_of_le older (Nat.le_of_succ_le bodyLe)) empty).mono bodyLe)
  | .while condition body => by
      rw [compile, runAll_singleton]
      exact .whileWithin (.inScope (holds_byName s condition)) (compileAll_refines older body) _ _
  | .set name value => by
      rw [compile, runAll_singleton]
      split
      · next isBound =>
          refine .bind (.inScope (evaluate_byName s value)) fun v => ?_
          exact (Refines.assign_bound (List.contains_iff_mem.mp isBound) v).bind fun _ => .pure _
      · next unbound =>
          refine .bind (.inScope (evaluate_byName s value)) fun v => ?_
          exact (Refines.assign_unbound (mt List.contains_iff_mem.mpr unbound) v).bind
            fun _ => .pure _
  | .spaceless body => by
      rw [compile, runAll_singleton]
      exact .bind (compileAll_refines older body) fun _ => .pure _

theorem compileAll_refines {scopes : List LoopScope} {next : Nat}
    (older : ∀ scope ∈ scopes, scope.number < next) : (code : List Code) →
    Refines scopes next (executeAll s code) (runAll s (compileAll (namesIn scopes) next code).1)
  | [] => .pure _
  | c :: rest => by
      have le := compile_le (namesIn scopes) next c
      rw [compileAll, runAll_append]
      refine .bind (compile_refines older c) fun written => ?_
      exact .bind ((compileAll_refines (older_of_le older le) rest).mono le) fun _ => .pure _

/-- The conditions of a branch are compiled after what is written if none of them holds. -/
theorem compileOthers_refines {scopes : List LoopScope} {next before : Nat}
    {otherwise rest : Eval (List Fragment)} (older : ∀ scope ∈ scopes, scope.number < next)
    (le : before ≤ next) (hrest : Refines scopes before otherwise rest) :
    (others : List (Expr × List Code)) → Refines scopes before (executeOthers s others otherwise)
      (runOthers s (namesIn scopes) (compileOthers (namesIn scopes) next others).1 rest)
  | [] => hrest
  | (condition, body) :: further => by
      have bodyLe := compileAll_le (namesIn scopes) next body
      rw [compileOthers, executeOthers, runOthers]
      refine .bind (.inScope (holds_byName s condition)) fun answer => ?_
      cases answer with
      | true => exact (compileAll_refines older body).mono le
      | false =>
          exact compileOthers_refines (older_of_le older bodyLe) (Nat.le_trans le bodyLe) hrest further

end

/-- The function of a template does what the template does: it fails or writes the same, and leaves
the same context, loops and reports. -/
theorem functionOf_run (code : List Code) (w : World) (outermost : w.locals = []) :
    ((runAll s (functionOf code)).run w).1 = ((executeAll s code).run w).1 ∧
      ∃ held, ((runAll s (functionOf code)).run w).2 =
        { ((executeAll s code).run w).2 with locals := held } := by
  have related : At [] 1 w.saved w w := ⟨⟨rfl, outermost ▸ .base⟩, fun _ _ => rfl⟩
  have refines : Refines [] 1 (executeAll s code) (runAll s (functionOf code)) :=
    compileAll_refines (List.forall_mem_nil _) code
  obtain ⟨result, same, -⟩ := refines w.saved w w related
  exact ⟨result, _, same⟩

end Compile

/-- Whether a loop that began and ended with these variables of the function kept to its scope. In
the worlds on its way what it has bound itself is in front of what was bound before. -/
structure KeptVariables (s : Setting) (scopes : List LoopScope) (code : List Code)
    (w v u : World) : Prop where
  /-- A name that was a variable has its value, unless it was assigned where nothing inside had bound
  it again. -/
  around : ∀ name ∈ namesIn scopes, u.named name = v.named name ∨
    ∃ here, Assigns s code w name here ∧ name ∉ here.innerNames w.locals.length
  /-- What was no variable is looked up in the context again. -/
  gone : ∀ name ∉ namesIn scopes,
    (inScope (namesIn scopes) (s.variableOf name)).run u = (s.lookup name).run u
  /-- The context has changed only where a name was assigned that was no variable there. -/
  context : ∀ name, u.context.get? name = v.context.get? name ∨
    ∃ here, Assigns s code w name here ∧ here.locals.lookup name = none
  others : u.context.others = v.context.others
  /-- The metadata of the loops around has changed only where one of them was itself gone through or
  searched. -/
  loops : ∀ id < v.loops.size, u.loops[id]? = v.loops[id]? ∨ AsksAll s code w id

section Scope

variable {s : Setting} {scopes : List LoopScope}

theorem lookup_locals (name : String) (w : World) (locals : List (String × Value)) :
    (s.lookup name).run { w with locals } =
      (((s.lookup name).run w).1, { ((s.lookup name).run w).2 with locals }) := by
  unfold Setting.lookup
  rw [Step.run_bind, Step.run_bind, Step.run_get, Step.run_get]
  dsimp only
  split
  · rfl
  · rw [Setting.missing_run, Setting.missing_run, Setting.afterMiss, Setting.afterMiss]
    dsimp only
    split <;> rfl

theorem lookup_unscoped {name : String} (unbound : name ∉ namesIn scopes) (u : World) :
    (inScope (namesIn scopes) (s.variableOf name)).run u = (s.lookup name).run u := by
  have inside : (s.variableOf name).run { u with locals := visible (namesIn scopes) u.locals } =
      (s.lookup name).run { u with locals := visible (namesIn scopes) u.locals } := by
    rw [Setting.variableOf, Step.run_bind, Step.run_get]
    dsimp only
    rw [lookup_visible, if_neg unbound]
  have kept := (s.lookup_byName name).locals u
  show (((s.variableOf name).run { u with locals := visible (namesIn scopes) u.locals }).1,
    { ((s.variableOf name).run { u with locals := visible (namesIn scopes) u.locals }).2 with
      locals := u.locals }) = _
  rw [inside, lookup_locals, ← kept]
  rfl

/-- The variables of the function are lexically scoped: saving and restoring them around a loop
comes to the same as a stack of scopes. -/
theorem compiledLoop_keptVariables {next : Nat} {target : Target} {tracked : Bool} {items : Expr}
    {body empty : List Code} {w v u : World} {written : List Fragment}
    (older : ∀ scope ∈ scopes, scope.number < next) (represents : Represents scopes w v)
    (run : (runAll s (compile (namesIn scopes) next
      (.loop target tracked items body empty)).1).run v = (.ok written, u)) :
    KeptVariables s scopes [.loop target tracked items body empty] w v u ∧
      ∃ m, (execute s (.loop target tracked items body empty)).run w = (.ok written, m) ∧
        Represents scopes m u := by
  obtain ⟨result, -, after⟩ := compile_refines (s := s) older (.loop target tracked items body empty)
    v.saved w v ⟨represents, fun _ _ => rfl⟩
  rw [run] at result after
  cases carriedOut : (execute s (.loop target tracked items body empty)).run w with
  | mk given m =>
      rw [carriedOut] at result after
      obtain rfl : given = .ok written := result.symm
      have there : Represents scopes m u := (after written rfl).toRepresents
      have kept := loop_keptScope carriedOut
      refine ⟨⟨fun name isBound => ?_, fun name unbound => lookup_unscoped unbound u, ?_, ?_, ?_⟩,
        m, rfl, there⟩
      · obtain ⟨a, before, named⟩ := represents.stands.lookup_bound isBound
        obtain ⟨b, behind, namedBehind⟩ := there.stands.lookup_bound isBound
        refine (kept.around name a before).imp_left fun unchanged => ?_
        rw [namedBehind, named, ← behind, unchanged]
      · rw [there.same, represents.same]
        exact kept.context
      · rw [there.same, represents.same]
        exact kept.others
      · rw [there.same, represents.same]
        exact kept.loops

/-! A loop in a loop of the same variable, inside of a third one. -/

def shadowingLoop : Code :=
  .loop (.one ⟨⟨1, 7⟩, "x"⟩) false
    (.range ⟨1, 12⟩ (.const ⟨1, 12⟩ (.nat 1)) (.const ⟨1, 15⟩ (.nat 2)))
    [.loop (.one ⟨⟨2, 7⟩, "x"⟩) false (.const ⟨2, 12⟩ (.string "ab"))
        [.set "x" (.const ⟨2, 22⟩ (.nat 3))] [],
      .set "last" (.name ⟨3, 14⟩ "x")] []

def shadowedWorld : World :=
  { World.start ⟨[("last", .null)], []⟩ #[] with locals := [("x", .str "outer")] }

def shadowedVariables : World := { shadowedWorld with locals := [("l_x", .str "outer")] }

theorem shadowedVariables_represents :
    Represents [⟨1, ["x"]⟩] shadowedWorld shadowedVariables where
  same := rfl
  stands := by
    show Stands _ _ _ ([("x", .str "outer")] ++ [])
    refine .loop rfl (fun name bound => ?_) .base
    obtain rfl := List.mem_singleton.mp bound
    rfl

theorem compiledLoop_keptVariables_shadowing : ∃ written u,
    (runAll plainSetting (compile ["x"] 2 shadowingLoop).1).run shadowedVariables = (.ok written, u) ∧
      KeptVariables plainSetting [⟨1, ["x"]⟩] [shadowingLoop] shadowedWorld shadowedVariables u := by
  have completes : ((runAll plainSetting (compile ["x"] 2 shadowingLoop).1).run
      shadowedVariables).1.toOption.isSome := by
    decide +kernel
  cases run : (runAll plainSetting (compile ["x"] 2 shadowingLoop).1).run shadowedVariables with
  | mk result u =>
      cases result with
      | error fault =>
          rw [run] at completes
          cases completes
      | ok written =>
          have older : ∀ scope ∈ [(⟨1, ["x"]⟩ : LoopScope)], scope.number < 2 := by decide
          exact ⟨written, u, rfl,
            (compiledLoop_keptVariables older shadowedVariables_represents run).1⟩

end Scope

end Stencil
