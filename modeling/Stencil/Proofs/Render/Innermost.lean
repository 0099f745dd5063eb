import Stencil.Proofs.Assembly.LoopUse
import Stencil.Proofs.Render.Rounds
import Stencil.Proofs.Render.Spared

/-!
The name `loop` stands for the innermost loop around. Only a loop whose body uses the name makes
metadata, but all loops around a use do.
-/

namespace Stencil

open Eval
open Code (Unused TracksAll TracksOthers)

section Tells

variable (s : Setting)

/-- Whether a value is the metadata of the innermost of some rounds, and its parent that of the
rounds around. Outside of all rounds it is null. -/
def Tells (w : World) : Value → List Round → Prop
  | v, [] => v = .null
  | v, r :: around =>
      let tells := fun name part => (s.access v (.str name)).run w = (.ok part, w)
      tells "index" (.int (r.index + 1)) ∧
      tells "revindex" (.int (r.items.length - r.index)) ∧
      tells "first" (.bool (r.index = 0)) ∧
      tells "last" (.bool (r.index + 1 = r.items.length)) ∧
      tells "previtem" r.previous ∧
      tells "nextitem" r.next ∧
      ∃ parent, tells "parent" parent ∧ Tells w parent around

end Tells

variable {s : Setting}

/-! The states behind the metadata. -/

def World.loopValue (w : World) : Value := (w.locals.lookup "loop").getD .null

theorem World.loopValue_eq {w u : World}
    (same : u.locals.lookup "loop" = w.locals.lookup "loop") : u.loopValue = w.loopValue := by
  rw [loopValue, same, loopValue]

/-- Whether a value is the metadata of the innermost of some rounds. -/
def Metadata (w : World) : Value → List Round → Prop
  | v, [] => v = .null
  | v, r :: around => ∃ id parent, v = .loop id ∧
      w.loops[id]? = some ⟨r.items, r.index, parent⟩ ∧ Metadata w parent around

theorem Metadata.of_loops {w u : World}
    (kept : ∀ (id : Nat) (l : LoopState), w.loops[id]? = some l → u.loops[id]? = some l) {v : Value}
    {rounds : List Round} (metadata : Metadata w v rounds) : Metadata u v rounds := by
  induction rounds generalizing v with
  | nil => exact metadata
  | cons r around ih =>
      obtain ⟨id, parent, same, state, further⟩ := metadata
      exact ⟨id, parent, same, kept id _ state, ih further⟩

theorem Setting.access_loop {w : World} {id : Nat} {l : LoopState} {name : String} {part : Value}
    (state : w.loops[id]? = some l) (found : l.attribute? id name = some part) :
    (s.access (.loop id) (.str name)).run w = (.ok part, w) := by
  have isPart : (Value.loop id).part? s.host w.heap (.str name) = some part := by
    simp [Value.part?, Value.text?, Value.attribute?, Value.ownAttribute?, World.heap, state, found]
  unfold Setting.access
  dsimp only
  rw [Step.run_bind, Step.run_get]
  dsimp only
  rw [isPart]
  rfl

theorem Metadata.tells {w : World} {v : Value} {rounds : List Round}
    (metadata : Metadata w v rounds) : Tells s w v rounds := by
  induction rounds generalizing v with
  | nil => exact metadata
  | cons r around ih =>
      obtain ⟨id, parent, rfl, state, further⟩ := metadata
      refine ⟨?_, ?_, ?_, ?_, ?_, ?_, parent, ?_, ih further⟩
      · exact Setting.access_loop state rfl
      · exact Setting.access_loop state rfl
      · exact Setting.access_loop state rfl
      · exact Setting.access_loop state rfl
      · refine Setting.access_loop state (congrArg some ?_)
        unfold LoopState.previous Round.previous
        split <;> rfl
      · exact Setting.access_loop state rfl
      · exact Setting.access_loop state rfl

/-! Steps that neither bind `loop` nor ask any loop leave it what it is. -/

section Scoped

variable {assigned : String → World → Prop} {asked : Nat → Prop} {depth bound : Nat}

theorem Evaluates.scoped {c : Code} {e : Expr} {w u : World} (evaluates : Evaluates s c w e u)
    (covers : Covers s assigned asked [c] w) (above : w.Above depth bound) :
    w.Scoped assigned asked depth bound u := by
  induction evaluates with
  | output | condition | items | round | set | debug => exact .refl _
  | other failed _ ih =>
      have first := holds_scoped depth bound covers .condition failed
      exact first.trans (ih (covers.other failed) (first.above above))
  | again held carriedOut _ ih =>
      have first := holds_scoped depth bound covers .round held
      have round := first.trans (executeAll_keepsTo _ _ _ _ carriedOut
        (covers.entered (.round held)) (first.above above))
      exact round.trans (ih (covers.again held carriedOut) (round.above above))

theorem Enters.scoped {c : Code} {part : List Code} {w u : World} (enters : Enters s c w part u)
    (plain : ∀ target tracked items body empty, c ≠ .loop target tracked items body empty)
    (covers : Covers s assigned asked [c] w) (above : w.Above depth bound) :
    w.Scoped assigned asked depth bound u := by
  induction enters with
  | body held => exact holds_scoped depth bound covers .condition held
  | otherwise failed => exact holds_scoped depth bound covers .condition failed
  | round held => exact holds_scoped depth bound covers .round held
  | spaceless => exact .refl _
  | empty | item => exact (plain _ _ _ _ _ rfl).elim
  | other failed _ ih =>
      have first := holds_scoped depth bound covers .condition failed
      exact first.trans (ih nofun (covers.other failed) (first.above above))
  | again held carriedOut _ ih =>
      have first := holds_scoped depth bound covers .round held
      have round := first.trans (executeAll_keepsTo _ _ _ _ carriedOut
        (covers.entered (.round held)) (first.above above))
      exact round.trans (ih nofun (covers.again held carriedOut) (round.above above))

/-- A step that does not assign `loop` leaves what it stands for. -/
theorem World.Scoped.lookup_loop {w u : World}
    (step : w.Scoped (fun name _ => name ≠ "loop") asked w.locals.length bound u) :
    u.locals.lookup "loop" = w.locals.lookup "loop" := by
  have kept := (step.locals "loop").resolve_right fun ⟨_, other, _⟩ => other rfl
  rwa [← step.length, World.outer_self, step.length, World.outer_self] at kept

theorem World.Scoped.state {w u : World} {id : Nat}
    (step : w.Scoped assigned (· ≠ id) depth bound u) (small : id < bound) :
    u.loops[id]? = w.loops[id]? :=
  (step.loops id small).resolve_right fun other => other rfl

end Scoped

/-- A step that leaves `loop` and the metadata of all loops as they are. -/
abbrev World.SameLoop (w u : World) : Prop :=
  w.Scoped (fun name _ => name ≠ "loop") (fun _ => False) w.locals.length w.loops.size u

namespace World.SameLoop

variable {w u : World}

theorem lookup_loop (same : w.SameLoop u) : u.locals.lookup "loop" = w.locals.lookup "loop" :=
  Scoped.lookup_loop same

theorem loopValue (same : w.SameLoop u) : u.loopValue = w.loopValue :=
  World.loopValue_eq same.lookup_loop

theorem state (same : w.SameLoop u) (id : Nat) (l : LoopState) (isState : w.loops[id]? = some l) :
    u.loops[id]? = some l := by
  have older : id < w.loops.size := (Array.getElem?_eq_some_iff.mp isState).1
  exact ((same.loops id older).resolve_right fun impossible => impossible).trans isState

theorem metadata (same : w.SameLoop u) {rounds : List Round}
    (metadata : Metadata w w.loopValue rounds) : Metadata u u.loopValue rounds := by
  rw [same.loopValue]
  exact metadata.of_loops same.state

end World.SameLoop

/-- Whether nothing that code comes to binds or assigns `loop`, or asks a loop for its items. -/
structure Undisturbed (s : Setting) (code : List Code) (w : World) : Prop where
  covers : Covers s (fun name _ => name ≠ "loop") (fun _ => False) code w
  targets : ∀ target tracked items body empty here,
    Reaches s code w (.loop target tracked items body empty) here → "loop" ∉ target.names

namespace Undisturbed

variable {c : Code} {rest part : List Code} {w u : World}

theorem head (undisturbed : Undisturbed s (c :: rest) w) : Undisturbed s [c] w where
  covers := undisturbed.covers.head
  targets _ _ _ _ _ _ reached := undisturbed.targets _ _ _ _ _ _ (reached.of_head rest)

theorem tail {written : List Fragment} (undisturbed : Undisturbed s (c :: rest) w)
    (run : (execute s c).run w = (.ok written, u)) : Undisturbed s rest u where
  covers := undisturbed.covers.tail run
  targets _ _ _ _ _ _ reached := undisturbed.targets _ _ _ _ _ _ (.further run reached)

theorem entered (undisturbed : Undisturbed s [c] w) (enters : Enters s c w part u) :
    Undisturbed s part u where
  covers := undisturbed.covers.entered enters
  targets _ _ _ _ _ _ reached := undisturbed.targets _ _ _ _ _ _ (.within enters reached)

end Undisturbed

theorem Code.unused_cons {c : Code} {rest : List Code} :
    Unused (c :: rest) ↔ Unused [c] ∧ Unused rest := by
  rw [← List.singleton_append, unused_append]

theorem Enters.unused {c : Code} {part : List Code} {w u : World} (enters : Enters s c w part u)
    (unused : c.anyExpr Expr.usesLoop = false) : Unused part := by
  induction enters with
  | other _ _ ih =>
      simp only [Code.anyExpr, Code.anyExprOthers, Bool.or_eq_false_iff] at unused ih
      obtain ⟨⟨_, ⟨hnext, hfirst⟩, hothers⟩, hotherwise⟩ := unused
      exact ih ⟨⟨⟨hnext, hfirst⟩, hothers⟩, hotherwise⟩
  | again _ _ _ ih => exact ih unused
  | spaceless => exact unused
  | body | otherwise | empty | item | round =>
      simp only [Code.anyExpr, Bool.or_eq_false_iff] at unused
      simp only [Unused, unused]

theorem Evaluates.unused {c : Code} {e : Expr} {w u : World} (evaluates : Evaluates s c w e u)
    (unused : c.anyExpr Expr.usesLoop = false) : e.usesLoop = false := by
  induction evaluates with
  | other _ _ ih =>
      simp only [Code.anyExpr, Code.anyExprOthers, Bool.or_eq_false_iff] at unused ih
      obtain ⟨⟨_, ⟨hnext, hfirst⟩, hothers⟩, hotherwise⟩ := unused
      exact ih ⟨⟨⟨hnext, hfirst⟩, hothers⟩, hotherwise⟩
  | again _ _ _ ih => exact ih unused
  | output | set => exact unused
  | debug => simpa [Code.anyExpr] using unused
  | condition | items | round =>
      simp only [Code.anyExpr, Bool.or_eq_false_iff] at unused
      simp only [unused]

theorem Enters.tracks {c : Code} {part : List Code} {w u : World} (enters : Enters s c w part u)
    (tracks : c.Tracks) : TracksAll part := by
  induction enters with
  | body => exact tracks.1
  | other _ _ ih => exact ih ⟨tracks.2.1.1, tracks.2.1.2, tracks.2.2⟩
  | otherwise => exact tracks.2.2
  | empty => exact tracks.2.2
  | item => exact tracks.2.1
  | round => exact tracks
  | again _ _ _ ih => exact ih tracks
  | spaceless => exact tracks

/-! The rounds of a tracked loop. -/

/-- What holds in a round of a tracked loop: `loop` is its metadata, and the metadata of the loops
around is as it was when the loop started. -/
structure InRound (start : World) (id : Nat) (l : LoopState) (w : World) : Prop where
  isLoop : w.locals.lookup "loop" = some (.loop id)
  state : w.loops[id]? = some l
  older : ∀ other < id, w.loops[other]? = start.loops[other]?

theorem lookup_loop_setLocal {name : String} (v : Value) (w : World) (other : "loop" ≠ name) :
    (w.setLocal name v).locals.lookup "loop" = w.locals.lookup "loop" := by
  rw [World.setLocal, lookup_setNamed, if_neg other]

theorem lookup_loop_bindTarget {target : Target} (item : Value) (w : World)
    (other : "loop" ∉ target.names) :
    (bindTarget target item w).locals.lookup "loop" = w.locals.lookup "loop" := by
  unfold bindTarget
  split
  · refine lookup_loop_setLocal _ w fun same => other ?_
    simp [Target.names, Target.binders, same]
  · rw [lookup_loop_setLocal, lookup_loop_setLocal]
    · intro same
      exact other (by simp [Target.names, Target.binders, same])
    · intro same
      exact other (by simp [Target.names, Target.binders, same])
  · rfl

theorem bindTarget_loops (target : Target) (item : Value) (w : World) :
    (bindTarget target item w).loops = w.loops := by
  unfold bindTarget
  split <;> rfl

namespace InRound

variable {start w u : World} {id : Nat} {l : LoopState}

theorem loopValue (inRound : InRound start id l w) : w.loopValue = .loop id := by
  rw [World.loopValue, inRound.isLoop]
  rfl

theorem sameLoop (inRound : InRound start id l w) (same : w.SameLoop u) : InRound start id l u where
  isLoop := same.lookup_loop.trans inRound.isLoop
  state := same.state id l inRound.state
  older other before := by
    have there : id < w.loops.size := (Array.getElem?_eq_some_iff.mp inRound.state).1
    have kept := (same.loops other (Nat.lt_trans before there)).resolve_right fun none => none
    exact kept.trans (inRound.older other before)

theorem atItem {target : Target} {item : Value} {i : Nat} (inRound : InRound start id l w)
    (other : "loop" ∉ target.names)
    (run : (atItem target (some id) item i).run w = (.ok (), u)) :
    InRound start id { l with index := i } u := by
  cases run
  have loops := bindTarget_loops target item (w.moveLoop id i)
  rw [World.moveLoop_loops] at loops
  refine ⟨?_, ?_, fun earlier before => ?_⟩
  · dsimp only
    rw [lookup_loop_bindTarget item _ other, World.moveLoop_locals]
    exact inRound.isLoop
  · dsimp only
    rw [loops, Array.getElem?_modify, if_pos rfl, inRound.state]
    rfl
  · dsimp only
    rw [loops, Array.getElem?_modify, if_neg (Nat.ne_of_gt before)]
    exact inRound.older earlier before

theorem inLoop {target : Target} (items : List Value) (w : World)
    (other : "loop" ∉ target.names) :
    InRound w w.loops.size (.start items w.loopValue) (w.inLoop target true items) where
  isLoop := by
    cases target with
    | one b =>
        simp only [Target.names, Target.binders, List.map_cons, List.map_nil, List.mem_singleton]
          at other
        simp [World.inLoop, World.loopVariables, World.loopId?, loopBindings, List.lookup_cons,
          beq_false_of_ne other]
    | pair k v =>
        simp only [Target.names, Target.binders, List.map_cons, List.map_nil, List.mem_cons,
          List.not_mem_nil, or_false, not_or] at other
        simp [World.inLoop, World.loopVariables, World.loopId?, loopBindings, List.lookup_cons,
          beq_false_of_ne other.1, beq_false_of_ne other.2]
  state := by simp [World.inLoop, World.loopValue]
  older earlier before := World.inLoop_loops target true items before

end InRound

theorem inRound_of_item {target : Target} {items : Expr} {body empty : List Code}
    {v : Value} {found : List Value} {entered : Option Nat × Nat}
    {before after : List (Value × Nat)} {e : Value × Nat} {written : List Fragment}
    {w u u' start middle here : World}
    (undisturbed : Undisturbed s [.loop target true items body empty] w)
    (evaluated : (evaluate s items).run w = (.ok v, u))
    (listed : (v.loopItems target.isPair).run u = (.ok found, u'))
    (started : (enterLoop target true found).run u' = (.ok entered, start))
    (split : found.zipIdx = before ++ e :: after)
    (repeated : (forEach (loopStep s target entered.1 body) before []).run start =
      (.ok written, middle))
    (bound : (atItem target entered.1 e.1 e.2).run middle = (.ok (), here)) :
    InRound u' u'.loops.size ⟨found, e.2, u'.loopValue⟩ here := by
  have other := undisturbed.targets _ _ _ _ _ _ .first
  have entering := started
  rw [enterLoop_run] at started
  cases started
  refine round_invariant (Q := fun i m => InRound u' u'.loops.size ⟨found, i, u'.loopValue⟩ m)
    empty evaluated listed entering split repeated bound ⟨0, .inLoop found u' other⟩ ?_ ?_
  · intro i item j m m' inRound run
    exact inRound.atItem other run
  · intro j there parts m inRound enters carriedOut
    exact ⟨j, inRound.sameLoop (executeAll_keepsTo body _ _ _ carriedOut
      (undisturbed.covers.entered enters) there.above_self)⟩

/-! Points inside of rounds. -/

/-- Whether `loop` is the metadata of the rounds around code that uses it. -/
def Known (rounds : List Round) (code : List Code) (w : World) : Prop :=
  ¬ Unused code → Metadata w w.loopValue rounds

theorem Known.sameLoop {rounds : List Round} {first second : List Code} {w u : World}
    (known : Known rounds first w) (same : w.SameLoop u) (further : Unused first → Unused second) :
    Known rounds second u :=
  fun used => same.metadata (known fun unused => used (further unused))

theorem Undisturbed.listed {target : Target} {tracked : Bool} {items : Expr}
    {body empty : List Code} {v : Value} {found : List Value} {w u u' : World}
    (undisturbed : Undisturbed s [.loop target tracked items body empty] w)
    (evaluated : (evaluate s items).run w = (.ok v, u))
    (listed : (v.loopItems target.isPair).run u = (.ok found, u')) : w.SameLoop u' :=
  World.Scoped.trans (evaluate_scoped _ _ undisturbed.covers .items evaluated)
    (loopItems_scoped undisturbed.covers evaluated listed)

theorem known_of_inRound {around : List Round} {body : List Code} {found : List Value} {i : Nat}
    {u here : World} (outside : Metadata u u.loopValue around)
    (inRound : InRound u u.loops.size ⟨found, i, u.loopValue⟩ here) :
    Known (⟨found, i⟩ :: around) body here := by
  intro _
  rw [inRound.loopValue]
  refine ⟨_, _, rfl, inRound.state, outside.of_loops fun id l state => ?_⟩
  have older : id < u.loops.size := (Array.getElem?_eq_some_iff.mp state).1
  exact (inRound.older id older).trans state

theorem EntersIn.known {around rounds : List Round} {c : Code} {part : List Code} {w u : World}
    (entersIn : EntersIn s around c w rounds part u) (tracks : c.Tracks)
    (undisturbed : Undisturbed s [c] w) (known : Known around [c] w) : Known rounds part u := by
  have less : Unused [c] → Unused part := fun unused =>
    entersIn.enters.unused (Code.unused_singleton.mp unused)
  cases entersIn with
  | plain plain enters =>
      exact known.sameLoop (enters.scoped plain undisturbed.covers w.above_self) less
  | empty evaluated listed => exact known.sameLoop (undisturbed.listed evaluated listed) less
  | item evaluated listed started split repeated bound =>
      intro used
      have isTracked := eq_true_of_ne_false fun untracked => used (tracks.1 untracked)
      subst isTracked
      have outside := (undisturbed.listed evaluated listed).metadata
        (known fun unused => used (less unused))
      exact known_of_inRound outside
        (inRound_of_item undisturbed evaluated listed started split repeated bound) used

theorem Inside.known {around rounds : List Round} {code : List Code} {c : Code} {w here : World}
    (inside : Inside s around code w rounds c here) (tracks : TracksAll code)
    (undisturbed : Undisturbed s code w) (known : Known around code w) :
    Undisturbed s [c] here ∧ Known rounds [c] here := by
  induction inside with
  | first =>
      refine ⟨undisturbed.head, fun used => known fun unused => used ?_⟩
      exact (Code.unused_cons.mp unused).1
  | further run _ ih =>
      refine ih tracks.2 (undisturbed.tail run) (known.sameLoop ?_ fun unused => ?_)
      · exact execute_keepsTo _ _ _ _ run undisturbed.covers.head (World.above_self _)
      · exact (Code.unused_cons.mp unused).2
  | within entersIn _ ih =>
      have head : Known _ [_] _ := fun used => known fun unused =>
        used (Code.unused_cons.mp unused).1
      exact ih (entersIn.enters.tracks tracks.1) (undisturbed.head.entered entersIn.enters)
        (entersIn.known tracks.1 undisturbed.head head)

theorem variableOf_loop {u : World} (bound : u.loopValue ≠ .null) :
    (s.variableOf "loop").run u = (.ok u.loopValue, u) := by
  unfold Setting.variableOf
  rw [Step.run_bind, Step.run_get]
  dsimp only
  cases found : u.locals.lookup "loop" with
  | none => exact (bound (by rw [World.loopValue, found]; rfl)).elim
  | some v =>
      rw [World.loopValue, found]
      rfl

/-- In a template that binds and assigns `loop` nowhere and asks no loop for its items, `loop` is
the metadata of the innermost round around wherever it is used, and its parents are those of the
rounds around that one. -/
theorem loop_innermost {p : Plan} {source : Source} {a : Assembled} {trail : Trail}
    (assembled : (p.assemble source).run {} = (.ok a, trail)) {context : Context}
    {generators : Array (List Value)}
    (unbound : ∀ target tracked items body empty here,
      Reaches s a.code (World.start context generators) (.loop target tracked items body empty)
        here → "loop" ∉ target.names)
    (unset : ∀ here, ¬ Assigns s a.code (World.start context generators) "loop" here)
    (unasked : ∀ id, ¬ AsksAll s a.code (World.start context generators) id)
    {r : Round} {around : List Round} {c : Code} {e : Expr} {here u : World}
    (inside : Inside s [] a.code (World.start context generators) (r :: around) c here)
    (evaluates : Evaluates s c here e u) (uses : e.usesLoop) :
    ∃ v, (s.variableOf "loop").run u = (.ok v, u) ∧ Tells s u v (r :: around) := by
  have undisturbed : Undisturbed s a.code (World.start context generators) :=
    ⟨⟨fun name here assigns same => unset here (same ▸ assigns), unasked⟩, unbound⟩
  have outside : Known [] a.code (World.start context generators) := fun _ => rfl
  obtain ⟨single, known⟩ := inside.known (Plan.tracks_of_assemble assembled) undisturbed outside
  have used : ¬ Unused [c] := by
    intro unused
    rw [evaluates.unused (Code.unused_singleton.mp unused)] at uses
    cases uses
  have same : here.SameLoop u := evaluates.scoped single.covers ⟨Nat.le_refl _, Nat.le_refl _⟩
  have metadata := same.metadata (known used)
  refine ⟨u.loopValue, variableOf_loop ?_, metadata.tells⟩
  obtain ⟨id, _, isLoop, _⟩ := metadata
  rw [isLoop]
  nofun

/-! A page whose rows are loops of their own, in an include. -/

def rowsPlan : Plan where
  library :=
    { read := fun name => match name with
        | "row" => .ok ⟨"\x7b% for y in x..9 %\x7d\x7b\x7b loop.parent.index \x7d\x7d\x7b% endfor %\x7d",
            none⟩
        | _ => .error (.failure name)
      bound := 1 }
  registries := .builtin
  limits := {}

def rowsPage : Source :=
  ⟨"\x7b% for x in 7..8 %\x7d\x7b% include 'row' %\x7d\x7b% endfor %\x7d", none, none⟩

theorem loop_innermost_rows : ∃ a trail c e here v, ∃ r outer : Round,
    (rowsPlan.assemble rowsPage).run {} = (.ok a, trail) ∧
      Inside plainSetting [] a.code (World.start ⟨[], []⟩ #[]) [r, outer] c here ∧
      Evaluates plainSetting c here e here ∧ e.usesLoop ∧
      (plainSetting.variableOf "loop").run here = (.ok v, here) ∧
      Tells plainSetting here v [r, outer] := by
  have checked : ((rowsPlan.assemble rowsPage).run {}).1.toOption.map (fun a =>
      (Code.sparesAll a.code,
        (firstUseOf? plainSetting [] (World.start ⟨[], []⟩ #[]) a.code).map List.length)) =
      some (true, some 2) := by decide +kernel
  cases assembled : (rowsPlan.assemble rowsPage).run {} with
  | mk result trail =>
      rw [assembled] at checked
      cases result with
      | error fault => cases checked
      | ok a =>
          obtain ⟨spares, length⟩ := Prod.mk.inj (Option.some.inj checked)
          obtain ⟨rounds, found, two⟩ := Option.map_eq_some_iff.mp length
          obtain ⟨r, outer, rfl⟩ : ∃ r outer, rounds = [r, outer] :=
            match rounds, two with
            | [r, outer], _ => ⟨r, outer, rfl⟩
          obtain ⟨c, e, here, inside, evaluates, uses⟩ := inside_of_firstUseOf? a.code found
          obtain ⟨unbound, unset, unasked⟩ := undisturbed_of_spares (s := plainSetting)
            (w := World.start ⟨[], []⟩ #[]) (fun _ _ _ => rfl) spares
          obtain ⟨v, isLoop, tells⟩ :=
            loop_innermost assembled unbound unset unasked inside evaluates uses
          exact ⟨a, trail, c, e, here, v, r, outer, rfl, inside, evaluates, uses, isLoop, tells⟩

end Stencil
