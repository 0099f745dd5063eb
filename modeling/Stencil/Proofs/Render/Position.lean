import Stencil.Proofs.Render.Innermost
import Stencil.Proofs.Render.Journey

/-!
The position of a loop. Each round begins at its own item, whatever the rounds before it have done.
Inside of the round the metadata moves only if the loop itself is gone through or searched, and
loops inside of it lead to it by their parents.
-/

namespace Stencil

open Eval
open Code (Unused TracksAll)

/-- Whether no loop of one world is lost or replaced in another one; it may have moved. -/
structure World.KeepsLoops (w u : World) : Prop where
  kept : ∀ (id : Nat) (l : LoopState), w.loops[id]? = some l →
    ∃ index, u.loops[id]? = some { l with index }

namespace World.KeepsLoops

variable {w u : World}

theorem of_same (same : u.loops = w.loops) : w.KeepsLoops u where
  kept id l found := ⟨l.index, by rw [same, found]⟩

theorem journey (lines : List Nat) : World.Journey lines World.KeepsLoops where
  refl _ := .of_same rfl
  trans first second := ⟨fun id l found => by
    obtain ⟨index, between⟩ := first.kept id l found
    exact second.kept id { l with index } between⟩
  notes _ _ := .of_same rfl
  generators _ _ := .of_same rfl
  moves w moved i := ⟨fun id l found => by
    rw [moveLoop_loops, Array.getElem?_modify, found]
    split
    · exact ⟨i, rfl⟩
    · exact ⟨l.index, rfl⟩⟩
  report _ _ _ := .of_same rfl
  loud stays := ⟨stays.kept⟩
  mark _ _ _ := .of_same rfl
  locals _ _ := .of_same rfl
  context _ _ := .of_same rfl
  enter w l := ⟨fun id l' found => by
    have older : id < w.loops.size := (Array.getElem?_eq_some_iff.mp found).1
    refine ⟨l'.index, ?_⟩
    dsimp only
    rw [Array.getElem?_push_lt older, ← Array.getElem?_eq_getElem older, found]⟩

end World.KeepsLoops

variable {s : Setting} {c : Code} {code part : List Code} {w u here : World}

theorem Enters.keepsLoops (enters : Enters s c w part u) : w.KeepsLoops u :=
  (enters.follows (World.KeepsLoops.journey c.marks) (List.Subset.refl _)).1

/-! A loop that is not asked for its items does not move. -/

section Unasked

variable {id : Nat} {l : LoopState}

theorem covers_of_unasked (unasked : ¬ AsksAll s code w id) :
    Covers s (fun _ _ => True) (· ≠ id) code w where
  assigns _ _ _ := trivial
  asks _ isAsked same := unasked (same ▸ isAsked)

theorem World.above_of_state (state : w.loops[id]? = some l) : w.Above 0 (id + 1) :=
  ⟨Nat.zero_le _, (Array.getElem?_eq_some_iff.mp state).1⟩

theorem World.Scoped.keepsState
    (step : w.Scoped (fun _ _ => True) (· ≠ id) 0 (id + 1) u) (state : w.loops[id]? = some l) :
    u.loops[id]? = some l :=
  (step.state (Nat.lt_succ_self id)).trans state

theorem atItem_state {target : Target} {entered : Option Nat} {item : Value} {index : Nat}
    (other : ∀ moved ∈ entered, id ≠ moved)
    (run : (atItem target entered item index).run w = (.ok (), u)) :
    u.loops[id]? = w.loops[id]? := by
  cases run
  dsimp only
  rw [bindTarget_loops]
  cases entered with
  | none => rfl
  | some moved =>
      rw [World.moveLoop_loops, Array.getElem?_modify, if_neg (other moved rfl).symm]

theorem Enters.state (enters : Enters s c w part u)
    (covers : Covers s (fun _ _ => True) (· ≠ id) [c] w) (state : w.loops[id]? = some l) :
    u.loops[id]? = some l := by
  cases c with
  | loop target tracked items body empty =>
      cases enters with
      | empty evaluated listed =>
          have evaluating := (evaluate_scoped _ _ covers .items evaluated).keepsState state
          exact (loopItems_scoped covers evaluated listed).keepsState evaluating
      | @item _ _ _ _ _ v found entered before after e _ _ _ u' start _ _ evaluated listed started
          split repeated bound =>
          have entering := started
          rw [enterLoop_run] at started
          cases started
          have evaluating := (evaluate_scoped _ _ covers .items evaluated).keepsState state
          have listing := (loopItems_scoped covers evaluated listed).keepsState evaluating
          have older : id < u'.loops.size := (World.above_of_state listing).many
          -- The rounds move only the loop that they belong to, which is newer than the given one.
          have other : ∀ moved ∈ u'.loopId? tracked, id ≠ moved := fun moved isMoved =>
            Nat.ne_of_lt (World.loopId?_new (World.above_of_state listing) tracked moved isMoved)
          refine round_invariant (Q := fun _ m => m.loops[id]? = some l) empty evaluated listed
            entering split repeated bound ⟨0, ?_⟩ ?_ ?_
          · exact (World.inLoop_loops target tracked found older).trans listing
          · intro i item j m m' between run
            exact (atItem_state other run).trans between
          · intro j there parts m atCurrent enters carriedOut
            exact ⟨j, (executeAll_keepsTo _ _ _ _ carriedOut (covers.entered enters)
              (World.above_of_state atCurrent)).keepsState atCurrent⟩
  | _ => exact (enters.scoped nofun covers (World.above_of_state state)).keepsState state

theorem Reaches.state (reaches : Reaches s code w c here)
    (covers : Covers s (fun _ _ => True) (· ≠ id) code w) (state : w.loops[id]? = some l) :
    Covers s (fun _ _ => True) (· ≠ id) [c] here ∧ here.loops[id]? = some l := by
  induction reaches with
  | first => exact ⟨covers.head, state⟩
  | further run _ ih =>
      have carriedOut := execute_keepsTo _ _ _ _ run covers.head (World.above_of_state state)
      exact ih (covers.tail run) (carriedOut.keepsState state)
  | within enters _ ih =>
      exact ih (covers.head.entered enters) (enters.state covers.head state)

end Unasked

/-! Code in which `loop` is only the name of loops, whoever asks them for their items. -/

/-- Whether nothing that code comes to binds or assigns `loop`. -/
structure LeavesName (s : Setting) (code : List Code) (w : World) : Prop where
  covers : Covers s (fun name _ => name ≠ "loop") (fun _ => True) code w
  targets : ∀ target tracked items body empty here,
    Reaches s code w (.loop target tracked items body empty) here → "loop" ∉ target.names

namespace LeavesName

theorem of_reaches {first second : List Code} (leaves : LeavesName s first w)
    (reaches : ∀ d here, Reaches s second u d here → Reaches s first w d here) :
    LeavesName s second u where
  covers := leaves.covers.of_reaches reaches
  targets _ _ _ _ _ _ reached := leaves.targets _ _ _ _ _ _ (reaches _ _ reached)

theorem head {rest : List Code} (leaves : LeavesName s (c :: rest) w) : LeavesName s [c] w :=
  leaves.of_reaches fun _ _ reached => reached.of_head rest

theorem tail {rest : List Code} {written : List Fragment} (leaves : LeavesName s (c :: rest) w)
    (run : (execute s c).run w = (.ok written, u)) : LeavesName s rest u :=
  leaves.of_reaches fun _ _ reached => .further run reached

theorem entered (leaves : LeavesName s [c] w) (enters : Enters s c w part u) :
    LeavesName s part u :=
  leaves.of_reaches fun _ _ reached => .within enters reached

theorem listed {target : Target} {tracked : Bool} {items : Expr} {body empty : List Code}
    {v : Value} {found : List Value} {u' : World}
    (leaves : LeavesName s [.loop target tracked items body empty] w)
    (evaluated : (evaluate s items).run w = (.ok v, u))
    (listed : (v.loopItems target.isPair).run u = (.ok found, u')) :
    u'.locals.lookup "loop" = w.locals.lookup "loop" := by
  have evaluating := (evaluate_scoped _ w.loops.size leaves.covers .items evaluated).lookup_loop
  have listing : u.Scoped _ _ u.locals.length u.loops.size u' :=
    loopItems_scoped leaves.covers evaluated listed
  exact listing.lookup_loop.trans evaluating

end LeavesName

theorem inRound_of_started {target : Target} {items : Expr} {body empty : List Code}
    {v : Value} {found : List Value} {entered : Option Nat × Nat}
    {before after : List (Value × Nat)} {e : Value × Nat} {written : List Fragment}
    {u' start middle : World} (leaves : LeavesName s [.loop target true items body empty] w)
    (evaluated : (evaluate s items).run w = (.ok v, u))
    (listed : (v.loopItems target.isPair).run u = (.ok found, u'))
    (started : (enterLoop target true found).run u' = (.ok entered, start))
    (split : found.zipIdx = before ++ e :: after)
    (repeated : (forEach (loopStep s target entered.1 body) before []).run start =
      (.ok written, middle))
    (bound : (atItem target entered.1 e.1 e.2).run middle = (.ok (), here)) :
    InRound here u'.loops.size ⟨found, e.2, u'.loopValue⟩ here := by
  have other := leaves.targets _ _ _ _ _ _ .first
  have entering := started
  rw [enterLoop_run] at started
  cases started
  refine round_invariant (Q := fun i m => InRound m u'.loops.size ⟨found, i, u'.loopValue⟩ m)
    empty evaluated listed entering split repeated bound ⟨0, ?_⟩ ?_ ?_
  · have inLoop : InRound u' _ _ (u'.inLoop target true found) := .inLoop found u' other
    exact ⟨inLoop.isLoop, inLoop.state, fun _ _ => rfl⟩
  · intro i item j m m' inRound run
    have atItem := inRound.atItem other run
    exact ⟨atItem.isLoop, atItem.state, fun _ _ => rfl⟩
  · intro j there parts m inRound enters carriedOut
    -- The body may have asked this very loop, so that its index is whatever that has left.
    have covered := leaves.covers.entered enters
    have named := (executeAll_keepsTo _ _ _ _ carriedOut covered there.above_self).lookup_loop
    have journey := World.KeepsLoops.journey (Code.marksAll body)
    have keeps := (executeAll_follows journey body (List.Subset.refl _)).after carriedOut
    obtain ⟨index, state⟩ := keeps.kept _ _ inRound.state
    exact ⟨index, named.trans inRound.isLoop, state, fun _ _ => rfl⟩

/-! The way from the loops inside up to a loop. -/

/-- Whether a value is the metadata of a loop, or leads to it by so many parents. -/
def LeadsTo (w : World) (id : Nat) : Nat → Value → Prop
  | 0, v => v = .loop id
  | up + 1, v => ∃ inner l, v = .loop inner ∧ w.loops[inner]? = some l ∧ LeadsTo w id up l.parent

theorem LeadsTo.of_keeps {id up : Nat} {v : Value} (leads : LeadsTo w id up v)
    (keeps : w.KeepsLoops u) : LeadsTo u id up v := by
  induction up generalizing v with
  | zero => exact leads
  | succ up ih =>
      obtain ⟨inner, l, isLoop, state, further⟩ := leads
      obtain ⟨index, kept⟩ := keeps.kept inner l state
      exact ⟨inner, { l with index }, isLoop, kept, ih further⟩

/-- Whether `loop` leads to a given loop, by as many parents as there are rounds, where it is
used. -/
def Leads (id : Nat) (rounds : List Round) (code : List Code) (w : World) : Prop :=
  ¬ Unused code → LeadsTo w id rounds.length w.loopValue

theorem Leads.after {id : Nat} {rounds : List Round} {first second : List Code}
    (leads : Leads id rounds first w) (less : Unused first → Unused second)
    (keeps : w.KeepsLoops u) (same : u.locals.lookup "loop" = w.locals.lookup "loop") :
    Leads id rounds second u := by
  intro used
  rw [World.loopValue_eq same]
  exact (leads fun unused => used (less unused)).of_keeps keeps

theorem EntersIn.leads {id : Nat} {around rounds : List Round}
    (entersIn : EntersIn s around c w rounds part u) (tracks : c.Tracks)
    (leaves : LeavesName s [c] w) (leads : Leads id around [c] w) : Leads id rounds part u := by
  have keeps := entersIn.enters.keepsLoops
  have less : Unused [c] → Unused part := fun unused =>
    entersIn.enters.unused (Code.unused_singleton.mp unused)
  cases entersIn with
  | plain plain enters =>
      exact leads.after less keeps (enters.scoped plain leaves.covers w.above_self).lookup_loop
  | empty evaluated listed => exact leads.after less keeps (leaves.listed evaluated listed)
  | @item _ _ _ _ _ _ _ _ _ _ _ _ _ _ u' _ _ _ evaluated listed started split repeated bound =>
      intro used
      have isTracked := eq_true_of_ne_false fun untracked => used (tracks.1 untracked)
      subst isTracked
      have inRound := inRound_of_started leaves evaluated listed started split repeated bound
      have around := (leads fun unused => used (less unused)).of_keeps keeps
      rw [← World.loopValue_eq (leaves.listed evaluated listed)] at around
      exact ⟨_, _, inRound.loopValue, inRound.state, around⟩

theorem Inside.leads {id : Nat} {around rounds : List Round}
    (inside : Inside s around code w rounds c here) (tracks : TracksAll code)
    (leaves : LeavesName s code w) (leads : Leads id around code w) :
    LeavesName s [c] here ∧ Leads id rounds [c] here := by
  induction inside with
  | first =>
      refine ⟨leaves.head, fun used => leads fun unused => used ?_⟩
      exact (Code.unused_cons.mp unused).1
  | @further _ _ c _ rest _ w _ _ run _ ih =>
      have keeps := (execute_follows (World.KeepsLoops.journey c.marks) c
        (List.Subset.refl _)).after run
      have named := (execute_keepsTo _ _ _ _ run leaves.covers.head w.above_self).lookup_loop
      exact ih tracks.2 (leaves.tail run)
        (leads.after (fun unused => (Code.unused_cons.mp unused).2) keeps named)
  | within entersIn _ ih =>
      have head : Leads id _ [_] _ := fun used => leads fun unused =>
        used (Code.unused_cons.mp unused).1
      exact ih (entersIn.enters.tracks tracks.1) (leaves.head.entered entersIn.enters)
        (entersIn.leads tracks.1 leaves.head head)

/-- The metadata of the loop that is so many loops further out, as a template writes it. -/
def Expr.loopUp (pos : Pos) : Nat → Expr
  | 0 => .name pos "loop"
  | up + 1 => .attr pos (loopUp pos up) "parent"

theorem LeadsTo.last {id up : Nat} {v : Value} (leads : LeadsTo w id (up + 1) v) :
    ∃ inner l, LeadsTo w inner up v ∧ w.loops[inner]? = some l ∧ l.parent = .loop id := by
  induction up generalizing v with
  | zero =>
      obtain ⟨inner, l, isLoop, state, further⟩ := leads
      exact ⟨inner, l, isLoop, state, further⟩
  | succ up ih =>
      obtain ⟨outer, l, isLoop, state, further⟩ := leads
      obtain ⟨inner, l', deeper, state', isParent⟩ := ih further
      exact ⟨inner, l', ⟨outer, l, isLoop, state, deeper⟩, state', isParent⟩

theorem LeadsTo.evaluate {id up : Nat} (leads : LeadsTo w id up w.loopValue) (pos : Pos) :
    (evaluate s (.loopUp pos up)).run w = (.ok (.loop id), w) := by
  induction up generalizing id with
  | zero =>
      have isLoop : w.loopValue = .loop id := leads
      rw [Expr.loopUp, Stencil.evaluate, variableOf_loop (by rw [isLoop]; nofun), isLoop]
  | succ up ih =>
      obtain ⟨inner, l, deeper, state, isParent⟩ := leads.last
      rw [Expr.loopUp, Stencil.evaluate, Step.run_bind, ih deeper]
      exact Setting.access_loop state (congrArg some isParent)

theorem Reaches.tracks (reaches : Reaches s code w c here) (tracks : TracksAll code) :
    c.Tracks := by
  induction reaches with
  | first => exact tracks.1
  | further _ _ ih => exact ih tracks.2
  | within enters _ ih => exact ih (enters.tracks tracks.1)

theorem Reaches.unused (reaches : Reaches s code w c here) (unused : Unused code) : Unused [c] := by
  induction reaches with
  | first => exact (Code.unused_cons.mp unused).1
  | further _ _ ih => exact ih (Code.unused_cons.mp unused).2
  | within enters _ ih =>
      exact ih (enters.unused (Code.unused_singleton.mp (Code.unused_cons.mp unused).1))

theorem Evaluates.used {e : Expr} (evaluates : Evaluates s c here e u) (uses : e.usesLoop) :
    ¬ Unused [c] := by
  intro unused
  rw [evaluates.unused (Code.unused_singleton.mp unused)] at uses
  cases uses

theorem evaluate_index {id up : Nat} {l : LoopState} (leads : LeadsTo w id up w.loopValue)
    (state : w.loops[id]? = some l) (pos : Pos) :
    (evaluate s (.attr pos (.loopUp pos up) "index")).run w = (.ok (.int (l.index + 1)), w) := by
  rw [evaluate, Step.run_bind, leads.evaluate]
  exact Setting.access_loop state rfl

/-- In each of its rounds a loop tells the number of the round at the beginning. It goes on to tell
it, and loops inside tell it through their parents, as long as nothing in the round has gone through
the loop itself or searched it, no function of the host either. -/
theorem loop_index {p : Plan} {source : Source} {a : Assembled} {trail : Trail}
    (assembled : (p.assemble source).run {} = (.ok a, trail)) {context : Context}
    {generators : Array (List Value)} {target : Target} {tracked : Bool} {items : Expr}
    {body empty : List Code} {start : World} {r : Round}
    (reached : Reaches s a.code (World.start context generators)
      (.loop target tracked items body empty) w)
    (entered : EntersIn s [] (.loop target tracked items body empty) w [r] body start)
    (unbound : ∀ target' tracked' items' body' empty' here,
      Reaches s [.loop target tracked items body empty] w
        (.loop target' tracked' items' body' empty') here → "loop" ∉ target'.names)
    (unset : ∀ here, ¬ Assigns s [.loop target tracked items body empty] w "loop" here)
    (pos : Pos) :
    (tracked = true → (evaluate s (.attr pos (.loopUp pos 0) "index")).run start =
      (.ok (.int (r.index + 1)), start)) ∧
    ∀ first rest, body = first ++ rest →
      (∀ id, start.loopValue = .loop id → ¬ AsksAll s first start id) →
      ∀ inner c here e u, Inside s [] first start inner c here → Evaluates s c here e u →
        e.usesLoop → (evaluate s (.attr pos (.loopUp pos inner.length) "index")).run u =
          (.ok (.int (r.index + 1)), u) := by
  have tracks := reached.tracks (Plan.tracks_of_assemble assembled)
  have enters := entered.enters
  have leaves : LeavesName s [.loop target tracked items body empty] w :=
    ⟨⟨fun name here assigns same => unset here (same ▸ assigns), fun _ _ => trivial⟩, unbound⟩
  cases entered with
  | @item _ _ _ _ _ _ _ _ _ _ _ _ _ _ u' _ _ _ evaluated listed started split repeated bound =>
      cases tracked with
      | false =>
          -- The body of a loop without metadata uses `loop` nowhere.
          refine ⟨nofun, fun first rest whole _ inner c here e u inside evaluates uses => ?_⟩
          have unused := tracks.1 rfl
          rw [whole, Code.unused_append] at unused
          exact (evaluates.used uses (inside.reaches.unused unused.1)).elim
      | true =>
          have inRound := inRound_of_started leaves evaluated listed started split repeated bound
          have leadsAtStart : LeadsTo start u'.loops.size 0 start.loopValue := inRound.loopValue
          refine ⟨fun _ => evaluate_index leadsAtStart inRound.state pos, ?_⟩
          intro first rest whole unasked inner c here e u inside evaluates uses
          have inBody := leaves.entered enters
          have tracksBody := enters.tracks tracks
          rw [whole] at inBody tracksBody
          obtain ⟨single, leads⟩ := inside.leads (Code.tracksAll_append.mp tracksBody).1
            (inBody.of_reaches fun _ _ reached => reached.append rest) fun _ => leadsAtStart
          have covers := covers_of_unasked (unasked _ inRound.loopValue)
          obtain ⟨spared, state⟩ := inside.reaches.state covers inRound.state
          have named := (evaluates.scoped single.covers here.above_self).lookup_loop
          have keeps := evaluates.follows (World.KeepsLoops.journey _) (List.Subset.refl _)
          have leadsThere := (leads (evaluates.used uses)).of_keeps keeps
          rw [← World.loopValue_eq named] at leadsThere
          have there := evaluates.scoped spared (World.above_of_state state)
          exact evaluate_index leadsThere (there.keepsState state) pos

/-! The page of rows, and a page that searches the loop before it tells the position. -/

def Code.isLoop : Code → Bool
  | .loop _ _ _ _ _ => true
  | _ => false

theorem loop_index_rows : ∃ a trail target tracked items body empty w start, ∃ r inner : Round,
    ∃ c e here,
      (rowsPlan.assemble rowsPage).run {} = (.ok a, trail) ∧
      Reaches plainSetting a.code (World.start ⟨[], []⟩ #[])
        (.loop target tracked items body empty) w ∧
      EntersIn plainSetting [] (.loop target tracked items body empty) w [r] body start ∧
      Inside plainSetting [] body start [inner] c here ∧ Evaluates plainSetting c here e here ∧
      e.usesLoop ∧
      (evaluate plainSetting (.attr ⟨1, 1⟩ (.loopUp ⟨1, 1⟩ 1) "index")).run here =
        (.ok (.int (r.index + 1)), here) := by
  obtain ⟨a, ran, spares, isRow⟩ := Except.exists_of_any
    (x := ((rowsPlan.assemble rowsPage).run {}).1)
    (P := fun a => Code.sparesAll a.code ∧
      (firstLoop? plainSetting Code.isLoop (World.start ⟨[], []⟩ #[]) a.code).any fun first =>
        (firstUseOf? plainSetting [] first.2.2 first.1).any (·.length == 1))
    (by decide +kernel)
  have assembled : (rowsPlan.assemble rowsPage).run {} = (.ok a, _) := Prod.ext ran rfl
  obtain ⟨⟨body, found, start⟩, isFirst, isUse⟩ := (Option.any_eq_true _ _).mp isRow
  obtain ⟨rounds, use, single⟩ := (Option.any_eq_true _ _).mp isUse
  obtain ⟨inner, rfl⟩ := List.length_eq_one_iff.mp (beq_iff_eq.mp single)
  obtain ⟨target, tracked, items, empty, w, _, reached, entered⟩ := entersIn_of_firstLoop? isFirst
  obtain ⟨c, e, here, inside, evaluates, uses⟩ := inside_of_firstUseOf? body use
  have sparesLoop := reached.spares spares
  have sparesSingle : Code.sparesAll [.loop target tracked items body empty] := by
    rw [Code.sparesAll, sparesLoop]
    rfl
  have idle : plainSetting.host.MovesNothing := fun _ _ _ => rfl
  obtain ⟨unbound, unset, _⟩ := undisturbed_of_spares (w := w) idle sparesSingle
  obtain ⟨_, _, unasked⟩ := undisturbed_of_spares (w := start) idle
    (entered.enters.spares sparesLoop)
  obtain ⟨_, along⟩ := loop_index assembled reached entered unbound unset ⟨1, 1⟩
  have told := along body [] (List.append_nil body).symm (fun id _ => unasked id) [inner] c here e
    here inside evaluates uses
  exact ⟨a, _, target, tracked, items, body, empty, w, start, _, inner, c, e, here, assembled,
    reached, entered, inside, evaluates, uses, told⟩

def searchedPage : Source where
  text := "\x7b% for x in 7..8 %\x7d\x7b% set seen = 9 in loop %\x7d\x7b\x7b loop.index \x7d\x7d" ++
    "\x7b% endfor %\x7d"
  name := none
  filename := none

namespace Code

/-- Whether a statement has no body and does not set `loop`. -/
def isSimple : Code → Bool
  | .text _ | .mark _ | .output _ _ | .debug _ _ => true
  | .set name _ => name != "loop"
  | .branch _ _ _ _ | .loop _ _ _ _ _ | .while _ _ | .spaceless _ => false

/-- Whether a statement is a loop of simple statements that does not bind `loop`. -/
def isSimpleLoop : Code → Bool
  | .loop target _ _ body [] => !target.names.contains "loop" && body.all isSimple
  | _ => false

/-- Whether a statement writes a value that `loop` is used for. -/
def tellsLoop : Code → Bool
  | .output value _ => value.usesLoop
  | _ => false

theorem bodies_of_isSimple (simple : c.isSimple) : c.bodies = [] := by
  cases c with
  | text | mark | output | debug | set => rfl
  | branch | loop | «while» | spaceless => cases simple

end Code

theorem leavesName_of_isSimpleLoop (simple : c.isSimpleLoop) :
    (∀ target tracked items body empty here,
      Reaches s [c] w (.loop target tracked items body empty) here → "loop" ∉ target.names) ∧
    ∀ here, ¬ Assigns s [c] w "loop" here := by
  unfold Code.isSimpleLoop at simple
  split at simple
  · next target tracked items body =>
      simp only [Bool.and_eq_true, Bool.not_eq_true', List.contains_eq_mem, decide_eq_false_iff_not,
        List.all_eq_true] at simple
      obtain ⟨other, simple⟩ := simple
      have closed : ∀ d ∈ .loop target tracked items body [] :: body, ∀ part ∈ d.bodies,
          part ⊆ .loop target tracked items body [] :: body := by
        intro d member part isBody
        rcases List.mem_cons.mp member with rfl | inBody
        · rcases List.mem_cons.mp isBody with rfl | isEmpty
          · exact List.subset_cons_self _ _
          · rw [List.mem_singleton.mp isEmpty]
            exact List.nil_subset _
        · rw [Code.bodies_of_isSimple (simple d inBody)] at isBody
          cases isBody
      refine ⟨?_, ?_⟩
      · intro target' tracked' items' body' empty' here reached
        rcases List.mem_cons.mp (reached.mem closed (by simp)) with isLoop | inBody
        · cases isLoop
          exact other
        · cases simple _ inBody
      · intro here assigns
        obtain ⟨value, reached⟩ := assigns
        rcases List.mem_cons.mp (reached.mem closed (by simp)) with isLoop | inBody
        · cases isLoop
        · cases simple _ inBody
  · cases simple

theorem searched_loop_moves : ¬ ∀ (p : Plan) (source : Source) (a : Assembled) (trail : Trail)
    (s : Setting) (context : Context) (generators : Array (List Value)) (target : Target)
    (tracked : Bool) (items : Expr) (body empty : List Code) (w start : World) (r : Round)
    (pos : Pos), (p.assemble source).run {} = (.ok a, trail) →
      Reaches s a.code (World.start context generators) (.loop target tracked items body empty) w →
      EntersIn s [] (.loop target tracked items body empty) w [r] body start →
      (∀ target' tracked' items' body' empty' here,
        Reaches s [.loop target tracked items body empty] w
          (.loop target' tracked' items' body' empty') here → "loop" ∉ target'.names) →
      (∀ here, ¬ Assigns s [.loop target tracked items body empty] w "loop" here) →
      ∀ inner c here e u, Inside s [] body start inner c here → Evaluates s c here e u →
        e.usesLoop → (evaluate s (.attr pos (.loopUp pos inner.length) "index")).run u =
          (.ok (.int (r.index + 1)), u) := by
  intro undisturbed
  obtain ⟨a, ran, isSecond⟩ := Except.exists_of_any
    (x := ((rowsPlan.assemble searchedPage).run {}).1)
    (P := fun a =>
      (firstLoop? plainSetting Code.isSimpleLoop (World.start ⟨[], []⟩ #[]) a.code).any fun first =>
        (firstThat? plainSetting Code.tellsLoop first.2.2 first.1).any fun use =>
          ((evaluate plainSetting (.attr ⟨1, 1⟩ (.loopUp ⟨1, 1⟩ 0) "index")).run
            use.2).1.toOption.bind Value.int? = some 2)
    (by decide +kernel)
  obtain ⟨⟨body, found, start⟩, isFirst, isTold⟩ := (Option.any_eq_true _ _).mp isSecond
  obtain ⟨⟨c, here⟩, isUse, isTwo⟩ := (Option.any_eq_true _ _).mp isTold
  obtain ⟨target, tracked, items, empty, w, simple, reached, entered⟩ :=
    entersIn_of_firstLoop? isFirst
  obtain ⟨tells, inside⟩ : c.tellsLoop ∧ Inside plainSetting [] body start [] c here :=
    inside_of_firstThat? isUse
  obtain ⟨unbound, unset⟩ := leavesName_of_isSimpleLoop simple
  cases c with
  | output value escape =>
      have isOne := undisturbed _ _ a _ _ _ _ _ _ _ _ _ _ _ _ ⟨1, 1⟩ (Prod.ext ran rfl) reached
        entered unbound unset [] _ _ _ _ inside .output tells
      dsimp only at isTwo
      rw [List.length_nil] at isOne
      rw [isOne] at isTwo
      cases isTwo
  | _ => cases tells

end Stencil
