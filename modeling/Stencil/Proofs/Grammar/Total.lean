import Stencil.Proofs.Grammar.Progress
import Stencil.Proofs.Grammar.RoundTrip
import Stencil.Proofs.Token.Extent
import Stencil.Stmt.Source

/-!
Reading a source always ends: in a template or in one error, which names a place of the source, or
for lack of room for the calls of the reader.
-/

namespace Stencil

namespace Grammar

namespace Parse

open Reader (Settled)

variable {α β : Type} {known : Token → Prop} {least : α → Nat} {need : β → Nat} {t : Token}

def Settles (known : Token → Prop) (least : α → Nat) (r : Parse α) : Prop :=
  ∀ parent bound, Reader.Settles known bound (fun a => least a.1) (r parent)

def SettlesBefore (t : Token) (known : Token → Prop) (least : α → Nat) (r : Parse α) : Prop :=
  ∀ parent bound, Reader.SettlesBefore t known bound (fun a => least a.1) (r parent)

theorem settles_bind (least : α → Nat) (need : β → Nat) {r : Parse α} {f : α → Parse β}
    {parent : Option Parent} {bound : Nat}
    (hr : Reader.Settles known bound (fun a => least a.1) (r parent))
    (hf : ∀ a between,
      Reader.Settles known (bound - least a) (fun b => need b.1 - least a) (f a between)) :
    Reader.Settles known bound (fun b => need b.1) ((r >>= f) parent) :=
  hr.bind fun a => hf a.1 a.2

theorem Settles.bind {r : Parse α} {f : α → Parse β} (hr : Settles known least r)
    (hf : ∀ a, Settles known (fun b => need b - least a) (f a)) : Settles known need (r >>= f) :=
  fun parent bound => settles_bind least need (hr parent bound) fun a between => hf a between _

theorem Settles.weaken {r : Parse α} (hr : Settles known least r) : Settles known (fun _ => 0) r :=
  fun parent bound => (hr parent bound).weaken (Nat.le_refl bound)

theorem Settles.pure {a : α} (nothing : least a = 0) : Settles known least (Pure.pure a) :=
  fun _ _ => .pure nothing

theorem Settles.read {r : Reader α} (hr : ∀ bound, Reader.Settles known bound least r) :
    Settles known least (Parse.read r) := by
  intro parent bound ts all short
  have settled := hr bound ts all short
  change Settled known _ ts (Parse.read r parent ts)
  change Settled known least ts (r ts) at settled
  unfold Parse.read
  generalize r ts = read at settled ⊢
  rcases read with fault | ⟨a, rest⟩
  · exact settled
  · exact settled

theorem Settles.fail {cause : GrammarCause} (moves : cause ≠ .stuck) :
    Settles known least (Parse.fail cause) := .read fun _ => .fail moves

theorem Settles.failAt {cause : GrammarCause} (moves : cause ≠ .stuck) (isKnown : known t) :
    Settles known least (Parse.failAt t cause) := .read fun _ => .failAt moves isKnown

theorem Settles.before {r : Parse α} (hr : Settles known least r) :
    SettlesBefore t known least r := fun parent bound => (hr parent bound).before

theorem Settles.peek {f : Option Token → Parse β} (atEnd : Settles known need (f none))
    (ahead : ∀ t, known t → SettlesBefore t known need (f (some t))) :
    Settles known need (Parse.read Reader.peek >>= f) :=
  fun parent bound => Reader.Settles.peek (f := fun t => f t parent) (atEnd parent bound)
    fun t isKnown => ahead t isKnown parent bound

theorem SettlesBefore.peekNext {f : Option Token → Parse β}
    (atEnd : SettlesBefore t known need (f none))
    (ahead : ∀ next, known next → SettlesBefore t known need (f (some next))) :
    SettlesBefore t known need (Parse.read Reader.peekNext >>= f) :=
  fun parent bound => Reader.SettlesBefore.peekNext (f := fun t => f t parent)
    (atEnd parent bound) fun next isKnown => ahead next isKnown parent bound

theorem SettlesBefore.skip {f : Unit → Parse β}
    (next : Settles known (fun b => need b - 1) (f ())) :
    SettlesBefore t known need (Parse.read Reader.skip >>= f) :=
  fun parent bound => Reader.SettlesBefore.skip (f := fun u => f u parent)
    (next parent (bound - 1))

theorem Settles.getParent : Settles known (fun _ => 0) (MonadState.get : Parse (Option Parent)) :=
  fun _ _ => .pure rfl

theorem Settles.setParent (parent : Option Parent) :
    Settles known (fun _ => 0) (MonadStateOf.set parent : Parse PUnit) := fun _ _ => .pure rfl

theorem Settles.manyWithin {r : Parse (Option α)} {rounds bound : Nat}
    (hr : Settles known (fun found => found.isSome.toNat) r) (enough : bound ≤ rounds)
    (parent : Option Parent) :
    Reader.Settles known bound (fun _ => 0) (Parse.manyWithin rounds r parent) := by
  induction rounds generalizing bound parent with
  | zero =>
      intro ts _ short
      omega
  | succ rounds ih =>
      refine settles_bind (fun found => found.isSome.toNat) (fun _ => 0) (hr parent bound) ?_
      intro found between
      cases found with
      | none => exact .pure rfl
      | some a =>
          have more := ih (show bound - 1 ≤ rounds by omega) between
          exact settles_bind (fun _ => 0) (fun _ => 0) more fun _ _ => .pure rfl

theorem Settles.many {r : Parse (Option α)}
    (hr : Settles known (fun found => found.isSome.toNat) r) :
    Settles known (fun _ => 0) (Parse.many r) :=
  fun parent _ ts all _ =>
    hr.manyWithin (Nat.le_refl (ts.length + 1)) parent ts all (Nat.lt_succ_self _)

end Parse

open Parse

section Blocks

variable {known : Token → Prop} {body : Parse (List Stmt)}

theorem guarded_settles (hbody : Settles known (fun _ => 0) body) :
    Settles known (fun _ => 1) (guarded body) :=
  (Settles.read fun _ => expr_settles).bind fun _ =>
    (Settles.read fun _ => expectClosing_settles).bind fun _ => hbody.bind fun _ => .pure rfl

theorem closing_settles {α : Type} {r : Parse α} (hr : Settles known (fun _ => 0) r) :
    Settles known (fun _ => 0) (Parse.read expectClosing >>= fun _ => r) :=
  (Settles.read fun _ => expectClosing_settles).bind fun _ => hr

theorem ended_settles (kind : BlockKind) (line : Nat) {α : Type} (a : α) :
    Settles known (fun _ => 0) (Parse.read (endTag kind line) >>= fun _ => pure a) :=
  (Settles.read fun _ => endTag_settles kind line).bind fun _ => .pure rfl

theorem continued_settles (keywords : List String) (hbody : Settles known (fun _ => 0) body) :
    Settles known (fun _ => 0) (continued keywords body) := by
  refine (Settles.read fun _ => atKeyword_settles _).bind fun found => ?_
  split
  · exact (Settles.read fun _ => skipKeyword_settles).bind fun _ => closing_settles hbody
  · exact .pure rfl

theorem branchBlock_settles (keyword : Token) (hbody : Settles known (fun _ => 0) body) :
    Settles known (fun _ => 0) (branchBlock keyword body) := by
  have further : Settles known (fun found => found.isSome.toNat)
      (Parse.read (atKeyword ["elseif", "elif"]) >>= fun found =>
        if found = true then Parse.read skipKeyword >>= fun _ => guarded body >>= fun g =>
          pure (some g) else pure none) := by
    refine (Settles.read fun _ => atKeyword_settles _).bind fun found => ?_
    split
    · refine (Settles.read fun _ => skipKeyword_settles).bind fun _ => ?_
      exact (guarded_settles hbody).bind fun _ => .pure rfl
    · exact .pure rfl
  exact (guarded_settles hbody).weaken.bind fun first => further.many.bind fun others =>
    (continued_settles _ hbody).bind fun otherwise => ended_settles _ _ _

theorem loopBlock_settles (keyword : Token) (hbody : Settles known (fun _ => 0) body) :
    Settles known (fun _ => 0) (loopBlock keyword body) := by
  refine (Settles.read fun _ => loopTarget_settles).bind fun target => ?_
  refine (Settles.read fun _ => .accepts _).bind fun found => ?_
  cases found with
  | none => exact .fail nofun
  | some _ =>
      refine (Settles.read fun _ => expr_settles).bind fun items => ?_
      refine closing_settles (hbody.bind fun each => ?_)
      exact (continued_settles _ hbody).bind fun empty => ended_settles _ _ _

theorem whileBlock_settles (keyword : Token) (hbody : Settles known (fun _ => 0) body) :
    Settles known (fun _ => 0) (whileBlock keyword body) :=
  (guarded_settles hbody).weaken.bind fun _ => ended_settles _ _ _

theorem namedBlock_settles (keyword : Token) (hbody : Settles known (fun _ => 0) body) :
    Settles known (fun _ => 0) (namedBlock keyword body) := by
  refine (Settles.read fun _ => .accepts _).bind fun name => ?_
  cases name with
  | none => exact .fail nofun
  | some name => exact closing_settles (hbody.bind fun inner => ended_settles _ _ _)

theorem spacelessBlock_settles (keyword : Token) (hbody : Settles known (fun _ => 0) body) :
    Settles known (fun _ => 0) (spacelessBlock keyword body) :=
  closing_settles (hbody.bind fun _ => ended_settles _ _ _)

theorem autoescapeBlock_settles (keyword : Token) {body : Bool → Parse (List Stmt)}
    (hbody : ∀ mode, Settles known (fun _ => 0) (body mode)) :
    Settles known (fun _ => 0) (autoescapeBlock keyword body) :=
  (Settles.read fun _ => escapeMode_settles).bind fun mode =>
    closing_settles ((hbody mode).bind fun _ => ended_settles _ _ _)

end Blocks

section Statements

variable {known : Token → Prop} {limit : Int} {inside : Inside} {keyword : Token}

theorem extendsStatement_settles (isKnown : known keyword) (opened : Bool) :
    Settles known (fun _ => 0) (extendsStatement keyword opened) := by
  unfold extendsStatement
  split
  · exact .failAt nofun isKnown
  · refine Settles.getParent.bind fun parent => ?_
    cases parent with
    | some parent => exact .failAt nofun isKnown
    | none =>
        exact (Settles.read fun _ => templateName_settles _).bind fun name => .setParent _

theorem openBlock_settles {α : Type} {block : (Bool → Parse (List Stmt)) → Parse α}
    (hinside : ∀ body ∈ inside, ∀ escape, Settles known (fun _ => 0) (body escape))
    (isKnown : known keyword)
    (hblock : ∀ body : Bool → Parse (List Stmt),
      (∀ escape, Settles known (fun _ => 0) (body escape)) →
      Settles known (fun _ => 0) (block body)) :
    Settles known (fun _ => 0) (openBlock limit inside keyword block) := by
  cases inside with
  | none => exact .failAt nofun isKnown
  | some body => exact hblock body (hinside body rfl)

theorem statement_settles (opened escape : Bool)
    (hinside : ∀ body ∈ inside, ∀ escape, Settles known (fun _ => 0) (body escape))
    (isKnown : known keyword) :
    Settles known (fun _ => 0) (statement limit inside opened escape keyword) := by
  have block : ∀ {reader : Token → Parse (List Stmt) → Parse Stmt},
      (∀ {body}, Settles known (fun _ => 0) body →
        Settles known (fun _ => 0) (reader keyword body)) →
      Settles known (fun _ => 0) (openBlock limit inside keyword fun body =>
        reader keyword (body escape) >>= fun s => pure [s]) := by
    intro reader hreader
    apply openBlock_settles hinside isKnown
    intro body hbody
    exact (hreader (hbody escape)).bind fun _ => .pure rfl
  unfold statement
  dsimp only
  split
  · exact block (branchBlock_settles keyword)
  · exact block (loopBlock_settles keyword)
  · exact block (whileBlock_settles keyword)
  · exact block (namedBlock_settles keyword)
  · exact block (spacelessBlock_settles keyword)
  · exact openBlock_settles hinside isKnown fun body hbody => autoescapeBlock_settles keyword hbody
  · exact (extendsStatement_settles isKnown opened).bind fun _ => .pure rfl
  · exact (Settles.read fun _ => templateName_settles _).bind fun _ => .pure rfl
  · exact (Settles.read fun _ => setStatement_settles keyword).bind fun _ => .pure rfl
  · exact (Settles.read fun _ => debugStatement_settles keyword).bind fun _ => .pure rfl
  · exact .failAt nofun isKnown

theorem piece?_settles (opened escape : Bool)
    (hinside : ∀ body ∈ inside, ∀ escape, Settles known (fun _ => 0) (body escape)) :
    Settles known (fun found => found.isSome.toNat) (piece? limit inside opened escape) := by
  refine .peek (.pure rfl) fun t isKnown => ?_
  dsimp only
  split
  · exact .skip (.pure rfl)
  · refine .peekNext (.skip (.fail nofun)) fun keyword known => ?_
    dsimp only
    split
    · split
      · exact Settles.before (.pure rfl)
      · exact Settles.before (.failAt nofun known)
    · refine .skip ?_
      split
      · refine (Settles.read fun _ => .skip).bind fun _ => ?_
        exact (statement_settles opened escape hinside known).bind fun _ => .pure rfl
      · exact .fail nofun
  · refine .skip ?_
    exact (Settles.read fun _ => output_settles isKnown _ escape).bind fun _ => .pure rfl
  · exact Settles.before (.fail nofun)

theorem bodyWith_settles (opened escape : Bool)
    (hinside : ∀ body ∈ inside, ∀ escape, Settles known (fun _ => 0) (body escape)) :
    Settles known (fun _ => 0) (bodyWith limit inside opened escape) :=
  (piece?_settles opened escape hinside).many.bind fun _ => .pure rfl

theorem body_settles (room : Nat) (opened escape : Bool) :
    Settles known (fun _ => 0) (body limit room opened escape) := by
  induction room generalizing opened escape with
  | zero =>
      rw [body]
      exact bodyWith_settles opened escape nofun
  | succ room ih =>
      rw [body]
      apply bodyWith_settles
      rintro _ ⟨⟩ escape
      exact ih true escape

end Statements

theorem template_placed {limit : Int} {tokens : List Token} {fault : GrammarFault}
    (refused : template limit tokens = .error fault) : fault.Placed (· ∈ tokens) := by
  have settles : Settles (· ∈ tokens) (fun _ => 0) (body limit limit.toNat false true) :=
    body_settles limit.toNat false true
  have settled := settles none (tokens.length + 1) tokens (fun _ mem => mem) (Nat.lt_succ_self _)
  unfold template at refused
  unfold Reader.SettlesAt at settled
  split at refused
  · next given =>
      cases refused
      rw [given] at settled
      exact settled
  · cases refused

end Grammar

namespace Grammar.Reading

/-- At most `bound` calls are open around each expression that is being read, and around a tag. -/
structure Below (bound : Nat) (r : Reading) : Prop where
  blocks : 3 * r.blocks + 4 ≤ bound
  inner : r.inner.calls ≤ bound
  outer : ∀ o ∈ r.outer, o.2.calls ≤ bound

variable {r : Reading} {bound : Nat}

theorem around_le (e : OpenExpr) : e.around ≤ e.calls := by
  unfold OpenExpr.calls
  omega

@[simp] theorem calls_inside (n : Nat) : (OpenExpr.inside n).calls = n := rfl

namespace Below

theorem mono {larger : Nat} (below : r.Below bound) (le : bound ≤ larger) : r.Below larger where
  blocks := below.blocks.trans le
  inner := below.inner.trans le
  outer o mem := (below.outer o mem).trans le

theorem at_ (below : r.Below bound) (place : Place) : (r.at_ place).Below bound :=
  ⟨below.blocks, below.inner, below.outer⟩

theorem withInner (below : r.Below bound) {inner : OpenExpr} (le : inner.calls ≤ bound)
    (place : Place) : ({ r with inner, place } : Reading).Below bound :=
  ⟨below.blocks, le, below.outer⟩

theorem enter (below : r.Below bound) {calls : Nat} (few : calls ≤ 15) (awaited : Awaited)
    (place : Place) : (r.enter awaited calls place).Below (bound + 15) := by
  have widened := below.mono (Nat.le_add_right bound 15)
  have deeper : r.inner.calls + calls ≤ bound + 15 := Nat.add_le_add below.inner few
  refine ⟨widened.blocks, deeper, ?_⟩
  intro o mem
  cases mem with
  | head => exact widened.inner
  | tail _ mem => exact widened.outer o mem

theorem next (below : r.Below bound) (place : Place) : (r.next place).Below bound :=
  have aroundLe : (OpenExpr.inside r.inner.around).calls ≤ bound :=
    (around_le r.inner).trans below.inner
  below.withInner aroundLe place

theorem operandOf (below : r.Below bound) (place : Place) : (r.operandOf place).Below bound := by
  refine below.withInner (le_trans ?_ below.inner) place
  simp only [OpenExpr.calls]
  omega

theorem endChoices {inner : OpenExpr} {outer : List (Awaited × OpenExpr)}
    (innerLe : inner.calls ≤ bound) (outerLe : ∀ o ∈ outer, o.2.calls ≤ bound) :
    (Reading.endChoices inner outer).1.calls ≤ bound ∧
      ∀ o ∈ (Reading.endChoices inner outer).2, o.2.calls ≤ bound := by
  fun_induction Reading.endChoices inner outer with
  | case1 inner e outer ih =>
      rw [List.forall_mem_cons] at outerLe
      exact ih outerLe.1 outerLe.2
  | case2 => exact ⟨innerLe, outerLe⟩

theorem closeWithin {inner : OpenExpr} {outer : List (Awaited × OpenExpr)}
    (innerLe : inner.calls ≤ bound) (outerLe : ∀ o ∈ outer, o.2.calls ≤ bound) :
    (Reading.closeWithin inner outer).1.calls ≤ bound ∧
      ∀ o ∈ (Reading.closeWithin inner outer).2, o.2.calls ≤ bound := by
  fun_induction Reading.closeWithin inner outer with
  | case1 inner e outer =>
      rw [List.forall_mem_cons] at outerLe
      exact outerLe
  | case2 inner _ e outer _ ih =>
      rw [List.forall_mem_cons] at outerLe
      exact ih outerLe.1 outerLe.2
  | case3 => exact ⟨innerLe, by simp⟩

theorem afterChoices (below : r.Below bound) : r.afterChoices.Below bound := by
  obtain ⟨inner, outer⟩ := endChoices below.inner below.outer
  exact ⟨below.blocks, inner, outer⟩

theorem close (below : r.Below bound) : r.close.Below bound := by
  obtain ⟨inner, outer⟩ := closeWithin below.inner below.outer
  exact ⟨below.blocks, inner, outer⟩

theorem colon (below : r.Below bound) : r.colon.Below (bound + 15) := by
  have ended := below.afterChoices
  unfold Reading.colon
  dsimp only
  split
  · next e outer shape =>
      have outerLe := ended.outer
      rw [shape, List.forall_mem_cons] at outerLe
      have resumed : ({ r.afterChoices with inner := e, outer } : Reading).Below bound :=
        ⟨ended.blocks, outerLe.1, outerLe.2⟩
      exact resumed.enter (by decide) _ _
  · exact (ended.next _).mono (Nat.le_add_right _ _)

theorem symbol (below : r.Below bound) (s : Symbol) : (r.symbol s).Below (bound + 15) := by
  have widened := below.mono (Nat.le_add_right bound 15)
  unfold Reading.symbol
  split
  · exact widened.afterChoices.next _
  · exact below.colon
  · exact widened.next _
  · exact widened.close
  · exact widened.close
  · exact widened.close
  · exact (below.next r.place).enter (by decide) _ _
  · exact widened.operandOf _

theorem word (below : r.Below bound) (text : String) : (r.word text).Below bound := by
  unfold Reading.word
  split
  · exact below.next _
  · exact below.next _
  · exact below.operandOf _
  · exact below.operandOf _
  · exact below.operandOf _
  · exact below

theorem waiting (below : r.Below bound) {inner : OpenExpr}
    (one : inner.calls = r.inner.calls + 1) (place : Place) :
    ({ r with inner, place } : Reading).Below (bound + 15) := by
  refine (below.mono (Nat.le_add_right bound 15)).withInner ?_ place
  have := below.inner
  omega

theorem operandStep (below : r.Below bound) (mayNegate : Bool) (t : Token) :
    (r.operandStep mayNegate t).Below (bound + 15) := by
  have widened := below.mono (Nat.le_add_right bound 15)
  unfold Reading.operandStep
  split
  · split
    · exact below.waiting (by simp only [OpenExpr.calls]; omega) _
    · exact widened.at_ _
  · exact below.waiting rfl _
  · exact below.waiting rfl _
  · exact below.enter (by decide) _ _
  · exact below.enter (by decide) _ _
  · exact below.enter (by decide) _ _
  · exact below.symbol _
  · exact widened.at_ _

theorem suffixStep (below : r.Below bound) (callee : Callee) (t : Token) :
    (r.suffixStep callee t).Below (bound + 15) := by
  have widened := below.mono (Nat.le_add_right bound 15)
  unfold Reading.suffixStep
  split
  · exact widened.word _
  · exact widened.at_ _
  · exact below.enter (by decide) _ _
  · exact below.enter (by cases callee <;> decide) _ _
  · exact widened.at_ _
  · exact widened.at_ _
  · exact below.symbol _
  · exact widened

theorem tag {blocks : Nat} (below : r.Below bound) (le : 3 * blocks + 4 ≤ bound) (place : Place) :
    (r.tag blocks place).Below bound :=
  ⟨below.blocks, le, by simp [Reading.tag]⟩

theorem keywordStep (below : r.Below bound) (keyword : String) :
    (r.keywordStep keyword).Below (bound + 15) := by
  have fits := below.blocks
  have widened := below.mono (Nat.le_add_right bound 15)
  have tagged {blocks : Nat} (le : blocks ≤ r.blocks) (place : Place) :
      (r.tag blocks place).Below (bound + 15) := widened.tag (by omega) place
  have counted {blocks after : Nat} (le : blocks ≤ r.blocks) (few : after ≤ r.blocks + 1)
      (place : Place) :
      ({ r.tag blocks place with blocks := after } : Reading).Below (bound + 15) :=
    ⟨by dsimp only; omega, (tagged le place).inner, (tagged le place).outer⟩
  unfold Reading.keywordStep
  split
  · exact counted le_rfl le_rfl _
  split
  · exact counted le_rfl le_rfl _
  split
  · exact counted le_rfl le_rfl _
  split
  · exact tagged (Nat.sub_le _ _) _
  split
  · exact tagged (Nat.sub_le _ _) _
  split
  · exact counted (Nat.sub_le _ _) (by omega) _
  split
  · exact tagged le_rfl _
  · exact tagged le_rfl _

theorem step (below : r.Below bound) (t : Token) : (r.step t).Below (bound + 15) := by
  have widened := below.mono (Nat.le_add_right bound 15)
  have fits := below.blocks
  unfold Reading.step
  split
  · exact widened.at_ _
  · exact ⟨widened.blocks, by simp only [calls_inside]; omega, by simp⟩
  · exact widened.at_ _
  · split
    · exact widened
    · exact below.keywordStep _
    · split
      · exact widened.next _
      · exact widened
    · exact widened.at_ _
    · exact widened.at_ _
    · exact below.operandStep _ _
    · exact below.operandStep _ _
    · exact below.suffixStep _ _
    · exact widened.at_ _
    · exact widened.at_ _
    · split
      · exact widened.at_ _
      · exact widened.at_ _

theorem calls_le (below : r.Below bound) (coming : Option Token) :
    r.calls coming ≤ bound + 14 := by
  have fits := below.blocks
  have innerLe := below.inner
  have aroundLe := around_le r.inner
  unfold Reading.calls
  split
  case h_6 =>
    split
    · omega
    · omega
  all_goals omega

theorem mostCalls_le (tokens : List Token) (below : r.Below bound) :
    r.mostCalls tokens ≤ bound + 14 + 15 * tokens.length := by
  induction tokens generalizing r bound with
  | nil => exact below.calls_le none
  | cons t ts ih =>
      have now := below.calls_le (some t)
      have later := ih (below.step t)
      rw [Reading.mostCalls, List.length_cons]
      omega

end Below

end Grammar.Reading

theorem Grammar.mostCalls_le (tokens : List Token) :
    Grammar.mostCalls tokens ≤ 15 * tokens.length + 18 := by
  have initial : Reading.initial.Below 4 := ⟨by decide, by decide, by simp [Reading.initial]⟩
  have := initial.mostCalls_le tokens
  unfold Grammar.mostCalls
  omega

/-- One with so many signs before it. -/
def Expr.signedOne : (signs : Nat) → Expr
  | 0 => .const .start (.nat 1)
  | signs + 1 => .sign .start .neg (signedOne signs)

theorem Expr.signedOne_wellFormed (signs : Nat) : (signedOne signs).WellFormed := by
  induction signs with
  | zero => exact .const trivial
  | succ signs ih => exact .sign ih

theorem Expr.signedOne_lexemes (signs : Nat) : (signedOne signs).lexemes =
    List.replicate signs (Lexeme.symbol .sub) ++ [(Literal.nat 1).lexeme] := by
  induction signs with
  | zero => rfl
  | succ signs ih =>
      have tight : Level.sign.rank ≤ (signedOne signs).level.rank := by
        cases signs with
        | zero => exact Nat.le_of_ble_eq_true rfl
        | succ signs => exact Nat.le_refl _
      rw [signedOne, lexemes, enclosed, SignOp.level, if_pos tight, ih]
      rfl

namespace Grammar

namespace Reading

variable {r : Reading} {mayNegate : Bool}

theorem calls_of_operand (place : r.place = .operand mayNegate) (coming : Option Token) :
    r.calls coming = r.inner.calls + 14 := by
  rw [calls, place]

theorem le_mostCalls_of_signs {signs : Nat} {tokens : List Token} {others : List Lexeme}
    (place : r.place = .operand mayNegate)
    (written : Reader.lexemes tokens = List.replicate signs (Lexeme.symbol .sub) ++ others) :
    r.inner.calls + signs + 14 ≤ r.mostCalls tokens := by
  induction signs generalizing r mayNegate tokens with
  | zero =>
      cases tokens with
      | nil => exact (calls_of_operand place none).ge
      | cons t ts => exact (calls_of_operand place (some t)).ge.trans (Nat.le_max_left _ _)
  | succ signs ih =>
      obtain ⟨t, ts, rfl, sign, inside⟩ := List.map_eq_cons_iff.mp written
      have kind : t.kind = .symbol .sub := congrArg Prod.fst sign
      have step : r.step t = { r with
          inner := { r.inner with signs := r.inner.signs + 1 }, place := .operand false } := by
        simp only [Reading.step, kind, place, operandStep]
      have operand : (r.step t).place = .operand false := by rw [step]
      have later := ih operand inside
      have deeper : (r.step t).inner.calls = r.inner.calls + 1 := by
        rw [step]
        rfl
      refine le_trans ?_ (Nat.le_max_right _ _)
      omega

end Reading

theorem le_mostCalls_of_signs {signs : Nat} {tokens : List Token} {others : List Lexeme}
    (written : Reader.lexemes tokens =
      Lexeme.opening .escaped :: (List.replicate signs (Lexeme.symbol .sub) ++ others)) :
    signs + 17 ≤ mostCalls tokens := by
  obtain ⟨t, ts, rfl, opening, inside⟩ := List.map_eq_cons_iff.mp written
  have kind : t.kind = .opening .escaped := congrArg Prod.fst opening
  have step : Reading.initial.step t =
      { Reading.initial with inner := .inside 3, place := .operand true } := by
    simp only [Reading.step, kind]
    rfl
  have operand : (Reading.initial.step t).place = .operand true := by rw [step]
  have deep := Reading.le_mostCalls_of_signs operand inside
  have begins : (Reading.initial.step t).inner.calls = 3 := by
    rw [step]
    rfl
  refine le_trans ?_ (Nat.le_max_right _ _)
  omega

end Grammar

/-- How a source is refused: in one of the two stages, at a place of the source, and not because the
rounds of a reader ran out. -/
inductive Source.Refuses (s : Source) : Diagnostic → Prop
  | tokens (fault : ScanFault) {pos : Pos} (inside : pos.Inside s.text.toList) :
      Refuses s (s.error .tokens fault.message pos fault.code none)
  | grammar {cause : GrammarCause} (moves : cause ≠ .stuck) {pos : Pos}
      (inside : pos.Inside s.text.toList) :
      Refuses s (s.error .grammar cause.message pos cause.code cause.suggestion?)

theorem Source.refuses_of_template {s : Source} {limit : Int} {d : Diagnostic}
    (refused : s.template limit = .error d) : s.Refuses d := by
  unfold Source.template Source.tokens at refused
  cases read : TokenStream.ofSource? s.text.toList with
  | error stopped =>
      obtain ⟨fault, pos⟩ := stopped
      rw [read] at refused
      cases refused
      exact .tokens fault (TokenStream.inside_of_refused read)
  | ok stream =>
      obtain ⟨atTokens, atEnd⟩ := TokenStream.inside_of_ofSource? read
      rw [read] at refused
      dsimp only [bind, Except.bind] at refused
      cases parsed : Grammar.template limit stream.tokens with
      | ok t =>
          rw [parsed] at refused
          cases refused
      | error fault =>
          obtain ⟨moves, atKnown⟩ := Grammar.template_placed parsed
          rw [parsed] at refused
          cases refused
          refine .grammar moves ?_
          cases found : fault.token with
          | none => exact atEnd
          | some t => exact atTokens t (atKnown t found)

theorem Source.length_readTokens_le (limit : Int) (stream : TokenStream) :
    (readTokens limit stream).length ≤ stream.tokens.length := by
  unfold readTokens
  split
  · exact le_rfl
  · exact (List.takeWhile_sublist _).length_le

theorem Source.readTokens_of_template {s : Source} {stream : TokenStream} {limit : Int}
    {t : Template} (tokens : s.tokens = .ok stream) (read : s.template limit = .ok t) :
    readTokens limit stream = stream.tokens := by
  simp only [template, tokens, bind, Except.bind] at read
  unfold readTokens
  cases parsed : Grammar.template limit stream.tokens with
  | ok t => rfl
  | error fault =>
      rw [parsed] at read
      cases read

theorem Source.exists_overflow (room : Nat) (limit : Int) : ∃ (s : Source) (t : Template),
    s.template limit = .ok t ∧ s.templateWithin room limit = .error .overflow := by
  have wf := Expr.signedOne_wellFormed room
  obtain ⟨stream, tokens, written⟩ := tokens_ofExpr wf none none
  obtain ⟨p, value, read, -⟩ := output_of_lexemes wf tokens written limit
  rw [Expr.signedOne_lexemes, Lexeme.tag, List.append_assoc] at written
  have deep : room + 17 ≤ (ofExpr (Expr.signedOne room) none none).mostCalls limit := by
    rw [mostCalls, tokens]
    dsimp only
    rw [readTokens_of_template tokens read]
    exact Grammar.le_mostCalls_of_signs written
  exact ⟨_, _, read, if_neg (by omega)⟩

def Source.nestedParentheses (count : Nat) : Source where
  text := "\x7b\x7b " ++ String.ofList (List.replicate count '(') ++ "1" ++
    String.ofList (List.replicate count ')') ++ " \x7d\x7d"
  name := none
  filename := none

end Stencil
