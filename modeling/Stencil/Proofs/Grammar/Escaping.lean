import Stencil.Proofs.Grammar.Progress
import Stencil.Proofs.Stmt.Leaves
import Stencil.Stmt.Source

namespace Stencil

open Stmt (OutputsEscape)

namespace Grammar

def switchesOff : List Token → Bool
  | start :: keyword :: mode :: _ =>
      start.kind == .opening .statement && Reader.isWord ["autoescape"] keyword &&
        escapeMode? mode.text == some false
  | _ => false

/-- Whether no output is to be written as it is, and no block switches escaping off. -/
def escapes : List Token → Bool
  | [] => true
  | t :: rest => t.kind != .opening .raw && !switchesOff (t :: rest) && escapes rest

theorem escapes_cons {t : Token} {rest : List Token} :
    escapes (t :: rest) = true ↔
      t.kind ≠ .opening .raw ∧ switchesOff (t :: rest) = false ∧ escapes rest = true := by
  simp [escapes, and_assoc]

theorem escapes_of_suffix {ts rest : List Token} (escaping : escapes ts = true)
    (isRest : rest <:+ ts) : escapes rest = true := by
  obtain ⟨before, rfl⟩ := isRest
  induction before with
  | nil => exact escaping
  | cons t before ih => exact ih (escapes_cons.mp escaping).2.2

end Grammar

namespace Reader

variable {α β : Type} {P : α → Prop} {Q : β → Prop}

def Yields (P : α → Prop) (r : Reader α) : Prop := ∀ ts a rest, r ts = .ok (a, rest) → P a

theorem Yields.pure {a : α} (ha : P a) : Yields P (Pure.pure a) := by
  intro ts b rest read
  cases read
  exact ha

theorem Yields.bind {r : Reader α} {f : α → Reader β} (hf : ∀ a, Yields Q (f a)) :
    Yields Q (r >>= f) := by
  intro ts b rest read
  obtain ⟨⟨a, mid⟩, _, second⟩ := Except.bind_ok read
  exact hf a mid b rest second

theorem Yields.failAt (token : Token) (cause : GrammarCause) :
    Yields P (Reader.failAt token cause) := nofun

end Reader

namespace Grammar

open Reader

theorem output_yields (start : Token) :
    Yields (fun s => OutputsEscape [s]) (output start .escaped true) := by
  have more : Yields (fun s => OutputsEscape [s]) (output.more start .escaped true) :=
    .bind fun value => .bind fun _ => .pure fun pos value escape member => by
      simp only [Stmt.leavesOf, Stmt.leaves, List.append_nil, List.mem_singleton] at member
      cases member
      rfl
  refine .bind fun t => ?_
  cases t with
  | none => exact more
  | some t =>
      dsimp only
      split
      · exact .failAt _ _
      · exact more

theorem setStatement_yields (keyword : Token) :
    Yields (fun s => OutputsEscape [s]) (setStatement keyword) :=
  .bind fun _ => .bind fun _ => .bind fun _ => .bind fun _ =>
    .pure (by simp [OutputsEscape, Stmt.leavesOf, Stmt.leaves])

theorem debugStatement_yields (keyword : Token) :
    Yields (fun s => OutputsEscape [s]) (debugStatement keyword) := by
  refine .bind fun closing => ?_
  cases closing with
  | some _ => exact .pure (by simp [OutputsEscape, Stmt.leavesOf, Stmt.leaves])
  | none =>
      exact .bind fun _ => .bind fun _ =>
        .pure (by simp [OutputsEscape, Stmt.leavesOf, Stmt.leaves])

/-- An escaping block is switched on if the token after its keyword does not say otherwise. -/
theorem escapeMode_eq_true {ts rest : List Token} {mode : Bool}
    (isOn : ∀ t ∈ ts.head?, escapeMode? t.text ≠ some false)
    (read : escapeMode ts = .ok (mode, rest)) : mode = true := by
  obtain ⟨⟨found, mid⟩, accepted, given⟩ := Except.bind_ok read
  cases ts with
  | nil =>
      cases accepted
      cases given
      rfl
  | cons t others =>
      simp only [acceptWhere, Except.ok.injEq] at accepted
      split at accepted
      · cases accepted
        dsimp only at given
        cases hmode : escapeMode? t.text with
        | none =>
            rw [hmode] at given
            cases given
        | some on =>
            rw [hmode] at given
            cases given
            have notOff := isOn t rfl
            rw [hmode] at notOff
            simpa using notOff
      · cases accepted
        cases given
        rfl

namespace Parse

variable {α β : Type} {P : α → Prop} {Q : β → Prop}

/-- From a token list a reader comes to an escaping one, and what it gives has a property. -/
def GivesFrom (P : α → Prop) (ts : List Token) (r : Parse α) : Prop :=
  ∀ parent a after rest, r parent ts = .ok ((a, after), rest) → escapes rest = true ∧ P a

def Gives (P : α → Prop) (r : Parse α) : Prop := ∀ ts, escapes ts = true → GivesFrom P ts r

theorem GivesFrom.bind {ts : List Token} {r : Parse α} {f : α → Parse β}
    (hr : GivesFrom P ts r) (hf : ∀ a, P a → Gives Q (f a)) : GivesFrom Q ts (r >>= f) := by
  intro parent b after rest read
  obtain ⟨⟨⟨a, between⟩, mid⟩, first, second⟩ := Except.bind_ok read
  obtain ⟨escaping, ha⟩ := hr parent a between mid first
  exact hf a ha mid escaping between b after rest second

theorem Gives.bind {r : Parse α} {f : α → Parse β} (hr : Gives P r)
    (hf : ∀ a, P a → Gives Q (f a)) : Gives Q (r >>= f) :=
  fun ts escaping => (hr ts escaping).bind hf

theorem GivesFrom.peek {ts : List Token} {f : Option Token → Parse β}
    (next : GivesFrom Q ts (f ts.head?)) : GivesFrom Q ts (Parse.read Reader.peek >>= f) := next

theorem GivesFrom.peekNext {ts : List Token} {f : Option Token → Parse β}
    (next : GivesFrom Q ts (f ts.tail.head?)) :
    GivesFrom Q ts (Parse.read Reader.peekNext >>= f) := next

theorem GivesFrom.skip {ts : List Token} {f : Unit → Parse β}
    (next : GivesFrom Q ts.tail (f ())) : GivesFrom Q ts (Parse.read Reader.skip >>= f) := next

theorem Gives.pure {a : α} (ha : P a) : Gives P (Pure.pure a) := by
  intro ts escaping parent b after rest read
  cases read
  exact ⟨escaping, ha⟩

theorem GivesFrom.failAt {ts : List Token} (token : Token) (cause : GrammarCause) :
    GivesFrom P ts (Parse.failAt token cause) := nofun

theorem GivesFrom.fail {ts : List Token} (cause : GrammarCause) :
    GivesFrom P ts (Parse.fail cause) := nofun

theorem Gives.failAt (token : Token) (cause : GrammarCause) :
    Gives P (Parse.failAt token cause) := fun _ _ => .failAt token cause

theorem Gives.fail (cause : GrammarCause) : Gives P (Parse.fail cause) := fun _ _ => .fail cause

theorem read_ok {r : Reader α} {ts rest : List Token} {parent after : Option Parent} {a : α}
    (read : Parse.read r parent ts = .ok ((a, after), rest)) : r ts = .ok (a, rest) := by
  unfold Parse.read at read
  split at read
  · cases read
  · next given =>
      cases read
      exact given

theorem Gives.read {r : Reader α} {least : α → Nat}
    (settles : ∀ bound, Settles (fun _ => True) bound least r) (given : Yields P r) :
    Gives P (Parse.read r) := by
  intro ts escaping parent a after rest read
  have first := read_ok read
  have isRest := Consumes.of_settles settles ts a rest first
  exact ⟨escapes_of_suffix escaping isRest, given ts a rest first⟩

theorem Gives.consume {r : Reader α} {least : α → Nat}
    (settles : ∀ bound, Settles (fun _ => True) bound least r) :
    Gives (fun _ => True) (Parse.read r) := .read settles fun _ _ _ _ => trivial

theorem Gives.parent : Gives (fun _ => True) (MonadState.get : Parse (Option Parent)) := by
  intro ts escaping parent a after rest read
  cases read
  exact ⟨escaping, trivial⟩

theorem Gives.setParent (parent : Option Parent) :
    Gives (fun _ => True) (MonadStateOf.set parent : Parse PUnit) := by
  intro ts escaping before a after rest read
  cases read
  exact ⟨escaping, trivial⟩

theorem Gives.manyWithin {r : Parse (Option α)} (hr : Gives (fun found => ∀ a ∈ found, P a) r)
    (rounds : Nat) : Gives (fun found => ∀ a ∈ found, P a) (Parse.manyWithin rounds r) := by
  induction rounds with
  | zero => exact .fail _
  | succ rounds ih =>
      apply hr.bind
      intro found here
      cases found with
      | none => exact .pure (by simp)
      | some a =>
          apply ih.bind
          intro more further
          exact .pure (List.forall_mem_cons.mpr ⟨here a rfl, further⟩)

theorem Gives.many {r : Parse (Option α)} (hr : Gives (fun found => ∀ a ∈ found, P a) r) :
    Gives (fun found => ∀ a ∈ found, P a) (Parse.many r) :=
  fun ts escaping parent => hr.manyWithin (ts.length + 1) ts escaping parent

end Parse

open Parse

abbrev Statements (r : Parse (List Stmt)) : Prop := Gives OutputsEscape r

abbrev Statement (r : Parse Stmt) : Prop := Gives (fun s => OutputsEscape [s]) r

/-! Blocks are made of what is read inside them. -/

section Blocks

variable {body : Parse (List Stmt)}

theorem guarded_gives (hbody : Statements body) :
    Gives (fun g => OutputsEscape g.2) (guarded body) :=
  (Gives.consume fun _ => expr_settles).bind fun _ _ =>
    (Gives.consume fun _ => expectClosing_settles).bind fun _ _ =>
      hbody.bind fun _ escape => .pure escape

theorem continued_statements (keywords : List String) (hbody : Statements body) :
    Statements (continued keywords body) := by
  apply (Gives.consume fun _ => atKeyword_settles _).bind
  intro found _
  split
  · exact (Gives.consume fun _ => skipKeyword_settles).bind fun _ _ =>
      (Gives.consume fun _ => expectClosing_settles).bind fun _ _ => hbody
  · exact .pure (by simp [OutputsEscape, Stmt.leavesOf])

theorem branchBlock_gives (keyword : Token) (hbody : Statements body) :
    Statement (branchBlock keyword body) := by
  have further : Gives (fun found => ∀ other ∈ found, OutputsEscape other.2)
      (Parse.read (atKeyword ["elseif", "elif"]) >>= fun found =>
        if found = true then Parse.read skipKeyword >>= fun _ => guarded body >>= fun g =>
          pure (some g) else pure none) := by
    apply (Gives.consume fun _ => atKeyword_settles _).bind
    intro found _
    split
    · apply (Gives.consume fun _ => skipKeyword_settles).bind
      intro _ _
      exact (guarded_gives hbody).bind fun g escape => .pure (by simpa using escape)
    · exact .pure (by simp)
  apply (guarded_gives hbody).bind
  intro first hfirst
  apply (Gives.many further).bind
  intro others hothers
  apply (continued_statements _ hbody).bind
  intro otherwise hotherwise
  exact (Gives.consume fun _ => endTag_settles _ _).bind fun _ _ =>
    .pure (Stmt.outputsEscape_branch hfirst hothers hotherwise)

theorem loopBlock_gives (keyword : Token) (hbody : Statements body) :
    Statement (loopBlock keyword body) := by
  apply (Gives.consume fun _ => loopTarget_settles).bind
  intro target _
  apply (Gives.consume fun _ => .accepts _).bind
  intro found _
  cases found with
  | none => exact .fail _
  | some _ =>
      apply (Gives.consume fun _ => expr_settles).bind
      intro items _
      apply (Gives.consume fun _ => expectClosing_settles).bind
      intro _ _
      apply hbody.bind
      intro each heach
      apply (continued_statements _ hbody).bind
      intro empty hempty
      exact (Gives.consume fun _ => endTag_settles _ _).bind fun _ _ =>
        .pure (Stmt.outputsEscape_loop heach hempty)

theorem whileBlock_gives (keyword : Token) (hbody : Statements body) :
    Statement (whileBlock keyword body) := by
  apply (guarded_gives hbody).bind
  intro each heach
  exact (Gives.consume fun _ => endTag_settles _ _).bind fun _ _ =>
    .pure (Stmt.outputsEscape_of_leaves (by rw [Stmt.leaves]) heach)

theorem namedBlock_gives (keyword : Token) (hbody : Statements body) :
    Statement (namedBlock keyword body) := by
  apply (Gives.consume fun _ => .accepts _).bind
  intro name _
  cases name with
  | none => exact .fail _
  | some name =>
      apply (Gives.consume fun _ => expectClosing_settles).bind
      intro _ _
      apply hbody.bind
      intro inner hinner
      exact (Gives.consume fun _ => endTag_settles _ _).bind fun _ _ =>
        .pure (Stmt.outputsEscape_of_leaves (by rw [Stmt.leaves]) hinner)

theorem spacelessBlock_gives (keyword : Token) (hbody : Statements body) :
    Statement (spacelessBlock keyword body) := by
  apply (Gives.consume fun _ => expectClosing_settles).bind
  intro _ _
  apply hbody.bind
  intro inner hinner
  exact (Gives.consume fun _ => endTag_settles _ _).bind fun _ _ =>
    .pure (Stmt.outputsEscape_of_leaves (by rw [Stmt.leaves]) hinner)

theorem autoescapeBlock_gives (keyword : Token) {body : Bool → Parse (List Stmt)}
    (hbody : Statements (body true)) {ts : List Token} (escaping : escapes ts = true)
    (isOn : ∀ t ∈ ts.head?, escapeMode? t.text ≠ some false) :
    GivesFrom OutputsEscape ts (autoescapeBlock keyword body) := by
  have switchedOn : GivesFrom (· = true) ts (Parse.read escapeMode) := by
    intro parent mode after rest read
    have first := read_ok read
    have isRest := Consumes.of_settles (fun _ => escapeMode_settles) ts mode rest first
    exact ⟨escapes_of_suffix escaping isRest, escapeMode_eq_true isOn first⟩
  apply switchedOn.bind
  intro mode isTrue
  subst isTrue
  apply (Gives.consume fun _ => expectClosing_settles).bind
  intro _ _
  exact hbody.bind fun inner hinner =>
    (Gives.consume fun _ => endTag_settles _ _).bind fun _ _ => .pure hinner

end Blocks

theorem extendsStatement_gives (keyword : Token) (opened : Bool) :
    Gives (fun _ => True) (extendsStatement keyword opened) := by
  unfold extendsStatement
  split
  · exact .failAt _ _
  · apply Gives.parent.bind
    intro parent _
    cases parent with
    | some _ => exact .failAt _ _
    | none => exact (Gives.consume fun _ => templateName_settles _).bind fun _ _ => .setParent _

theorem statement_gives {limit : Int} {inside : Inside} {opened : Bool} {keyword : Token}
    (hinside : ∀ body ∈ inside, Statements (body true)) {ts : List Token}
    (escaping : escapes ts = true)
    (isOn : keyword.text = "autoescape" → ∀ t ∈ ts.head?, escapeMode? t.text ≠ some false) :
    GivesFrom OutputsEscape ts (statement limit inside opened true keyword) := by
  have block : ∀ {reader : Token → Parse (List Stmt) → Parse Stmt},
      (∀ {body}, Statements body → Statement (reader keyword body)) →
      Statements (openBlock limit inside keyword fun body =>
        reader keyword (body true) >>= fun s => pure [s]) := by
    intro reader hreader
    cases inside with
    | none => exact .failAt _ _
    | some body =>
        exact (hreader (hinside body rfl)).bind fun s escape => .pure escape
  unfold statement
  dsimp only
  split
  · exact block (branchBlock_gives keyword) ts escaping
  · exact block (loopBlock_gives keyword) ts escaping
  · exact block (whileBlock_gives keyword) ts escaping
  · exact block (namedBlock_gives keyword) ts escaping
  · exact block (spacelessBlock_gives keyword) ts escaping
  · next isBlock =>
      cases inside with
      | none => exact .failAt _ _
      | some body => exact autoescapeBlock_gives keyword (hinside body rfl) escaping (isOn isBlock)
  · exact (extendsStatement_gives keyword opened ts escaping).bind fun _ _ =>
      .pure (by simp [OutputsEscape, Stmt.leavesOf])
  · exact (Gives.consume (fun _ => templateName_settles _) ts escaping).bind fun _ _ =>
      .pure (by simp [OutputsEscape, Stmt.leavesOf, Stmt.leaves])
  · exact (Gives.read (fun _ => setStatement_settles keyword) (setStatement_yields keyword)
      ts escaping).bind fun _ escape => .pure escape
  · exact (Gives.read (fun _ => debugStatement_settles keyword) (debugStatement_yields keyword)
      ts escaping).bind fun _ escape => .pure escape
  · exact .failAt _ _

theorem piece?_gives {limit : Int} {inside : Inside} {opened : Bool}
    (hinside : ∀ body ∈ inside, Statements (body true)) :
    Gives (fun found => ∀ piece ∈ found, OutputsEscape piece)
      (piece? limit inside opened true) := by
  intro ts escaping
  refine .peek ?_
  cases ts with
  | nil => exact Gives.pure (by simp) [] escaping
  | cons t others =>
      obtain ⟨notRaw, notOff, rest⟩ := escapes_cons.mp escaping
      dsimp only [List.head?_cons]
      split
      · exact .skip (Gives.pure (by simp [OutputsEscape, Stmt.leavesOf, Stmt.leaves]) others rest)
      · next isStatement =>
          refine .peekNext ?_
          cases others with
          | nil => exact .skip (.fail _)
          | cons keyword more =>
              obtain ⟨_, _, afterKeyword⟩ := escapes_cons.mp rest
              dsimp only [List.tail_cons, List.head?_cons]
              split
              · split
                · exact Gives.pure (by simp) _ escaping
                · exact .failAt _ _
              · refine .skip ?_
                split
                · next isName =>
                    refine .skip ?_
                    refine (statement_gives hinside afterKeyword ?_).bind fun piece escape =>
                      .pure (by simpa using escape)
                    intro isBlock mode atFront isOff
                    obtain ⟨after, rfl⟩ := List.head?_eq_some_iff.mp atFront
                    simp [switchesOff, isWord, isStatement, isName, isBlock, isOff] at notOff
                · exact .fail _
      · next d notStatement isOpening =>
          cases d with
          | escaped =>
              have given := Gives.read (fun _ => output_settles trivial _ _) (output_yields t)
                others rest
              refine .skip (given.bind ?_)
              exact fun s escape => .pure (by simpa using escape)
          | raw => exact absurd isOpening notRaw
          | statement => exact (notStatement rfl).elim
      · exact .fail _

theorem bodyWith_gives {limit : Int} {inside : Inside} {opened : Bool}
    (hinside : ∀ body ∈ inside, Statements (body true)) :
    Statements (bodyWith limit inside opened true) :=
  (Gives.many (piece?_gives hinside)).bind fun _ all => .pure (Stmt.outputsEscape_flatten all)

theorem body_gives (limit : Int) (room : Nat) (opened : Bool) :
    Statements (body limit room opened true) := by
  induction room generalizing opened with
  | zero =>
      rw [body]
      exact bodyWith_gives (by simp)
  | succ room ih =>
      rw [body]
      refine bodyWith_gives fun inner given => ?_
      cases given
      exact ih true

theorem template_escapes {limit : Int} {tokens : List Token} {t : Template}
    (escaping : escapes tokens = true) (written : template limit tokens = .ok t) :
    OutputsEscape t.body := by
  unfold template at written
  split at written
  · cases written
  · next read =>
      cases written
      exact (body_gives limit limit.toNat false tokens escaping none _ _ _ read).2

end Grammar

def Source.Escapes (s : Source) : Prop :=
  ∀ stream, s.tokens = .ok stream → Grammar.escapes stream.tokens = true

theorem Source.Escapes.template {s : Source} (escapes : s.Escapes) {limit : Int} {t : Template}
    (written : s.template limit = .ok t) : OutputsEscape t.body := by
  obtain ⟨stream, read, parsed⟩ := Except.bind_ok written
  split at parsed
  · next given =>
      cases parsed
      exact Grammar.template_escapes (escapes stream read) given
  · cases parsed

end Stencil
