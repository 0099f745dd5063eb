import Stencil.Proofs.Grammar.Escaping
import Stencil.Proofs.Inheritance.Filling
import Stencil.Proofs.Token.Places

namespace Stencil

namespace Stmt

def pos : Stmt → Pos
  | text p _ | output p _ _ | branch p _ _ _ _ | loop p _ _ _ _ | .while p _ _ | block p _ _
  | .include p _ | .set p _ _ | spaceless p _ | debug p _ _ => p

def placesOf (written : List Stmt) : List Pos := (partsOf written).map pos

theorem placesOf_append (first second : List Stmt) :
    placesOf (first ++ second) = placesOf first ++ placesOf second := by
  rw [placesOf, partsOf_append, List.map_append, placesOf, placesOf]

theorem placesOf_flatten (pieces : List (List Stmt)) :
    placesOf pieces.flatten = pieces.flatMap placesOf := by
  induction pieces with
  | nil => rfl
  | cons piece rest ih => rw [List.flatten_cons, placesOf_append, ih, List.flatMap_cons]

theorem partsOfOthers_eq_flatMap (others : List (Expr × List Stmt)) :
    partsOfOthers others = others.flatMap fun other => partsOf other.2 := by
  induction others with
  | nil => rfl
  | cons other rest ih => rw [partsOfOthers, ih, List.flatMap_cons]

theorem placesOf_branch (p : Pos) (condition : Expr) (body : List Stmt)
    (others : List (Expr × List Stmt)) (otherwise : List Stmt) :
    placesOf [branch p condition body others otherwise] =
      p :: placesOf body ++ others.flatMap (fun other => placesOf other.2) ++
        placesOf otherwise := by
  simp [placesOf, partsOf, parts, pos, partsOfOthers_eq_flatMap, List.map_flatMap]

theorem placesOf_loop (p : Pos) (target : Target) (items : Expr) (body empty : List Stmt) :
    placesOf [loop p target items body empty] = p :: placesOf body ++ placesOf empty := by
  simp [placesOf, partsOf, parts, pos]

theorem placesOf_while (p : Pos) (condition : Expr) (body : List Stmt) :
    placesOf [.while p condition body] = p :: placesOf body := by
  simp [placesOf, partsOf, parts, pos]

theorem placesOf_block (p : Pos) (name : String) (body : List Stmt) :
    placesOf [block p name body] = p :: placesOf body := by
  simp [placesOf, partsOf, parts, pos]

theorem placesOf_spaceless (p : Pos) (body : List Stmt) :
    placesOf [spaceless p body] = p :: placesOf body := by
  simp [placesOf, partsOf, parts, pos]

end Stmt

namespace Grammar

open Reader Stmt

namespace Parse

variable {α β : Type} {seen : List Pos} {P : α → List Pos} {Q : β → List Pos}

/-- From a token list a reader gives something whose places are, in order, some that were seen
before and some of tokens that it takes. -/
def PlacesFrom (seen : List Pos) (P : α → List Pos) (ts : List Token) (r : Parse α) : Prop :=
  ∀ parent a after rest, r parent ts = .ok ((a, after), rest) →
    ∃ taken, ts = taken ++ rest ∧ (P a).Sublist (seen ++ taken.map Token.pos)

def Places (seen : List Pos) (P : α → List Pos) (r : Parse α) : Prop :=
  ∀ ts, PlacesFrom seen P ts r

theorem PlacesFrom.bind {ts : List Token} {r : Parse α} {f : α → Parse β}
    (hr : PlacesFrom seen P ts r) (hf : ∀ a, Places (P a) Q (f a)) :
    PlacesFrom seen Q ts (r >>= f) := by
  intro parent b after rest read
  obtain ⟨⟨⟨a, between⟩, mid⟩, first, second⟩ := Except.bind_ok read
  obtain ⟨taken, rfl, placed⟩ := hr parent a between mid first
  obtain ⟨more, rfl, further⟩ := hf a mid between b after rest second
  refine ⟨taken ++ more, (List.append_assoc _ _ _).symm, ?_⟩
  rw [List.map_append, ← List.append_assoc]
  exact further.trans (placed.append_right _)

theorem Places.bind {r : Parse α} {f : α → Parse β} (hr : Places seen P r)
    (hf : ∀ a, Places (P a) Q (f a)) : Places seen Q (r >>= f) := fun ts => (hr ts).bind hf

theorem PlacesFrom.peek {ts : List Token} {f : Option Token → Parse β}
    (next : PlacesFrom seen Q ts (f ts.head?)) :
    PlacesFrom seen Q ts (Parse.read Reader.peek >>= f) := next

theorem PlacesFrom.peekNext {ts : List Token} {f : Option Token → Parse β}
    (next : PlacesFrom seen Q ts (f ts.tail.head?)) :
    PlacesFrom seen Q ts (Parse.read Reader.peekNext >>= f) := next

theorem PlacesFrom.skip {t : Token} {ts : List Token} {f : Unit → Parse β}
    (next : PlacesFrom (seen ++ [t.pos]) Q ts (f ())) :
    PlacesFrom seen Q (t :: ts) (Parse.read Reader.skip >>= f) := by
  intro parent b after rest read
  obtain ⟨taken, rfl, placed⟩ := next parent b after rest read
  exact ⟨t :: taken, rfl, by simpa using placed⟩

theorem PlacesFrom.fail {ts : List Token} (cause : GrammarCause) :
    PlacesFrom seen P ts (Parse.fail cause) := nofun

theorem PlacesFrom.failAt {ts : List Token} (token : Token) (cause : GrammarCause) :
    PlacesFrom seen P ts (Parse.failAt token cause) := nofun

theorem Places.fail (cause : GrammarCause) : Places seen P (Parse.fail cause) :=
  fun _ => .fail cause

theorem Places.failAt (token : Token) (cause : GrammarCause) :
    Places seen P (Parse.failAt token cause) := fun _ => .failAt token cause

theorem Places.pure {a : α} (placed : (P a).Sublist seen) : Places seen P (Pure.pure a) := by
  intro ts parent b after rest read
  cases read
  exact ⟨[], rfl, by simpa using placed⟩

theorem Places.weaken {r : Parse α} (hr : Places seen P r) {more : List Pos}
    (kept : seen.Sublist more) : Places more P r := by
  intro ts parent a after rest read
  obtain ⟨taken, split, placed⟩ := hr ts parent a after rest read
  exact ⟨taken, split, placed.trans (kept.append_right _)⟩

theorem Places.after {r : Parse α} (hr : Places [] P r) (seen : List Pos) :
    Places seen (fun a => seen ++ P a) r := by
  intro ts parent a after rest read
  obtain ⟨taken, split, placed⟩ := hr ts parent a after rest read
  exact ⟨taken, split, placed.append_left seen⟩

theorem Places.read {r : Reader α} {least : α → Nat}
    (settles : ∀ bound, Settles (fun _ => True) bound least r)
    (given : Yields (fun a => (P a).Sublist seen) r) : Places seen P (Parse.read r) := by
  intro ts parent a after rest read
  have first := read_ok read
  obtain ⟨taken, split⟩ := Consumes.of_settles settles ts a rest first
  exact ⟨taken, split.symm, (given ts a rest first).trans (List.sublist_append_left _ _)⟩

theorem Places.consume {r : Reader α} {least : α → Nat}
    (settles : ∀ bound, Settles (fun _ => True) bound least r) :
    Places seen (fun _ => seen) (Parse.read r) :=
  .read settles fun _ _ _ _ => List.Sublist.refl seen

theorem Places.parent : Places seen (fun _ => seen) (MonadState.get : Parse (Option Parent)) := by
  intro ts parent a after rest read
  cases read
  exact ⟨[], rfl, by simp⟩

theorem Places.setParent (parent : Option Parent) :
    Places seen (fun _ => seen) (MonadStateOf.set parent : Parse PUnit) := by
  intro ts before a after rest read
  cases read
  exact ⟨[], rfl, by simp⟩

theorem Places.manyWithin {r : Parse (Option α)}
    (hr : Places [] (fun found => found.toList.flatMap P) r) (rounds : Nat) :
    Places [] (fun found => found.flatMap P) (Parse.manyWithin rounds r) := by
  induction rounds with
  | zero => exact .fail _
  | succ rounds ih =>
      apply hr.bind
      intro found
      cases found with
      | none => exact .pure (List.Sublist.refl _)
      | some a =>
          refine (ih.after _).bind fun more => .pure ?_
          simp [List.flatMap_cons]

theorem Places.many {r : Parse (Option α)}
    (hr : Places [] (fun found => found.toList.flatMap P) r) :
    Places [] (fun found => found.flatMap P) (Parse.many r) :=
  fun ts parent => hr.manyWithin (ts.length + 1) ts parent

end Parse

open Parse

/-! Blocks stand before what is read inside them. -/

section Blocks

variable {body : Parse (List Stmt)} (keyword : Token)

theorem guarded_places (hbody : Places [] placesOf body) :
    Places [] (fun g => placesOf g.2) (guarded body) :=
  (Places.consume fun _ => expr_settles).bind fun _ =>
    (Places.consume fun _ => expectClosing_settles).bind fun _ =>
      hbody.bind fun _ => .pure (List.Sublist.refl _)

theorem continued_places (keywords : List String) (hbody : Places [] placesOf body) :
    Places [] placesOf (continued keywords body) := by
  apply (Places.consume fun _ => atKeyword_settles _).bind
  intro found
  split
  · exact (Places.consume fun _ => skipKeyword_settles).bind fun _ =>
      (Places.consume fun _ => expectClosing_settles).bind fun _ => hbody
  · exact .pure (List.Sublist.refl _)

theorem branchBlock_places (hbody : Places [] placesOf body) :
    Places [keyword.pos] (fun s => placesOf [s]) (branchBlock keyword body) := by
  have further : Places [] (fun found => found.toList.flatMap fun g => placesOf g.2)
      (Parse.read (atKeyword ["elseif", "elif"]) >>= fun found =>
        if found = true then Parse.read skipKeyword >>= fun _ => guarded body >>= fun g =>
          pure (some g) else pure none) := by
    apply (Places.consume fun _ => atKeyword_settles _).bind
    intro found
    split
    · apply (Places.consume fun _ => skipKeyword_settles).bind
      intro _
      exact (guarded_places hbody).bind fun g => .pure (by simp)
    · exact .pure (List.Sublist.refl _)
  apply ((guarded_places hbody).after _).bind
  intro first
  apply ((Places.many further).after _).bind
  intro others
  apply ((continued_places _ hbody).after _).bind
  intro otherwise
  refine (Places.consume fun _ => endTag_settles _ _).bind fun _ => .pure ?_
  rw [placesOf_branch]
  exact List.Sublist.refl _

theorem loopBlock_places (hbody : Places [] placesOf body) :
    Places [keyword.pos] (fun s => placesOf [s]) (loopBlock keyword body) := by
  apply (Places.consume fun _ => loopTarget_settles).bind
  intro target
  apply (Places.consume fun _ => .accepts _).bind
  intro found
  cases found with
  | none => exact .fail _
  | some _ =>
      apply (Places.consume fun _ => expr_settles).bind
      intro items
      apply (Places.consume fun _ => expectClosing_settles).bind
      intro _
      apply (hbody.after _).bind
      intro each
      apply ((continued_places _ hbody).after _).bind
      intro empty
      refine (Places.consume fun _ => endTag_settles _ _).bind fun _ => .pure ?_
      rw [placesOf_loop]
      exact List.Sublist.refl _

theorem whileBlock_places (hbody : Places [] placesOf body) :
    Places [keyword.pos] (fun s => placesOf [s]) (whileBlock keyword body) := by
  apply ((guarded_places hbody).after _).bind
  intro each
  refine (Places.consume fun _ => endTag_settles _ _).bind fun _ => .pure ?_
  rw [placesOf_while]
  exact List.Sublist.refl _

theorem namedBlock_places (hbody : Places [] placesOf body) :
    Places [keyword.pos] (fun s => placesOf [s]) (namedBlock keyword body) := by
  apply (Places.consume fun _ => .accepts _).bind
  intro name
  cases name with
  | none => exact .fail _
  | some name =>
      apply (Places.consume fun _ => expectClosing_settles).bind
      intro _
      apply (hbody.after _).bind
      intro inner
      refine (Places.consume fun _ => endTag_settles _ _).bind fun _ => .pure ?_
      rw [placesOf_block]
      exact List.Sublist.refl _

theorem spacelessBlock_places (hbody : Places [] placesOf body) :
    Places [keyword.pos] (fun s => placesOf [s]) (spacelessBlock keyword body) := by
  apply (Places.consume fun _ => expectClosing_settles).bind
  intro _
  apply (hbody.after _).bind
  intro inner
  refine (Places.consume fun _ => endTag_settles _ _).bind fun _ => .pure ?_
  rw [placesOf_spaceless]
  exact List.Sublist.refl _

theorem autoescapeBlock_places {body : Bool → Parse (List Stmt)}
    (hbody : ∀ mode, Places [] placesOf (body mode)) :
    Places [keyword.pos] placesOf (autoescapeBlock keyword body) := by
  apply (Places.consume fun _ => escapeMode_settles).bind
  intro mode
  apply (Places.consume fun _ => expectClosing_settles).bind
  intro _
  apply ((hbody mode).after _).bind
  intro inner
  refine (Places.consume fun _ => endTag_settles _ _).bind fun _ => .pure ?_
  exact List.sublist_append_right _ _

end Blocks

theorem output_places (start : Token) (d : Delimiter) (escape : Bool) :
    Yields (fun s => (placesOf [s]).Sublist [start.pos]) (output start d escape) := by
  have more : Yields (fun s => (placesOf [s]).Sublist [start.pos])
      (output.more start d escape) :=
    .bind fun _ => .bind fun _ => .pure (List.Sublist.refl _)
  refine .bind fun t => ?_
  cases t with
  | none => exact more
  | some t =>
      dsimp only
      split
      · exact .failAt _ _
      · exact more

theorem setStatement_places (keyword : Token) :
    Yields (fun s => (placesOf [s]).Sublist [keyword.pos]) (setStatement keyword) :=
  .bind fun _ => .bind fun _ => .bind fun _ => .bind fun _ => .pure (List.Sublist.refl _)

theorem debugStatement_places (keyword : Token) :
    Yields (fun s => (placesOf [s]).Sublist [keyword.pos]) (debugStatement keyword) := by
  refine .bind fun closing => ?_
  cases closing with
  | some _ => exact .pure (List.Sublist.refl _)
  | none => exact .bind fun _ => .bind fun _ => .pure (List.Sublist.refl _)

theorem extendsStatement_places {seen : List Pos} (keyword : Token) (opened : Bool) :
    Places seen (fun _ => seen) (extendsStatement keyword opened) := by
  unfold extendsStatement
  split
  · exact .failAt _ _
  · apply Places.parent.bind
    intro parent
    cases parent with
    | some _ => exact .failAt _ _
    | none => exact (Places.consume fun _ => templateName_settles _).bind fun _ => .setParent _

section Statements

variable {limit : Int} {inside : Inside} {opened escape : Bool}

theorem statement_places {keyword : Token}
    (hinside : ∀ body ∈ inside, ∀ escape, Places [] placesOf (body escape)) :
    Places [keyword.pos] placesOf (statement limit inside opened escape keyword) := by
  have block : ∀ {reader : Token → Parse (List Stmt) → Parse Stmt},
      (∀ {body}, Places [] placesOf body →
        Places [keyword.pos] (fun s => placesOf [s]) (reader keyword body)) →
      Places [keyword.pos] placesOf (openBlock limit inside keyword fun body =>
        reader keyword (body escape) >>= fun s => pure [s]) := by
    intro reader hreader
    cases inside with
    | none => exact .failAt _ _
    | some body =>
        exact (hreader (hinside body rfl escape)).bind fun s => .pure (List.Sublist.refl _)
  unfold statement
  dsimp only
  split
  · exact block (branchBlock_places keyword)
  · exact block (loopBlock_places keyword)
  · exact block (whileBlock_places keyword)
  · exact block (namedBlock_places keyword)
  · exact block (spacelessBlock_places keyword)
  · cases inside with
    | none => exact .failAt _ _
    | some body => exact autoescapeBlock_places keyword (hinside body rfl)
  · exact (extendsStatement_places keyword opened).bind fun _ => .pure (List.nil_sublist _)
  · exact (Places.consume fun _ => templateName_settles _).bind fun _ =>
      .pure (List.Sublist.refl _)
  · exact (Places.read (fun _ => setStatement_settles keyword) (setStatement_places keyword)).bind
      fun _ => .pure (List.Sublist.refl _)
  · exact (Places.read (fun _ => debugStatement_settles keyword)
      (debugStatement_places keyword)).bind fun _ => .pure (List.Sublist.refl _)
  · exact .failAt _ _

theorem piece?_places
    (hinside : ∀ body ∈ inside, ∀ escape, Places [] placesOf (body escape)) :
    Places [] (fun found => found.toList.flatMap placesOf)
      (piece? limit inside opened escape) := by
  intro ts
  refine .peek ?_
  cases ts with
  | nil => exact Places.pure (List.Sublist.refl _) []
  | cons t others =>
      dsimp only [List.head?_cons]
      split
      · exact .skip (Places.pure (List.Sublist.refl _) others)
      · refine .peekNext ?_
        cases others with
        | nil => exact .skip (.fail _)
        | cons keyword more =>
            dsimp only [List.tail_cons, List.head?_cons]
            split
            · split
              · exact Places.pure (List.Sublist.refl _) _
              · exact .failAt _ _
            · refine .skip ?_
              split
              · refine .skip (PlacesFrom.bind (P := placesOf) ?_ fun piece => .pure ?_)
                · exact (statement_places hinside).weaken (List.sublist_append_right _ _) more
                · simp
              · exact .fail _
      · next d _ _ =>
          have given : Places [t.pos] (fun s => placesOf [s]) (Parse.read (output t d escape)) :=
            .read (fun _ => output_settles trivial _ _) (output_places t d escape)
          refine .skip (PlacesFrom.bind (P := fun s => placesOf [s]) (given others) fun s => ?_)
          exact .pure (by simp)
      · exact .fail _

theorem bodyWith_places
    (hinside : ∀ body ∈ inside, ∀ escape, Places [] placesOf (body escape)) :
    Places [] placesOf (bodyWith limit inside opened escape) := by
  apply (Places.many (piece?_places hinside)).bind
  intro pieces
  exact .pure (by rw [placesOf_flatten])

theorem body_places (room : Nat) (opened escape : Bool) :
    Places [] placesOf (body limit room opened escape) := by
  induction room generalizing opened escape with
  | zero =>
      rw [body]
      apply bodyWith_places
      intro inner impossible
      cases impossible
  | succ room ih =>
      rw [body]
      apply bodyWith_places
      intro inner given escape
      cases given
      exact ih true escape

end Statements

theorem template_places {limit : Int} {tokens : List Token} {t : Template}
    (written : template limit tokens = .ok t) :
    (placesOf t.body).Sublist (tokens.map Token.pos) := by
  unfold template at written
  split at written
  · cases written
  · next read =>
      cases written
      obtain ⟨taken, rfl, placed⟩ := body_places limit.toNat false true tokens none _ _ _ read
      rw [List.map_append]
      exact placed.trans (List.sublist_append_left _ _)

end Grammar

theorem Source.tokens_ok {s : Source} {stream : TokenStream} (read : s.tokens = .ok stream) :
    TokenStream.ofSource? s.text.toList = .ok stream := by
  unfold Source.tokens at read
  split at read
  · next given =>
      cases read
      exact given
  · cases read

theorem Source.template_ordered {s : Source} {limit : Int} {t : Template}
    (written : s.template limit = .ok t) :
    (Stmt.partsOf t.body).Pairwise fun first second => first.pos.Before second.pos := by
  obtain ⟨stream, read, parsed⟩ := Except.bind_ok written
  split at parsed
  · next given =>
      cases parsed
      have ordered := TokenStream.ordered_of_ofSource? (Source.tokens_ok read)
      rw [← List.pairwise_map (R := Pos.Before)] at ordered ⊢
      exact ordered.sublist (Grammar.template_places given)
  · cases parsed

end Stencil
