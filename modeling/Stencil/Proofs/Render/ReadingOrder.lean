import Mathlib.Data.List.Flatten
import Stencil.Proofs.Grammar.Printer
import Stencil.Proofs.Render.Scope
import Stencil.Proofs.Render.Turns

/-!
What is heard of an expression, in the order in which it is read. Every report and every note comes
from a deed of some part, and the deeds follow each other as the parts stand in the text; only a
chain that begins with a search for an item looks into the container first.
-/

namespace Stencil

open Eval Lexeme

/-! Operands are numbered as they are written. -/

theorem Lexeme.sublist_separated (separator : Lexeme) (parts : List (List Lexeme)) :
    parts.flatten.Sublist (separated separator parts) := by
  cases parts with
  | nil => exact .refl _
  | cons first rest =>
      have after : rest.flatten.Sublist (rest.flatMap (separator :: ·)) := by
        rw [← List.flatMap_id]
        exact .flatMap_right rest fun _ _ => List.sublist_cons_self _ _
      exact (List.Sublist.refl first).append after

theorem Lexeme.sublist_parenthesized (ls : List Lexeme) : ls.Sublist (parenthesized ls) :=
  (List.sublist_append_left ls _).cons _

namespace Expr

theorem sublist_enclosed (outer inner : Level) (ls : List Lexeme) :
    ls.Sublist (enclosed outer inner ls) := by
  unfold enclosed
  split
  · exact .refl _
  · exact sublist_parenthesized _

theorem sublist_parts (outer : Level) (es : List Expr) :
    (es.flatMap lexemes).Sublist (parts outer es).flatten := by
  rw [parts_eq_map, ← List.flatMap_def]
  exact .flatMap_right es fun _ _ => sublist_enclosed _ _ _

theorem sublist_entryParts (entries : List (Expr × Expr)) :
    ((entries.flatMap fun (key, value) => [key, value]).flatMap lexemes).Sublist
      (entryParts entries).flatten := by
  rw [entryParts_eq_map, ← List.flatMap_def, List.flatMap_assoc]
  refine .flatMap_right entries fun entry _ => ?_
  have written : ∀ ls : List Lexeme, ls.Sublist (keyed ls) := by
    intro ls
    unfold keyed
    split
    · exact sublist_parenthesized _
    · exact .refl _
  simp only [List.flatMap_cons, List.flatMap_nil, List.append_nil]
  exact (written _).append (List.sublist_cons_self _ _)

theorem sublist_namedParts (named : List (String × Expr)) :
    ((named.map Prod.snd).flatMap lexemes).Sublist (namedParts named).flatten := by
  rw [namedParts_eq_map, ← List.flatMap_def, List.flatMap_map]
  exact .flatMap_right named fun argument _ => (List.sublist_cons_self _ _).cons _

theorem sublist_linkParts (links : List (CompareOp × Expr)) :
    ((links.map Prod.snd).flatMap lexemes).Sublist (linkParts links).flatten := by
  rw [linkParts_eq_map, ← List.flatMap_def, List.flatMap_map]
  exact .flatMap_right links fun _ _ =>
    (sublist_enclosed _ _ _).trans (List.sublist_append_right _ _)

theorem sublist_arguments (args : List Expr) (named : List (String × Expr)) :
    ((args ++ named.map Prod.snd).flatMap lexemes).Sublist
      (separated (symbol .comma) (parts .choice args ++ namedParts named)) := by
  refine .trans ?_ (sublist_separated _ _)
  rw [List.flatMap_append, List.flatten_append]
  exact (sublist_parts _ args).append (sublist_namedParts named)

theorem sublist_optionalArguments (ls : List (List Lexeme)) :
    (separated (symbol .comma) ls).Sublist (optionalArguments ls) := by
  cases ls with
  | nil => exact .refl _
  | cons first rest => exact sublist_parenthesized _

theorem operands_written (e : Expr) : (e.operands.flatMap lexemes).Sublist e.lexemes := by
  cases e with
  | const p value => exact List.nil_sublist _
  | name p n => exact List.nil_sublist _
  | list p items =>
      refine .cons _ (.trans ?_ (List.sublist_append_left _ _))
      exact (sublist_parts .choice items).trans (sublist_separated _ _)
  | dict p entries =>
      refine .cons _ (.trans ?_ (List.sublist_append_left _ _))
      exact (sublist_entryParts entries).trans (sublist_separated _ _)
  | logic p op parts => exact (sublist_parts _ parts).trans (sublist_separated _ _)
  | concat p parts => exact (sublist_parts _ parts).trans (sublist_separated _ _)
  | call p callee args named =>
      have given := (sublist_arguments args named).trans (sublist_parenthesized _)
      cases callee with
      | name q n => exact given.trans (List.sublist_append_right _ _)
      | _ => exact (sublist_enclosed _ _ _).append given
  | filter p value n args named =>
      have given := (sublist_arguments args named).trans (sublist_optionalArguments _)
      exact (sublist_enclosed _ _ _).append ((given.cons _).cons _)
  | test p value n args negated =>
      have given := ((sublist_parts .choice args).trans (sublist_separated _ _)).trans
        (sublist_optionalArguments _)
      refine (sublist_enclosed _ _ _).append (.cons _ ?_)
      exact (given.cons _).trans (List.sublist_append_right _ _)
  | compare p first links => exact (sublist_enclosed _ _ _).append (sublist_linkParts links)
  | attr p object n =>
      simp only [operands, List.flatMap_cons, List.flatMap_nil, List.append_nil]
      exact (sublist_enclosed _ _ _).trans (List.sublist_append_left _ _)
  | sign p op operand =>
      simp only [operands, List.flatMap_cons, List.flatMap_nil, List.append_nil]
      exact (sublist_enclosed _ _ _).cons _
  | item p object key =>
      simp only [operands, List.flatMap_cons, List.flatMap_nil, List.append_nil]
      exact (sublist_enclosed _ _ _).append (.cons _ (List.sublist_append_left _ _))
  | arith p op left right =>
      simp only [operands, List.flatMap_cons, List.flatMap_nil, List.append_nil]
      exact (sublist_enclosed _ _ _).append (.cons _ (sublist_enclosed _ _ _))
  | range p first last =>
      simp only [operands, List.flatMap_cons, List.flatMap_nil, List.append_nil]
      exact (sublist_enclosed _ _ _).append (.cons _ (sublist_enclosed _ _ _))
  | choice p condition ifTrue ifFalse =>
      simp only [operands, List.flatMap_cons, List.flatMap_nil, List.append_nil]
      refine (sublist_enclosed _ _ _).append (.cons _ ?_)
      exact (List.Sublist.refl _).append (List.sublist_cons_self _ _)

/-! The parts of an expression, by their paths. -/

def at? : Expr → (path : List Nat) → Option Expr
  | e, [] => some e
  | e, i :: path => e.operands[i]?.bind fun o => o.at? path

/-- The order in which parts are done with: operands by their turns, and what an expression does
itself after what its operands do. -/
def Earlier : Expr → (path later : List Nat) → Prop
  | _, [], _ => False
  | _, _ :: _, [] => True
  | e, i :: path, j :: later =>
      e.head.turn i < e.head.turn j ∨
        i = j ∧ ∃ o, e.operands[i]? = some o ∧ o.Earlier path later

/-- Whether no part of an expression looks into a container before it looks for the item. -/
def SearchFree (e : Expr) : Prop :=
  ∀ path part, e.at? path = some part → part.head.searchesFirst = false

end Expr

/-- The order in which parts are read, as far as it can be kept: what an expression does itself
comes after what its operands do. -/
def InReadingOrder : (path later : List Nat) → Prop
  | [], _ => False
  | _ :: _, [] => True
  | i :: path, j :: later => i < j ∨ i = j ∧ InReadingOrder path later

theorem Head.lt_of_turn_lt {f : Head} (inOrder : f.searchesFirst = false) {i j : Nat}
    (earlier : f.turn i < f.turn j) : i < j := by
  unfold turn searchesFirst at *
  grind

theorem Expr.Earlier.inReadingOrder {e : Expr} {path later : List Nat}
    (earlier : e.Earlier path later) (free : e.SearchFree) : InReadingOrder path later := by
  induction path generalizing e later with
  | nil => exact earlier
  | cons i path ih =>
      cases later with
      | nil => trivial
      | cons j later =>
          rcases earlier with sooner | ⟨same, o, operand, within⟩
          · exact .inl (Head.lt_of_turn_lt (free [] e rfl) sooner)
          · refine .inr ⟨same, ih within fun path part found => free (i :: path) part ?_⟩
            simp only [at?, operand, Option.bind_some, found]

/-! Deeds of parts. -/

/-- An act of a part that can be heard, with the worlds before and after it, and its fault if it
fails. -/
structure Deed where
  path : List Nat
  before : World
  fault : Option Fault
  after : World

namespace Deed

def Of (s : Setting) (e : Expr) (d : Deed) : Prop :=
  ∃ part, e.at? d.path = some part ∧ ∃ (β : Type) (x : Eval β), part.head.Acts s x ∧
    fault? (x.run d.before).1 = d.fault ∧ (x.run d.before).2 = d.after

def inside (i : Nat) (d : Deed) : Deed := { d with path := i :: d.path }

theorem Of.inside {s : Setting} {e o : Expr} {i : Nat} (operand : e.operands[i]? = some o)
    {d : Deed} (of : d.Of s o) : (d.inside i).Of s e := by
  obtain ⟨part, found, acts⟩ := of
  refine ⟨part, ?_, acts⟩
  simp only [Deed.inside, Expr.at?, operand, Option.bind_some, found]

end Deed

/-- What is heard between two worlds, deed by deed. Nothing else is heard, no deed but the last one
fails, and its fault is the one that the whole comes to. -/
inductive Heard : World → List Deed → Option Fault → World → Prop
  | silence {w u : World} {fault : Option Fault} : u.heard = w.heard → Heard w [] fault u
  | fine {w u : World} {d : Deed} {ds : List Deed} {fault : Option Fault} :
      d.before.heard = w.heard → d.fault = none → Heard d.after ds fault u →
      Heard w (d :: ds) fault u
  | fails {w u : World} {d : Deed} {fault : Fault} :
      d.before.heard = w.heard → d.fault = some fault → u.heard = d.after.heard →
      Heard w [d] (some fault) u

namespace Heard

variable {w m u : World} {ds more : List Deed} {fault : Option Fault}

theorem from_alike (heard : Heard w ds fault u) (alike : w.heard = m.heard) :
    Heard m ds fault u := by
  cases heard with
  | silence silent => exact .silence (silent.trans alike)
  | fine same none rest => exact .fine (same.trans alike) none rest
  | fails same some rest => exact .fails (same.trans alike) some rest

theorem to_alike (heard : Heard w ds fault u) (alike : m.heard = u.heard) :
    Heard w ds fault m := by
  induction heard with
  | silence silent => exact .silence (alike.trans silent)
  | fine same none _ ih => exact .fine same none (ih alike)
  | fails same some rest => exact .fails same some (alike.trans rest)

theorem append (first : Heard w ds none m) (second : Heard m more fault u) :
    Heard w (ds ++ more) fault u := by
  generalize ends : (none : Option Fault) = ended at first
  induction first with
  | silence silent => exact second.from_alike silent
  | fine same none _ ih => exact .fine same none (ih second ends)
  | fails _ _ _ => cases ends

theorem inside (heard : Heard w ds fault u) (i : Nat) :
    Heard w (ds.map (Deed.inside i)) fault u := by
  induction heard with
  | silence silent => exact .silence silent
  | fine same none _ ih => exact .fine same none ih
  | fails same some rest => exact .fails same some rest

theorem fault_of_mem (heard : Heard w ds fault u) {d : Deed} (mem : d ∈ ds)
    (fails : d.fault.isSome) : d.fault = fault := by
  induction heard with
  | silence _ => cases mem
  | fine _ none _ ih =>
      rcases List.mem_cons.mp mem with rfl | later
      · simp [none] at fails
      · exact ih later
  | fails _ some _ =>
      rw [List.mem_singleton.mp mem, some]

end Heard

/-- An account of a run of an expression: deeds of its parts, in the order in which the parts are
done with, that make up all that is heard. -/
structure Accounts (s : Setting) (e : Expr) (w : World) (ds : List Deed) (fault : Option Fault)
    (u : World) : Prop where
  deeds : ∀ d ∈ ds, d.Of s e
  heard : Heard w ds fault u
  ordered : ds.Pairwise fun d later => e.Earlier d.path later.path

namespace Accounts

variable {s : Setting} {e : Expr} {w u : World}

theorem silence (silent : u.heard = w.heard) (fault : Option Fault) :
    Accounts s e w [] fault u :=
  ⟨List.forall_mem_nil _, .silence silent, .nil⟩

theorem own {β : Type} {x : Eval β} (acts : e.head.Acts s x) :
    Accounts s e w [⟨[], w, fault? (x.run w).1, (x.run w).2⟩] (fault? (x.run w).1) (x.run w).2 where
  deeds := by
    intro d mem
    rw [List.mem_singleton.mp mem]
    exact ⟨e, rfl, β, x, acts, rfl, rfl⟩
  heard := by
    cases ended : fault? (x.run w).1 with
    | none => exact .fine rfl rfl (.silence rfl)
    | some fault => exact .fails rfl rfl rfl
  ordered := List.pairwise_singleton _ _

theorem inside {o : Expr} {i : Nat} {ds : List Deed} {fault : Option Fault}
    (account : Accounts s o w ds fault u) (operand : e.operands[i]? = some o) :
    Accounts s e w (ds.map (Deed.inside i)) fault u where
  deeds := by
    intro d mem
    obtain ⟨inner, within, rfl⟩ := List.mem_map.mp mem
    exact (account.deeds inner within).inside operand
  heard := account.heard.inside i
  ordered := by
    refine List.pairwise_map.mpr (account.ordered.imp fun earlier => ?_)
    exact .inr ⟨rfl, o, operand, earlier⟩

theorem alike {v m : World} {ds : List Deed} {fault : Option Fault}
    (account : Accounts s e w ds fault u) (before : w.heard = v.heard) (after : m.heard = u.heard) :
    Accounts s e v ds fault m :=
  ⟨account.deeds, (account.heard.from_alike before).to_alike after, account.ordered⟩

theorem append {m : World} {ds more : List Deed} {fault : Option Fault}
    (first : Accounts s e w ds none m) (second : Accounts s e m more fault u)
    (across : ∀ d ∈ ds, ∀ later ∈ more, e.Earlier d.path later.path) :
    Accounts s e w (ds ++ more) fault u where
  deeds := List.forall_mem_append.mpr ⟨first.deeds, second.deeds⟩
  heard := first.heard.append second.heard
  ordered := List.pairwise_append.mpr ⟨first.ordered, second.ordered, across⟩

end Accounts

def Accounted (s : Setting) (e : Expr) : Prop :=
  ∀ w, ∃ ds, Accounts s e w ds (fault? ((evaluate s e).run w).1) ((evaluate s e).run w).2

section Accounted

variable {s : Setting} {e : Expr}

theorem answer_accounted (operands : ∀ o ∈ e.operands, Accounted s o) (quiet : Bool) (i : Nat)
    (w : World) :
    ∃ ds, Accounts s e w ds
        (fault? ((Routine.answer (e.operands.map (evaluate s)) quiet i).run w).1)
        ((Routine.answer (e.operands.map (evaluate s)) quiet i).run w).2 ∧
      ∀ d ∈ ds, ∃ path, d.path = i :: path := by
  cases operand : e.operands[i]? with
  | none =>
      refine ⟨[], .silence ?_ _, List.forall_mem_nil _⟩
      cases quiet <;> simp [Routine.answer, operand, run_quietly, World.heard]
  | some o =>
      have accounted := operands o (List.mem_of_getElem? operand)
      have belongs : ∀ ds : List Deed, ∀ d ∈ ds.map (Deed.inside i),
          ∃ path, d.path = i :: path := by
        intro ds d mem
        obtain ⟨inner, _, rfl⟩ := List.mem_map.mp mem
        exact ⟨inner.path, rfl⟩
      -- Whether the operand is quiet cannot be heard by itself.
      cases quiet with
      | false =>
          obtain ⟨ds, account⟩ := accounted w
          refine ⟨_, ?_, belongs ds⟩
          simpa [Routine.answer, operand] using account.inside operand
      | true =>
          obtain ⟨ds, account⟩ := accounted { w with quiet := w.quiet + 1 }
          refine ⟨_, ?_, belongs ds⟩
          simp only [Routine.answer, List.getElem?_map, operand, Option.map_some,
            Option.getD_some, ↓reduceIte, run_quietly]
          generalize (evaluate s o).run { w with quiet := w.quiet + 1 } = ended at account
          exact (account.inside operand).alike rfl rfl

theorem Orderly.accounted {k : Nat} {r : Routine Value} (orderly : Orderly s e.head k r)
    (operands : ∀ o ∈ e.operands, Accounted s o) (w : World) :
    ∃ ds, Accounts s e w ds (fault? ((r.eval (e.operands.map (evaluate s))).run w).1)
        ((r.eval (e.operands.map (evaluate s))).run w).2 ∧
      ∀ d ∈ ds, ∀ i path, d.path = i :: path → k ≤ e.head.turn i := by
  induction orderly generalizing w with
  | done _ => exact ⟨[], .silence rfl _, List.forall_mem_nil _⟩
  | @silent k β x next silent _ _ ih =>
      have unheard := silent w
      rw [Routine.eval, Step.run_bind]
      generalize x.run w = ended at unheard
      obtain ⟨fault | b, m⟩ := ended
      · exact ⟨[], .silence unheard _, List.forall_mem_nil _⟩
      · obtain ⟨ds, account, later⟩ := ih b m
        exact ⟨ds, account.alike unheard rfl, later⟩
  | look _ _ ih => exact ih w w
  | @own k β x value acts _ =>
      have account := Accounts.own (w := w) acts
      rw [Routine.eval, Step.run_bind]
      generalize x.run w = ended at account
      obtain ⟨fault | b, m⟩ := ended
      · exact ⟨_, account, by simp⟩
      · exact ⟨_, account, by simp⟩
  | @ask k quiet i next same _ _ _ ih =>
      obtain ⟨ds, account, belongs⟩ := answer_accounted operands quiet i w
      have now : ∀ d ∈ ds, ∀ j path, d.path = j :: path → k ≤ e.head.turn j := by
        intro d mem j path nested
        obtain ⟨_, within⟩ := belongs d mem
        cases within.symm.trans nested
        exact Nat.le_of_eq same.symm
      rw [Routine.eval, Step.run_bind]
      generalize (Routine.answer (e.operands.map (evaluate s)) quiet i).run w = ended at account
      obtain ⟨fault | v, m⟩ := ended
      · exact ⟨ds, account, now⟩
      · obtain ⟨more, rest, later⟩ := ih v m
        -- The deeds of this operand have its turn, those of the rest later turns or none.
        have across : ∀ d ∈ ds, ∀ d' ∈ more, e.Earlier d.path d'.path := by
          intro d mem d' mem'
          obtain ⟨path, within⟩ := belongs d mem
          rw [within]
          cases nested : d'.path with
          | nil => trivial
          | cons j path' => exact .inl (same ▸ later d' mem' j path' nested)
        refine ⟨ds ++ more, account.append rest across, List.forall_mem_append.mpr ⟨now, ?_⟩⟩
        intro d mem j path nested
        exact Nat.le_of_succ_le (later d mem j path nested)

theorem evaluate_accounted (s : Setting) (e : Expr) : Accounted s e := by
  induction e using Expr.operandInduction with
  | step e ih =>
      intro w
      obtain ⟨ds, account, _⟩ := (e.head.routine_orderly s).accounted ih w
      rw [← evaluate_eq_eval] at account
      exact ⟨ds, account⟩

end Accounted

/-- In a strict setting a report is the last thing that is heard, and the render fails on it. -/
theorem Accounts.strict {s : Setting} {e : Expr} {w u : World} {ds : List Deed}
    {fault : Option Fault} (account : Accounts s e w ds fault u) (strict : s.strict) :
    ∀ d ∈ ds, d.after.references = d.before.references ∨
      ∃ r, d.after.references = d.before.references ++ [r] ∧ fault = some (s.undefinedFault r) := by
  intro d mem
  obtain ⟨part, _, β, x, acts, ended, after⟩ := account.deeds d mem
  rw [← after]
  refine (acts.failsAtReport strict d.before).imp_right fun ⟨r, reported, failed⟩ => ?_
  rw [ended] at failed
  exact ⟨r, reported, (account.heard.fault_of_mem mem (by simp [failed])).symm.trans failed⟩

/-! The main result. -/

theorem length_pairs (entries : List (Expr × Expr)) :
    (entries.flatMap fun (key, value) => [key, value]).length = 2 * entries.length := by
  induction entries with
  | nil => rfl
  | cons entry rest ih =>
      simp only [List.flatMap_cons, List.length_append, ih, List.length_cons, List.length_nil]
      omega

theorem Expr.lt_of_turn_lt {e : Expr} {i : Nat} (among : e.head.turn i < e.head.turns) :
    i < e.operands.length := by
  cases e with
  | dict p entries =>
      rw [operands, length_pairs]
      exact among
  | call p callee args named =>
      cases callee <;> simp [head, operands, Head.turn, Head.turns] at among ⊢ <;> omega
  | compare p first links =>
      cases links with
      | nil => simpa [head, operands, Head.turn, Head.turns] using among
      | cons link rest =>
          simp only [head, operands, Head.turns, List.length_cons, List.length_map,
            List.map_cons] at among ⊢
          unfold Head.turn at among
          grind
  | choice p condition ifTrue ifFalse =>
      simp only [head, operands, Head.turns, List.length_cons, List.length_nil] at among ⊢
      unfold Head.turn at among
      grind
  | _ => simp [head, operands, Head.turn, Head.turns] at among ⊢ <;> omega

theorem Expr.pairwise_evaluated (s : Setting) (e : Expr) (w : World) :
    (e.evaluated s w).Pairwise fun i j => e.head.turn i < e.head.turn j := by
  have increasing := List.pairwise_lt_range.sublist (e.evaluated_turns s w).sublist
  exact List.pairwise_map.mp increasing

/-- Operands are numbered as they are written, and they are evaluated turn by turn, once each, until
a value decides or something fails. What is heard of the run are deeds of the parts in the same
order; in a strict setting the first report ends it. All this is the order of reading, but for the
chains that begin with a search for an item: these evaluate their second operand first. -/
theorem evaluate_inReadingOrder (s : Setting) (e : Expr) (w : World) :
    (e.operands.flatMap Expr.lexemes).Sublist e.lexemes ∧
    (∀ i ∈ e.evaluated s w, i < e.operands.length) ∧
    (e.evaluated s w).map e.head.turn <+: List.range e.head.turns ∧
    (∀ v u, (evaluate s e).run w = (.ok v, u) →
      (e.evaluated s w).map e.head.turn = List.range e.head.turns ∨ e.head.endsWith v) ∧
    (e.head.searchesFirst = false → (e.evaluated s w).Pairwise (· < ·)) ∧
    ∃ ds, Accounts s e w ds (fault? ((evaluate s e).run w).1) ((evaluate s e).run w).2 ∧
      (s.strict → ∀ d ∈ ds, d.after.references = d.before.references ∨
        ∃ r, d.after.references = d.before.references ++ [r] ∧
          fault? ((evaluate s e).run w).1 = some (s.undefinedFault r)) ∧
      (e.SearchFree → ds.Pairwise fun d later => InReadingOrder d.path later.path) := by
  obtain ⟨ds, account⟩ := evaluate_accounted s e w
  refine ⟨e.operands_written, ?_, e.evaluated_turns s w, fun v u => Expr.evaluated_all, ?_,
    ds, account, account.strict, ?_⟩
  · intro i mem
    have turn := (e.evaluated_turns s w).subset (List.mem_map_of_mem mem)
    exact Expr.lt_of_turn_lt (List.mem_range.mp turn)
  · exact fun inOrder => (e.pairwise_evaluated s w).imp (Head.lt_of_turn_lt inOrder)
  · exact fun free => account.ordered.imp fun earlier => earlier.inReadingOrder free

/-! Two missing variables, compared and searched. -/

def comparing (op : CompareOp) : Expr := .compare .start (.name .start "a") [(op, .name .start "b")]

theorem comparing_searchFree {op : CompareOp} (native : op.isMembership = false) :
    (comparing op).SearchFree := by
  intro path part found
  match path with
  | [] =>
      cases found
      exact native
  | [0] | [1] =>
      cases found
      rfl
  | 0 :: _ :: _ | 1 :: _ :: _ | (_ + 2) :: _ => cases found

theorem evaluate_inReadingOrder_comparing : ∃ ds u,
    Accounts plainSetting (comparing .lt) (World.start ⟨[], []⟩ #[]) ds none u ∧
      (ds.Pairwise fun d later => InReadingOrder d.path later.path) ∧
      u.references.map (·.name) = ["a", "b"] := by
  obtain ⟨_, _, _, _, _, ds, account, _, inOrder⟩ :=
    evaluate_inReadingOrder plainSetting (comparing .lt) (World.start ⟨[], []⟩ #[])
  exact ⟨ds, _, account, inOrder (comparing_searchFree rfl), rfl⟩

/-- A search evaluates the container before the item, against the order of reading. -/
theorem search_backwards : ¬ ∀ (s : Setting) (e : Expr) (w : World),
    (e.evaluated s w).Pairwise (· < ·) := by
  intro forwards
  have order := forwards plainSetting (comparing .isIn) (World.start ⟨[], []⟩ #[])
  have backwards : (comparing .isIn).evaluated plainSetting (World.start ⟨[], []⟩ #[]) = [1, 0] :=
    rfl
  simp [backwards] at order

end Stencil
