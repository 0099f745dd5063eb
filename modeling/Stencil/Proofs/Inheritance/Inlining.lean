import Stencil.Proofs.Grammar.Page
import Stencil.Proofs.Inheritance.Filling

namespace Stencil

/-- Two results that are both there and related, or the same error. -/
inductive Except.Agree {ε α β : Type} (R : α → β → Prop) : Except ε α → Except ε β → Prop
  | ok {a : α} {b : β} : R a b → Agree R (.ok a) (.ok b)
  | error {e : ε} : Agree R (.error e) (.error e)

namespace Stmt

section Rules

/-! `flat` gives the statements that the includes of a name are replaced by. -/

variable (flat : String → Option (List Stmt))

mutual

/-- A statement, and what it is when some includes in it are replaced, and maybe some in what
replaces them. All else is written as before, but maybe in other places. -/
inductive Inlines : Stmt → List Stmt → Prop
  | inlined {p : Pos} {name : String} {body written : List Stmt} :
      flat name = some body → InlinesAll body written → Inlines (.include p name) written
  | include {p p' : Pos} {name : String} : Inlines (.include p name) [.include p' name]
  | branch {p p' : Pos} {condition condition' : Expr} {body body' otherwise otherwise' : List Stmt}
      {others others' : List (Expr × List Stmt)} :
      condition.erase = condition'.erase → InlinesAll body body' → InlinesOthers others others' →
        InlinesAll otherwise otherwise' →
        Inlines (branch p condition body others otherwise)
          [branch p' condition' body' others' otherwise']
  | loop {p p' : Pos} {target target' : Target} {items items' : Expr}
      {body body' empty empty' : List Stmt} :
      target.erase = target'.erase → items.erase = items'.erase → InlinesAll body body' →
        InlinesAll empty empty' →
        Inlines (loop p target items body empty) [loop p' target' items' body' empty']
  | while {p p' : Pos} {condition condition' : Expr} {body body' : List Stmt} :
      condition.erase = condition'.erase → InlinesAll body body' →
        Inlines (.while p condition body) [.while p' condition' body']
  | block {p p' : Pos} {name : String} {body body' : List Stmt} :
      InlinesAll body body' → Inlines (block p name body) [block p' name body']
  | spaceless {p p' : Pos} {body body' : List Stmt} :
      InlinesAll body body' → Inlines (spaceless p body) [spaceless p' body']
  | text {p p' : Pos} {value : String} : Inlines (text p value) [text p' value]
  | output {p p' : Pos} {value value' : Expr} {escape : Bool} :
      value.erase = value'.erase → Inlines (output p value escape) [output p' value' escape]
  | set {p p' : Pos} {target target' : Binder} {value value' : Expr} :
      target.name = target'.name → value.erase = value'.erase →
        Inlines (.set p target value) [.set p' target' value']
  | debug {p p' : Pos} {value value' : Option Expr} {label : String} :
      value.map Expr.erase = value'.map Expr.erase →
        Inlines (debug p value label) [debug p' value' label]

inductive InlinesAll : List Stmt → List Stmt → Prop
  | nil : InlinesAll [] []
  | cons {s : Stmt} {rest first more : List Stmt} :
      Inlines s first → InlinesAll rest more → InlinesAll (s :: rest) (first ++ more)

inductive InlinesOthers : List (Expr × List Stmt) → List (Expr × List Stmt) → Prop
  | nil : InlinesOthers [] []
  | cons {condition condition' : Expr} {body body' : List Stmt}
      {rest more : List (Expr × List Stmt)} :
      condition.erase = condition'.erase → InlinesAll body body' → InlinesOthers rest more →
        InlinesOthers ((condition, body) :: rest) ((condition', body') :: more)

end

end Rules

variable {flat : String → Option (List Stmt)}

mutual

theorem Inlines.refl : (s : Stmt) → Inlines flat s [s]
  | .text _ _ => .text
  | .output _ _ _ => .output rfl
  | .branch _ _ body others otherwise =>
      .branch rfl (InlinesAll.refl body) (InlinesOthers.refl others) (InlinesAll.refl otherwise)
  | .loop _ _ _ body empty => .loop rfl rfl (InlinesAll.refl body) (InlinesAll.refl empty)
  | .while _ _ body => .while rfl (InlinesAll.refl body)
  | .block _ _ body => .block (InlinesAll.refl body)
  | .include _ _ => .include
  | .set _ _ _ => .set rfl rfl
  | .spaceless _ body => .spaceless (InlinesAll.refl body)
  | .debug _ _ _ => .debug rfl

theorem InlinesAll.refl : (body : List Stmt) → InlinesAll flat body body
  | [] => .nil
  | s :: rest => .cons (Inlines.refl s) (InlinesAll.refl rest)

theorem InlinesOthers.refl : (others : List (Expr × List Stmt)) → InlinesOthers flat others others
  | [] => .nil
  | (_, body) :: rest => .cons rfl (InlinesAll.refl body) (InlinesOthers.refl rest)

end

theorem InlinesAll.append {first first' second second' : List Stmt}
    (here : InlinesAll flat first first') (further : InlinesAll flat second second') :
    InlinesAll flat (first ++ second) (first' ++ second') := by
  induction first generalizing first' with
  | nil =>
      cases here
      exact further
  | cons s rest ih =>
      cases here with
      | cons head tail =>
          rw [List.cons_append, List.append_assoc]
          exact .cons head (ih tail)

theorem InlinesAll.singleton {s : Stmt} {written : List Stmt} (inlines : Inlines flat s written) :
    InlinesAll flat [s] written := by
  have whole := InlinesAll.cons inlines .nil
  rwa [List.append_nil] at whole

/-! The blocks of a template, and bodies without any. -/

/-- Tables with the same names in the same order, and bodies in which includes are replaced. -/
abbrev TableInlines (flat : String → Option (List Stmt)) (table table' : BlockTable) : Prop :=
  List.Forall₂ (fun entry entry' => entry.1 = entry'.1 ∧ InlinesAll flat entry.2 entry'.2)
    table table'

theorem TableInlines.lookup {table table' : BlockTable} (inlines : TableInlines flat table table')
    (name : String) :
    Option.Rel (InlinesAll flat) (table.lookup name) (table'.lookup name) := by
  induction inlines with
  | nil => exact .none
  | @cons entry entry' _ _ same _ ih =>
      obtain ⟨key, body⟩ := entry
      obtain ⟨key', body'⟩ := entry'
      obtain ⟨rfl, inlined⟩ := same
      rw [List.lookup_cons, List.lookup_cons]
      dsimp only
      cases name == key with
      | true => exact .some inlined
      | false => exact ih

theorem blocksOf_append (first second : List Stmt) :
    blocksOf (first ++ second) = blocksOf first ++ blocksOf second := by
  induction first with
  | nil => rfl
  | cons s rest ih => rw [List.cons_append, blocksOf, blocksOf, ih, List.append_assoc]

theorem blocksOf_singleton (s : Stmt) : blocksOf [s] = s.blocks := by
  rw [blocksOf, blocksOf, List.append_nil]

def BlockFree (flat : String → Option (List Stmt)) : Prop :=
  ∀ name body, flat name = some body → blocksOf body = []

mutual

theorem Inlines.blocks (plain : BlockFree flat) {s : Stmt} {written : List Stmt} :
    Inlines flat s written → TableInlines flat s.blocks (blocksOf written)
  | .inlined found inner => by
      have inside := InlinesAll.blocks plain inner
      rw [plain _ _ found] at inside
      rw [Stmt.blocks]
      exact inside
  | .branch _ body others otherwise => by
      rw [blocksOf_singleton, Stmt.blocks, Stmt.blocks]
      exact List.rel_append
        (List.rel_append (InlinesAll.blocks plain body) (InlinesAll.blocks plain otherwise))
        (InlinesOthers.blocks plain others)
  | .loop _ _ body empty => by
      rw [blocksOf_singleton, Stmt.blocks, Stmt.blocks]
      exact List.rel_append (InlinesAll.blocks plain body) (InlinesAll.blocks plain empty)
  | .while _ body => by
      rw [blocksOf_singleton, Stmt.blocks, Stmt.blocks]
      exact InlinesAll.blocks plain body
  | .block body => by
      rw [blocksOf_singleton, Stmt.blocks, Stmt.blocks]
      exact .cons ⟨rfl, body⟩ (InlinesAll.blocks plain body)
  | .spaceless body => by
      rw [blocksOf_singleton, Stmt.blocks, Stmt.blocks]
      exact InlinesAll.blocks plain body
  | .include => .nil
  | .text => .nil
  | .output _ => .nil
  | .set _ _ => .nil
  | .debug _ => .nil

theorem InlinesAll.blocks (plain : BlockFree flat) {body written : List Stmt} :
    InlinesAll flat body written → TableInlines flat (blocksOf body) (blocksOf written)
  | .nil => .nil
  | .cons first rest => by
      rw [blocksOf, blocksOf_append]
      exact List.rel_append (Inlines.blocks plain first) (InlinesAll.blocks plain rest)

theorem InlinesOthers.blocks (plain : BlockFree flat) {others written : List (Expr × List Stmt)} :
    InlinesOthers flat others written →
      TableInlines flat (blocksOfOthers others) (blocksOfOthers written)
  | .nil => .nil
  | .cons _ body rest => by
      rw [blocksOfOthers, blocksOfOthers]
      exact List.rel_append (InlinesAll.blocks plain body) (InlinesOthers.blocks plain rest)

end

theorem InlinesAll.blockTable (plain : BlockFree flat) {body written : List Stmt}
    (inlines : InlinesAll flat body written) :
    TableInlines flat (blockTable body) (blockTable written) :=
  List.rel_reverse (inlines.blocks plain)

theorem InlinesAll.blocksOf_eq_nil (plain : BlockFree flat) {body written : List Stmt}
    (inlines : InlinesAll flat body written) (free : blocksOf body = []) :
    blocksOf written = [] := by
  have blocks := inlines.blocks plain
  rw [free] at blocks
  exact List.forall₂_nil_left_iff.mp blocks

section Fill

variable {winner winner' : String → Option (List Stmt)}

theorem FillsAll.append {active : List String} {first second filled filled' : List Stmt}
    (here : FillsAll winner active first filled) (further : FillsAll winner active second filled') :
    FillsAll winner active (first ++ second) (filled ++ filled') := by
  induction first generalizing filled with
  | nil =>
      cases here
      exact further
  | cons s rest ih =>
      cases here with
      | cons head tail =>
          rw [List.cons_append, List.append_assoc]
          exact .cons head (ih tail)

theorem FillsAll.singleton {active : List String} {s : Stmt} {filled : List Stmt}
    (fills : Fills winner active s filled) : FillsAll winner active [s] filled := by
  have whole := FillsAll.cons fills .nil
  rwa [List.append_nil] at whole

mutual

theorem fills_of_plain {active : List String} :
    (s : Stmt) → s.blocks = [] → Fills winner active s [s]
  | .text _ _, _ => .text
  | .output _ _ _, _ => .output
  | .branch _ _ body others otherwise, free => by
      simp only [blocks, List.append_eq_nil_iff] at free
      exact .branch (fillsAll_of_plain body free.1.1) (fillsOthers_of_plain others free.2)
        (fillsAll_of_plain otherwise free.1.2)
  | .loop _ _ _ body empty, free => by
      simp only [blocks, List.append_eq_nil_iff] at free
      exact .loop (fillsAll_of_plain body free.1) (fillsAll_of_plain empty free.2)
  | .while _ _ body, free => .while (fillsAll_of_plain body free)
  | .block _ _ _, free => nomatch free
  | .include _ _, _ => .include
  | .set _ _ _, _ => .set
  | .spaceless _ body, free => .spaceless (fillsAll_of_plain body free)
  | .debug _ _ _, _ => .debug

theorem fillsAll_of_plain {active : List String} :
    (body : List Stmt) → blocksOf body = [] → FillsAll winner active body body
  | [], _ => .nil
  | s :: rest, free => by
      simp only [blocksOf, List.append_eq_nil_iff] at free
      exact .cons (fills_of_plain s free.1) (fillsAll_of_plain rest free.2)

theorem fillsOthers_of_plain {active : List String} :
    (others : List (Expr × List Stmt)) → blocksOfOthers others = [] →
      FillsOthers winner active others others
  | [], _ => .nil
  | (_, body) :: rest, free => by
      simp only [blocksOfOthers, List.append_eq_nil_iff] at free
      exact .cons (fillsAll_of_plain body free.1) (fillsOthers_of_plain rest free.2)

end

mutual

theorem Fills.inlines (plain : BlockFree flat)
    (winners : ∀ name, Option.Rel (InlinesAll flat) (winner name) (winner' name))
    {active : List String} {s : Stmt} {filled written : List Stmt} :
    Fills winner active s filled → Inlines flat s written →
      ∃ filled', FillsAll winner' active written filled' ∧ InlinesAll flat filled filled'
  | .again inside body, .block inlined => by
      obtain ⟨filled', fills, related⟩ := FillsAll.inlines plain winners body inlined
      exact ⟨filled', .singleton (.again inside fills), related⟩
  | @Fills.winner _ _ _ name _ _ _ outside found body, .block _ => by
      have related := winners name
      rw [found] at related
      cases hwinner : winner' name with
      | none =>
          rw [hwinner] at related
          cases related
      | some other =>
          rw [hwinner] at related
          cases related with
          | some inlined =>
              obtain ⟨filled', fills, related⟩ := FillsAll.inlines plain winners body inlined
              exact ⟨filled', .singleton (.winner outside hwinner fills), related⟩
  | @Fills.own _ _ _ name _ _ outside missing body, .block inlined => by
      have related := winners name
      rw [missing] at related
      cases hwinner : winner' name with
      | none =>
          obtain ⟨filled', fills, related⟩ := FillsAll.inlines plain winners body inlined
          exact ⟨filled', .singleton (.own outside hwinner fills), related⟩
      | some other =>
          rw [hwinner] at related
          cases related
  | .branch body others otherwise, .branch same inBody inOthers inOtherwise => by
      obtain ⟨body', fillsBody, relatedBody⟩ := FillsAll.inlines plain winners body inBody
      obtain ⟨others', fillsOthers, relatedOthers⟩ :=
        FillsOthers.inlines plain winners others inOthers
      obtain ⟨otherwise', fillsRest, relatedRest⟩ :=
        FillsAll.inlines plain winners otherwise inOtherwise
      exact ⟨_, .singleton (.branch fillsBody fillsOthers fillsRest),
        .singleton (.branch same relatedBody relatedOthers relatedRest)⟩
  | .loop body empty, .loop target items inBody inEmpty => by
      obtain ⟨body', fillsBody, relatedBody⟩ := FillsAll.inlines plain winners body inBody
      obtain ⟨empty', fillsEmpty, relatedEmpty⟩ := FillsAll.inlines plain winners empty inEmpty
      exact ⟨_, .singleton (.loop fillsBody fillsEmpty),
        .singleton (.loop target items relatedBody relatedEmpty)⟩
  | .while body, .while same inBody => by
      obtain ⟨body', fills, related⟩ := FillsAll.inlines plain winners body inBody
      exact ⟨_, .singleton (.while fills), .singleton (.while same related)⟩
  | .spaceless body, .spaceless inBody => by
      obtain ⟨body', fills, related⟩ := FillsAll.inlines plain winners body inBody
      exact ⟨_, .singleton (.spaceless fills), .singleton (.spaceless related)⟩
  | .include, .include => ⟨_, .singleton .include, .singleton .include⟩
  | .include, .inlined found inner =>
      -- What replaces an include has no blocks, so nothing is filled in.
      ⟨_, fillsAll_of_plain _ (inner.blocksOf_eq_nil plain (plain _ _ found)),
        .singleton (.inlined found inner)⟩
  | .text, .text => ⟨_, .singleton .text, .singleton .text⟩
  | .output, .output same => ⟨_, .singleton .output, .singleton (.output same)⟩
  | .set, .set target same => ⟨_, .singleton .set, .singleton (.set target same)⟩
  | .debug, .debug same => ⟨_, .singleton .debug, .singleton (.debug same)⟩

theorem FillsAll.inlines (plain : BlockFree flat)
    (winners : ∀ name, Option.Rel (InlinesAll flat) (winner name) (winner' name))
    {active : List String} {body filled written : List Stmt} :
    FillsAll winner active body filled → InlinesAll flat body written →
      ∃ filled', FillsAll winner' active written filled' ∧ InlinesAll flat filled filled'
  | .nil, .nil => ⟨[], .nil, .nil⟩
  | .cons first rest, .cons inFirst inRest => by
      obtain ⟨first', fillsFirst, relatedFirst⟩ := Fills.inlines plain winners first inFirst
      obtain ⟨rest', fillsRest, relatedRest⟩ := FillsAll.inlines plain winners rest inRest
      exact ⟨_, fillsFirst.append fillsRest, relatedFirst.append relatedRest⟩

theorem FillsOthers.inlines (plain : BlockFree flat)
    (winners : ∀ name, Option.Rel (InlinesAll flat) (winner name) (winner' name))
    {active : List String} {others filled written : List (Expr × List Stmt)} :
    FillsOthers winner active others filled → InlinesOthers flat others written →
      ∃ filled', FillsOthers winner' active written filled' ∧ InlinesOthers flat filled filled'
  | .nil, .nil => ⟨[], .nil, .nil⟩
  | .cons body rest, .cons same inBody inRest => by
      obtain ⟨body', fillsBody, relatedBody⟩ := FillsAll.inlines plain winners body inBody
      obtain ⟨rest', fillsRest, relatedRest⟩ := FillsOthers.inlines plain winners rest inRest
      exact ⟨_, .cons fillsBody fillsRest, .cons same relatedBody relatedRest⟩

end

theorem fillBlocks_inlines (plain : BlockFree flat)
    {table table' : BlockTable} (tables : TableInlines flat table table')
    {body written : List Stmt} (inlines : InlinesAll flat body written) :
    InlinesAll flat (fillBlocks table body) (fillBlocks table' written) := by
  obtain ⟨filled, fills, related⟩ :=
    (fillBlocks_fills table body).inlines plain tables.lookup inlines
  rwa [fills.unique (fillBlocks_fills table' written)] at related

theorem blocksOf_fillBlocks (table : BlockTable) (body : List Stmt) :
    blocksOf (fillBlocks table body) = [] := by
  apply List.eq_nil_iff_forall_not_mem.mpr
  rintro ⟨name, inner⟩ member
  obtain ⟨p, part⟩ := block_mem_partsOf _ member
  exact ((fillBlocks_fills table body).drawn _ part).1 ⟨p, name, inner, rfl⟩

end Fill

end Stmt

/-- A template in which some includes are replaced. Its parent is the same. -/
structure Template.Inlines (flat : String → Option (List Stmt)) (t t' : Template) : Prop where
  parent : t.parent.map Parent.template = t'.parent.map Parent.template
  body : Stmt.InlinesAll flat t.body t'.body

theorem Template.Inlines.refl {flat : String → Option (List Stmt)} (t : Template) :
    t.Inlines flat t :=
  ⟨rfl, .refl t.body⟩

/-- Templates that were found, one of them with includes replaced. The files may be any. -/
def Found.Inlines (flat : String → Option (List Stmt)) (found found' : Found) : Prop :=
  found.template.Inlines flat found'.template

namespace Chain

open Stmt

structure Root.Inlines (flat : String → Option (List Stmt)) (root root' : Root) : Prop where
  template : root.template.Inlines flat root'.template
  table : TableInlines flat root.table root'.table

variable {ε : Type} {load load' : String → Except ε Found} {refuse : Diagnostic → ε}
  {maxDepth : Int} {flat : String → Option (List Stmt)}

/-- Where the parents have includes replaced, the same way leads to the last of them. -/
theorem follow_inlines (plain : BlockFree flat)
    (loads : ∀ name, Except.Agree (Found.Inlines flat) (load name) (load' name))
    {room : Nat} {names : List String} {table table' : BlockTable} {files files' : List String}
    {t t' : Template} (inlines : t.Inlines flat t') (tables : TableInlines flat table table') :
    Except.Agree (Root.Inlines flat)
      (follow load refuse maxDepth room names table files t)
      (follow load' refuse maxDepth room names table' files' t') := by
  have parents := inlines.parent
  cases hparent : t.parent with
  | none =>
      rw [hparent] at parents
      rw [follow_last hparent, follow_last (Option.map_eq_none_iff.mp parents.symm)]
      exact .ok ⟨inlines, tables⟩
  | some q =>
      rw [hparent] at parents
      obtain ⟨q', hparent', same⟩ := Option.map_eq_some_iff.mp parents.symm
      rw [follow.eq_def, follow.eq_def load']
      dsimp only
      rw [hparent, hparent']
      dsimp only
      rw [same]
      split
      · exact .error
      · cases room with
        | zero => exact .error
        | succ room =>
            have loaded := loads q.template
            dsimp only
            generalize load q.template = r at loaded ⊢
            generalize load' q.template = r' at loaded ⊢
            cases loaded with
            | error => exact .error
            | ok further =>
                exact follow_inlines plain loads further
                  (List.rel_append tables (inlines.body.blockTable plain))

theorem flatten_inlines (plain : BlockFree flat)
    (loads : ∀ name, Except.Agree (Found.Inlines flat) (load name) (load' name))
    {t t' : Template} (inlines : t.Inlines flat t') (name : String) :
    Except.Agree (fun whole whole' => InlinesAll flat whole.1.body whole'.1.body)
      (flatten load refuse maxDepth t name) (flatten load' refuse maxDepth t' name) := by
  have followed : Except.Agree (Root.Inlines flat)
      (follow load refuse maxDepth maxDepth.toNat [name] [] [] t)
      (follow load' refuse maxDepth maxDepth.toNat [name] [] [] t') :=
    follow_inlines plain loads inlines .nil
  unfold flatten
  generalize follow load refuse maxDepth maxDepth.toNat [name] [] [] t = r at followed ⊢
  generalize follow load' refuse maxDepth maxDepth.toNat [name] [] [] t' = r' at followed ⊢
  cases followed with
  | error => exact .error
  | ok related => exact .ok (fillBlocks_inlines plain related.table related.template.body)

end Chain

end Stencil
