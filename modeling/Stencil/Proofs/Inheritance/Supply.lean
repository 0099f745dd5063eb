import Mathlib.Logic.Relation
import Stencil.Proofs.Assembly.Reads
import Stencil.Proofs.Inheritance.Filling

namespace Stencil.Plan

variable {p : Plan}

def Extends (p : Plan) (s parent : Source) : Prop :=
  ∃ t q sheet, p.parse s = .ok t ∧ t.parent = some q ∧ p.sheet q.template = .ok sheet ∧
    parent = ⟨sheet.text, some q.template, sheet.filename⟩

/-- The last source of a chain, and its template. -/
inductive Ends (p : Plan) : Source → Source → Template → Prop
  | here {s : Source} {t : Template} : p.parse s = .ok t → t.parent = none → Ends p s s t
  | further {s parent file : Source} {t : Template} : p.Extends s parent → Ends p parent file t →
      Ends p s file t

/-- The first source of a chain, before the last one, with a block of a name, and the body that it
gives for the block. -/
inductive Overrides (p : Plan) (name : String) : Source → Source → List Stmt → Prop
  | here {s parent : Source} {t : Template} {body : List Stmt} : p.Extends s parent →
      p.parse s = .ok t → (Stmt.blockTable t.body).lookup name = some body →
        Overrides p name s s body
  | further {s parent file : Source} {t : Template} {body : List Stmt} : p.Extends s parent →
      p.parse s = .ok t → (Stmt.blockTable t.body).lookup name = none →
        Overrides p name parent file body → Overrides p name s file body

/-- Whether a source of a chain writes a statement where the body of the chain takes it from. -/
inductive Supplies (p : Plan) (s file : Source) (own : Stmt) : Prop
  | last {t : Template} : p.Ends s file t → own ∈ Stmt.partsOf t.body → Supplies p s file own
  | block {name : String} {body : List Stmt} : p.Overrides name s file body →
      own ∈ Stmt.partsOf body → Supplies p s file own

section Line

variable {s : Source} {t root : Template} {line : List Template}

theorem ends_of_line (along : Chain.Line p.found t line root) (parsed : p.parse s = .ok t) :
    ∃ file, p.Ends s file root := by
  induction along generalizing s with
  | last hparent => exact ⟨s, .here parsed hparent⟩
  | next hparent loaded _ ih =>
      obtain ⟨sheet, read, parsedParent, _⟩ := found_ok loaded
      obtain ⟨file, ends⟩ := ih parsedParent
      exact ⟨file, .further ⟨_, _, sheet, parsed, hparent, read, rfl⟩ ends⟩

theorem overrides_of_winner (along : Chain.Line p.found t line root) (parsed : p.parse s = .ok t)
    {name : String} {body : List Stmt} (wins : Chain.winner line name = some body) :
    ∃ file, p.Overrides name s file body := by
  induction along generalizing s with
  | last => cases wins
  | @next t _ _ _ _ hparent loaded _ ih =>
      obtain ⟨sheet, read, parsedParent, _⟩ := found_ok loaded
      have isParent : p.Extends s _ := ⟨_, _, sheet, parsed, hparent, read, rfl⟩
      rw [Chain.winner, List.findSome?_cons] at wins
      cases own : (Stmt.blockTable t.body).lookup name with
      | some given =>
          rw [own] at wins
          cases wins
          exact ⟨s, .here isParent parsed own⟩
      | none =>
          rw [own] at wins
          obtain ⟨file, overrides⟩ := ih parsedParent wins
          exact ⟨file, .further isParent parsed own overrides⟩

end Line

/-- Every statement of a flattened template is one that a source of the chain supplies, up to what
it has inside. -/
theorem supplied_of_flatten {s : Source} {t : Template} {name : String}
    {flat : Template × List String} (parsed : p.parse s = .ok t)
    (flattened : p.flatten t name = .ok flat) {part : Stmt}
    (member : part ∈ Stmt.partsOf flat.1.body) :
    ∃ file own, p.Supplies s file own ∧ own.shell = part.shell := by
  obtain ⟨root, followed, rfl⟩ := Chain.flatten_ok flattened
  obtain ⟨line, along, tables⟩ := Chain.follow_line followed
  obtain ⟨_, ⟨own, inRoot, same⟩ | ⟨block, body, found, own, inBody, same⟩⟩ :=
    (Stmt.fillBlocks_fills root.table root.template.body).drawn part member
  · obtain ⟨file, ends⟩ := ends_of_line along parsed
    exact ⟨file, own, .last ends inRoot, same⟩
  · have wins : Chain.winner line block = some body := (tables block).symm.trans found
    obtain ⟨file, overrides⟩ := overrides_of_winner along parsed wins
    exact ⟨file, own, .block overrides inBody, same⟩

/-! The sources of a chain are told apart by their names. -/

open Relation

theorem Ends.descends {s file : Source} {t : Template} (ends : p.Ends s file t) :
    ReflTransGen p.Extends s file := by
  induction ends with
  | here => exact .refl
  | further isParent _ ih => exact .head isParent ih

theorem Overrides.descends {name : String} {s file : Source} {body : List Stmt}
    (overrides : p.Overrides name s file body) : ReflTransGen p.Extends s file := by
  induction overrides with
  | here => exact .refl
  | further isParent _ _ _ ih => exact .head isParent ih

theorem Supplies.descends {s file : Source} {own : Stmt} (supplies : p.Supplies s file own) :
    ReflTransGen p.Extends s file := by
  cases supplies with
  | last ends _ => exact ends.descends
  | block overrides _ => exact overrides.descends

theorem ancestor_of_descends {s file : Source} {t : Template}
    (descends : ReflTransGen p.Extends s file) (parsed : p.parse s = .ok t) :
    file = s ∨ ∃ name, Chain.Ancestor p.found t name ∧ file.name = some name := by
  induction descends using ReflTransGen.head_induction_on generalizing t with
  | refl => exact .inl rfl
  | @head s parent isParent rest ih =>
      obtain ⟨t', q, sheet, parsed', hparent, read, rfl⟩ := isParent
      rw [parsed] at parsed'
      cases parsed'
      rcases ReflTransGen.cases_head rest with rfl | ⟨_, ⟨t', _, _, parsedParent, _, _, _⟩, _⟩
      · exact .inr ⟨q.template, .parent hparent, rfl⟩
      · have loaded : p.found q.template = .ok ⟨t', sheet.filename⟩ := by
          rw [found, read]
          simp only [bind, Except.bind, parsedParent]
          rfl
        rcases ih parsedParent with rfl | ⟨name, ancestor, named⟩
        · exact .inr ⟨q.template, .parent hparent, rfl⟩
        · exact .inr ⟨name, .further hparent loaded ancestor, named⟩

/-- Where a chain can be flattened, no other source of it has the name of the first one, if that has
a name. -/
theorem Supplies.eq_of_name {s file : Source} {own : Stmt} {t : Template}
    {flat : Template × List String} (supplies : p.Supplies s file own)
    (parsed : p.parse s = .ok t)
    (flattened : p.flatten t (firstGiven [s.name] "<string>") = .ok flat)
    (same : s.name = file.name) : file = s ∨ s.name = some "" := by
  rcases ancestor_of_descends supplies.descends parsed with rfl | ⟨name, ancestor, named⟩
  · exact .inl rfl
  · obtain ⟨root, followed, _⟩ := Chain.flatten_ok flattened
    have fresh := Chain.follow_fresh followed ancestor
    rw [same, named] at fresh ⊢
    by_cases empty : name = ""
    · exact .inr (congrArg some empty)
    · simp [firstGiven, empty] at fresh

end Stencil.Plan
