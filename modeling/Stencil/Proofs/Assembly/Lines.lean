import Stencil.Proofs.Assembly.Tags
import Stencil.Proofs.Render.Lines

namespace Stencil

open Code

section Lines

variable (s : Setting) (written : Stmt → Prop) (expansion : String → List Code → Prop)

/-- Whether a statement of code, which begins in one world and does something in another one, finds
the line there that tells where it is written. It is the tag of a written statement, and begins
right after the mark of its line; or it belongs to what a written include expands to, after the mark
of the include. Only where a round of a `while` has just ended the line is not the one of the tag,
but the one that the round has left. -/
inductive TellsLine (code : List Code) (start : World) (c : Code) (here there : World) : Prop
  | own {own : Stmt} {before : World} {rest : List Code} : written own → own.TagOf c →
      Comes s code start (.mark own.pos.line :: c :: rest) before →
      here = { before with line := own.pos.line } →
      there.line = own.pos.line ∨ c.EndsRound s there → TellsLine code start c here there
  | included {pos : Pos} {name : String} {inner rest : List Code} {before : World} :
      written (.include pos name) → expansion name inner →
      Comes s code start (.mark pos.line :: (inner ++ rest)) before →
      Reaches s inner { before with line := pos.line } c here →
      there.line = pos.line → TellsLine code start c here there

def TellsLines (code : List Code) : Prop :=
  ∀ start c here there result after, Reaches s code start c here →
    c.Does s here there result after → TellsLine s written expansion code start c here there

end Lines

section Lines

variable {s : Setting} {written : Stmt → Prop} {expansion : String → List Code → Prop}

namespace TellsLine

variable {first second : List Code} {c : Code} {start u here there : World}

/-- The same in other code that comes to each rest of this code, whatever follows there. -/
theorem lift (tells : TellsLine s written expansion first start c here there)
    (comes : ∀ code w, Comes s first start code w → ∃ more, Comes s second u (code ++ more) w) :
    TellsLine s written expansion second u c here there := by
  cases tells with
  | own isWritten isTag come begins line =>
      obtain ⟨more, come⟩ := comes _ _ come
      exact .own isWritten isTag come begins line
  | included isWritten expands come reached line =>
      obtain ⟨more, come⟩ := comes _ _ come
      rw [List.cons_append, List.append_assoc] at come
      exact .included isWritten expands come reached line

theorem of_enters {rest : List Code} (enters : Enters s c start first u) {d : Code}
    (tells : TellsLine s written expansion first u d here there) :
    TellsLine s written expansion (c :: rest) start d here there :=
  tells.lift fun code _ come => ⟨[], .within enters (by rwa [List.append_nil])⟩

/-- The same where all that is written is written elsewhere, up to what it has inside. -/
theorem of_shells {written' : Stmt → Prop}
    (shells : ∀ part, written part → ∃ own, written' own ∧ own.shell = part.shell)
    (tells : TellsLine s written expansion first start c here there) :
    TellsLine s written' expansion first start c here there := by
  cases tells with
  | own isWritten isTag come begins line =>
      obtain ⟨own, writtenThere, same⟩ := shells _ isWritten
      obtain ⟨ownTag, placed⟩ := isTag.of_shell same
      rw [← placed] at come begins line
      exact .own writtenThere ownTag come begins line
  | @included pos name _ _ _ isWritten expands come reached line =>
      obtain ⟨own, writtenThere, same⟩ := shells _ isWritten
      cases own <;> simp only [Stmt.shell, reduceCtorEq, Stmt.include.injEq] at same
      obtain ⟨rfl, rfl⟩ := same
      exact .included writtenThere expands come reached line

end TellsLine

theorem tellsLines_nil : TellsLines s written expansion [] := by
  intro start c here there result after reached
  cases reached

theorem TellsLines.append {first second : List Code}
    (hfirst : TellsLines s written expansion first)
    (hsecond : TellsLines s written expansion second) :
    TellsLines s written expansion (first ++ second) := by
  intro start c here there result after reached does
  rcases reached.of_append with inFirst | ⟨parts, u, run, inSecond⟩
  · exact (hfirst _ _ _ _ _ _ inFirst does).lift fun _ _ come => come.append second
  · refine (hsecond _ _ _ _ _ _ inSecond does).lift fun code _ come => ⟨[], ?_⟩
    rw [List.append_nil]
    exact .after run come

theorem tellsLines_text (value : String) : TellsLines s written expansion [.text value] := by
  intro start c here there result after reached does
  cases reached with
  | first =>
      cases does with
      | evaluates impossible _ => cases impossible
  | further _ impossible => cases impossible
  | within impossible _ => cases impossible

theorem TellsLines.spaceless {body : List Code} (hbody : TellsLines s written expansion body) :
    TellsLines s written expansion [.spaceless body] := by
  intro start c here there result after reached does
  cases reached with
  | first =>
      cases does with
      | evaluates impossible _ => cases impossible
  | further _ impossible => cases impossible
  | within enters reached =>
      cases enters
      exact (hbody _ _ _ _ _ _ reached does).of_enters .spaceless

theorem tellsLines_tag {own : Stmt} {c : Code} (isWritten : written own) (isTag : own.TagOf c)
    (inside : ∀ part ∈ c.bodies, TellsLines s written expansion part) :
    TellsLines s written expansion [.mark own.pos.line, c] := by
  intro start d here there result after reached does
  cases reached with
  | first =>
      cases does with
      | evaluates impossible _ => cases impossible
  | within impossible _ => cases impossible
  | further marked reached =>
      cases marked
      cases reached with
      | first => exact .own isWritten isTag .here rfl does.line_or_ends
      | further _ impossible => cases impossible
      | within enters reached =>
          refine (inside _ enters.mem_bodies _ _ _ _ _ _ reached does).lift fun code _ come => ?_
          exact ⟨[], .further rfl (.within enters (by rwa [List.append_nil]))⟩

theorem tellsLines_included {pos : Pos} {name : String} {inner : List Code}
    (isWritten : written (.include pos name)) (expands : expansion name inner)
    (unmarked : marksAll inner ⊆ []) :
    TellsLines s written expansion (.mark pos.line :: inner) := by
  intro start c here there result after reached does
  cases reached with
  | first =>
      cases does with
      | evaluates impossible _ => cases impossible
  | within impossible _ => cases impossible
  | further marked reached =>
      cases marked
      have journey := World.LineIn.journey []
      obtain ⟨before, none⟩ := reached.follows journey unmarked
      have stays := (journey.trans before (does.lineIn none)).eq_of_nil
      exact .included isWritten expands (by rw [List.append_nil]; exact .here) reached stays

end Lines

section Assemble

open Stmt

variable {p : Plan} {template : Option String}
  {expand : List String → String → Assembly (List Code)} {s : Setting} {written : Stmt → Prop}
  {expansion : String → List Code → Prop}

theorem yields_tellsLines
    (expands : ∀ locals name, Step.Ensures (fun _ => True)
      (fun inner => expansion name inner ∧ marksAll inner ⊆ []) (expand locals name)) :
    Place.Yields ⟨false, expand⟩ written (TellsLines s written expansion) where
  nil := tellsLines_nil
  append := TellsLines.append
  text := tellsLines_text
  spaceless := TellsLines.spaceless
  tag := tellsLines_tag
  expand isWritten locals := (expands locals _).mono fun _ ⟨expanded, unmarked⟩ =>
    tellsLines_included isWritten expanded unmarked

theorem Place.marks_subset {place : Place} {pos : Pos} {lines : List Nat}
    (own : place.included = false → pos.line ∈ lines) : marksAll (place.mark pos) ⊆ lines := by
  unfold Place.mark
  split
  · exact List.nil_subset _
  · next marking => exact List.cons_subset.mpr ⟨own (by simpa using marking), List.nil_subset _⟩

theorem Stmt.TagOf.marks_subset {own : Stmt} {c : Code} {lines : List Nat} (isTag : own.TagOf c)
    (inside : ∀ part ∈ c.bodies, marksAll part ⊆ lines) : c.marks ⊆ lines := by
  cases isTag with
  | branch _ =>
      obtain ⟨inBody, inOtherwise, inOthers⟩ := by
        simpa only [bodies, List.forall_mem_cons] using inside
      rw [marks, List.append_subset, List.append_subset]
      exact ⟨inBody, marksOthers_subset inOthers, inOtherwise⟩
  | loop =>
      obtain ⟨inBody, inEmpty, _⟩ := by simpa only [bodies, List.forall_mem_cons] using inside
      rw [marks, List.append_subset]
      exact ⟨inBody, inEmpty⟩
  | «while» => exact inside _ List.mem_cons_self
  | output | set | debug => exact List.nil_subset _

theorem yields_marks {place : Place} {lines : List Nat}
    (own : ∀ stmt, written stmt → place.included = false → stmt.pos.line ∈ lines)
    (inner : ∀ locals name, Step.Ensures (fun _ => True) (fun inner => marksAll inner ⊆ lines)
      (place.expand locals name)) :
    place.Yields written fun code => marksAll code ⊆ lines where
  nil := List.nil_subset _
  append first second := by
    rw [marksAll_append, List.append_subset]
    exact ⟨first, second⟩
  text _ := List.nil_subset _
  spaceless inside := by rwa [marksAll_singleton]
  tag {stmt c} isWritten isTag inside := by
    rw [marksAll_append, List.append_subset, marksAll_singleton]
    exact ⟨place.marks_subset (own stmt isWritten), isTag.marks_subset inside⟩
  expand isWritten locals := (inner locals _).mono fun _ among => by
    rw [marksAll_append, List.append_subset]
    exact ⟨place.marks_subset (own _ isWritten), among⟩

theorem expandInclude_unmarked {room : Nat} {stack locals : List String} {name : String} :
    Step.Ensures (fun _ => True) (fun inner => marksAll inner ⊆ [])
      (expandInclude p template room stack locals name) := by
  refine .of_run (fun t inner u _ run => ?_) fun _ _ => trivial
  induction room generalizing stack locals name t inner u with
  | zero =>
      obtain ⟨_, impossible, _⟩ := expandInclude_ran run
      cases impossible
  | succ room ih =>
      obtain ⟨_, hroom, _, ⟨_, _, _, rfl, _⟩ | ⟨flat, _, ran⟩⟩ := expandInclude_ran run
      · exact List.Subset.refl _
      · cases hroom
        have yields : Place.Yields ⟨true, expandInclude p template room (name :: stack)⟩
            (fun _ => True) fun code => marksAll code ⊆ [] :=
          yields_marks (fun _ _ impossible => nomatch impossible) fun _ _ =>
            .of_run (fun t inner u _ run => ih t inner u run) fun _ _ => trivial
        exact ((assembleAll_yields yields flat.1.body fun _ _ => trivial).run_ok trivial ran).2

end Assemble

end Stencil
