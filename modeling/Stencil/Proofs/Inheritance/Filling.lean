import Stencil.Proofs.Inheritance.Ancestors

/-!
What the blocks of a flattened template are filled with. The rules of filling are given as a
relation; each table of blocks determines the result, and flattening finds it in as many rounds as
the table has entries. Nothing else that the templates before the last one write occurs in it.
-/

namespace Stencil

namespace Stmt

/-! The statements at all depths. -/

mutual

def parts : Stmt → List Stmt
  | branch p condition body others otherwise =>
      branch p condition body others otherwise ::
        (partsOf body ++ (partsOfOthers others ++ partsOf otherwise))
  | loop p target items body empty =>
      loop p target items body empty :: (partsOf body ++ partsOf empty)
  | .while p condition body => .while p condition body :: partsOf body
  | block p name body => block p name body :: partsOf body
  | spaceless p body => spaceless p body :: partsOf body
  | text p value => [text p value]
  | output p value escape => [output p value escape]
  | .include p name => [.include p name]
  | .set p target value => [.set p target value]
  | debug p value label => [debug p value label]

def partsOf : List Stmt → List Stmt
  | [] => []
  | s :: rest => s.parts ++ partsOf rest

def partsOfOthers : List (Expr × List Stmt) → List Stmt
  | [] => []
  | (_, body) :: rest => partsOf body ++ partsOfOthers rest

end

/-- What a statement writes itself, without the statements in it. -/
def shell : Stmt → Stmt
  | branch p condition _ others _ =>
      branch p condition [] (others.map fun other => (other.1, [])) []
  | loop p target items _ _ => loop p target items [] []
  | .while p condition _ => .while p condition []
  | block p name _ => block p name []
  | spaceless p _ => spaceless p []
  | text p value => text p value
  | output p value escape => output p value escape
  | .include p name => .include p name
  | .set p target value => .set p target value
  | debug p value label => debug p value label

def WrittenIn (written : List Stmt) (s : Stmt) : Prop := ∃ own ∈ written, own.shell = s.shell

def IsBlock (s : Stmt) : Prop := ∃ p name body, s = block p name body

@[simp] theorem partsOf_append (first second : List Stmt) :
    partsOf (first ++ second) = partsOf first ++ partsOf second := by
  induction first with
  | nil => rfl
  | cons s rest ih => simp [partsOf, ih]

mutual

theorem block_mem_parts {name : String} {body : List Stmt} :
    (s : Stmt) → (name, body) ∈ s.blocks → ∃ p, block p name body ∈ s.parts
  | block p _ inner, member => by
      simp only [blocks, List.mem_cons, Prod.mk.injEq] at member
      rcases member with ⟨rfl, rfl⟩ | inside
      · exact ⟨p, List.mem_cons_self⟩
      · obtain ⟨q, found⟩ := block_mem_partsOf inner inside
        exact ⟨q, List.mem_cons_of_mem _ found⟩
  | branch _ _ body others otherwise, member => by
      simp only [blocks, List.mem_append] at member
      simp only [parts, List.mem_cons, List.mem_append]
      rcases member with (inBody | inOtherwise) | inOthers
      · obtain ⟨q, found⟩ := block_mem_partsOf body inBody
        exact ⟨q, .inr (.inl found)⟩
      · obtain ⟨q, found⟩ := block_mem_partsOf otherwise inOtherwise
        exact ⟨q, .inr (.inr (.inr found))⟩
      · obtain ⟨q, found⟩ := block_mem_partsOfOthers others inOthers
        exact ⟨q, .inr (.inr (.inl found))⟩
  | loop _ _ _ body empty, member => by
      simp only [blocks, List.mem_append] at member
      simp only [parts, List.mem_cons, List.mem_append]
      rcases member with inBody | inEmpty
      · obtain ⟨q, found⟩ := block_mem_partsOf body inBody
        exact ⟨q, .inr (.inl found)⟩
      · obtain ⟨q, found⟩ := block_mem_partsOf empty inEmpty
        exact ⟨q, .inr (.inr found)⟩
  | .while _ _ body, member => by
      obtain ⟨q, found⟩ := block_mem_partsOf body (by simpa [blocks] using member)
      exact ⟨q, List.mem_cons_of_mem _ found⟩
  | spaceless _ body, member => by
      obtain ⟨q, found⟩ := block_mem_partsOf body (by simpa [blocks] using member)
      exact ⟨q, List.mem_cons_of_mem _ found⟩
  | text _ _, member => by simp [blocks] at member
  | output _ _ _, member => by simp [blocks] at member
  | .include _ _, member => by simp [blocks] at member
  | .set _ _ _, member => by simp [blocks] at member
  | debug _ _ _, member => by simp [blocks] at member

theorem block_mem_partsOf {name : String} {body : List Stmt} :
    (written : List Stmt) → (name, body) ∈ blocksOf written →
      ∃ p, block p name body ∈ partsOf written
  | [], member => by simp [blocksOf] at member
  | s :: rest, member => by
      simp only [blocksOf, List.mem_append] at member
      simp only [partsOf, List.mem_append]
      rcases member with inFirst | inRest
      · obtain ⟨q, found⟩ := block_mem_parts s inFirst
        exact ⟨q, .inl found⟩
      · obtain ⟨q, found⟩ := block_mem_partsOf rest inRest
        exact ⟨q, .inr found⟩

theorem block_mem_partsOfOthers {name : String} {body : List Stmt} :
    (others : List (Expr × List Stmt)) → (name, body) ∈ blocksOfOthers others →
      ∃ p, block p name body ∈ partsOfOthers others
  | [], member => by simp [blocksOfOthers] at member
  | (_, inner) :: rest, member => by
      simp only [blocksOfOthers, List.mem_append] at member
      simp only [partsOfOthers, List.mem_append]
      rcases member with inBody | inRest
      · obtain ⟨q, found⟩ := block_mem_partsOf inner inBody
        exact ⟨q, .inl found⟩
      · obtain ⟨q, found⟩ := block_mem_partsOfOthers rest inRest
        exact ⟨q, .inr found⟩

end

theorem block_mem_of_lookup {written body : List Stmt} {name : String}
    (found : (blockTable written).lookup name = some body) :
    ∃ p, block p name body ∈ partsOf written := by
  obtain ⟨before, after, split, _⟩ := List.lookup_eq_some_iff.mp found
  refine block_mem_partsOf written (List.mem_reverse.mp ?_)
  rw [← blockTable, split]
  simp

/-! The rules of filling, in the expansion of the blocks whose names are `active`. -/

section Rules

variable (winner : String → Option (List Stmt))

mutual

inductive Fills : List String → Stmt → List Stmt → Prop
  /-- A block inside the expansion of a block of its own name keeps its own body. -/
  | again {active : List String} {p : Pos} {name : String} {body filled : List Stmt} :
      name ∈ active → FillsAll active body filled → Fills active (block p name body) filled
  | winner {active : List String} {p : Pos} {name : String} {body other filled : List Stmt} :
      name ∉ active → winner name = some other → FillsAll (name :: active) other filled →
        Fills active (block p name body) filled
  | own {active : List String} {p : Pos} {name : String} {body filled : List Stmt} :
      name ∉ active → winner name = none → FillsAll (name :: active) body filled →
        Fills active (block p name body) filled
  | branch {active : List String} {p : Pos} {condition : Expr}
      {body otherwise filled rest : List Stmt} {others filledOthers : List (Expr × List Stmt)} :
      FillsAll active body filled → FillsOthers active others filledOthers →
        FillsAll active otherwise rest →
        Fills active (branch p condition body others otherwise)
          [branch p condition filled filledOthers rest]
  | loop {active : List String} {p : Pos} {target : Target} {items : Expr}
      {body empty filled rest : List Stmt} :
      FillsAll active body filled → FillsAll active empty rest →
        Fills active (loop p target items body empty) [loop p target items filled rest]
  | while {active : List String} {p : Pos} {condition : Expr} {body filled : List Stmt} :
      FillsAll active body filled →
        Fills active (.while p condition body) [.while p condition filled]
  | spaceless {active : List String} {p : Pos} {body filled : List Stmt} :
      FillsAll active body filled → Fills active (spaceless p body) [spaceless p filled]
  | text {active : List String} {p : Pos} {value : String} :
      Fills active (text p value) [text p value]
  | output {active : List String} {p : Pos} {value : Expr} {escape : Bool} :
      Fills active (output p value escape) [output p value escape]
  | include {active : List String} {p : Pos} {name : String} :
      Fills active (.include p name) [.include p name]
  | set {active : List String} {p : Pos} {target : Binder} {value : Expr} :
      Fills active (.set p target value) [.set p target value]
  | debug {active : List String} {p : Pos} {value : Option Expr} {label : String} :
      Fills active (debug p value label) [debug p value label]

inductive FillsAll : List String → List Stmt → List Stmt → Prop
  | nil {active : List String} : FillsAll active [] []
  | cons {active : List String} {s : Stmt} {rest first more : List Stmt} :
      Fills active s first → FillsAll active rest more → FillsAll active (s :: rest) (first ++ more)

inductive FillsOthers :
    List String → List (Expr × List Stmt) → List (Expr × List Stmt) → Prop
  | nil {active : List String} : FillsOthers active [] []
  | cons {active : List String} {condition : Expr} {body filled : List Stmt}
      {rest more : List (Expr × List Stmt)} :
      FillsAll active body filled → FillsOthers active rest more →
        FillsOthers active ((condition, body) :: rest) ((condition, filled) :: more)

end

end Rules

section Rules

variable {winner : String → Option (List Stmt)}

mutual

theorem Fills.unique {active : List String} {s : Stmt} {a b : List Stmt} :
    Fills winner active s a → Fills winner active s b → a = b
  | .again inside first, second => by
      cases second with
      | again _ second => exact FillsAll.unique first second
      | winner outside => exact (outside inside).elim
      | own outside => exact (outside inside).elim
  | .winner outside found first, second => by
      cases second with
      | again inside => exact (outside inside).elim
      | winner _ found' second =>
          rw [found] at found'
          cases found'
          exact FillsAll.unique first second
      | own _ missing =>
          rw [found] at missing
          cases missing
  | .own outside missing first, second => by
      cases second with
      | again inside => exact (outside inside).elim
      | winner _ found =>
          rw [missing] at found
          cases found
      | own _ _ second => exact FillsAll.unique first second
  | .branch body others otherwise, second => by
      cases second with
      | branch body' others' otherwise' =>
          rw [FillsAll.unique body body', FillsOthers.unique others others',
            FillsAll.unique otherwise otherwise']
  | .loop body empty, second => by
      cases second with
      | loop body' empty' => rw [FillsAll.unique body body', FillsAll.unique empty empty']
  | .while body, second => by
      cases second with
      | «while» body' => rw [FillsAll.unique body body']
  | .spaceless body, second => by
      cases second with
      | spaceless body' => rw [FillsAll.unique body body']
  | .text, second => by cases second; rfl
  | .output, second => by cases second; rfl
  | .include, second => by cases second; rfl
  | .set, second => by cases second; rfl
  | .debug, second => by cases second; rfl

theorem FillsAll.unique {active : List String} {body a b : List Stmt} :
    FillsAll winner active body a → FillsAll winner active body b → a = b
  | .nil, second => by
      cases second
      rfl
  | .cons first rest, second => by
      cases second with
      | cons first' rest' => rw [Fills.unique first first', FillsAll.unique rest rest']

theorem FillsOthers.unique {active : List String} {others a b : List (Expr × List Stmt)} :
    FillsOthers winner active others a → FillsOthers winner active others b → a = b
  | .nil, second => by
      cases second
      rfl
  | .cons body rest, second => by
      cases second with
      | cons body' rest' => rw [FillsAll.unique body body', FillsOthers.unique rest rest']

end

/-! What filled statements are made of. -/

/-- Whether a statement is no block, and is one of some statements or of the body of a winner, up to
what it has inside. -/
def Drawn (winner : String → Option (List Stmt)) (written : List Stmt) (s : Stmt) : Prop :=
  ¬ s.IsBlock ∧
    (WrittenIn written s ∨ ∃ name body, winner name = some body ∧ WrittenIn (partsOf body) s)

theorem Drawn.of_subset {first second : List Stmt} (within : first ⊆ second) {s : Stmt} :
    Drawn winner first s → Drawn winner second s
  | ⟨plain, .inl ⟨own, member, same⟩⟩ => ⟨plain, .inl ⟨own, within member, same⟩⟩
  | ⟨plain, .inr inWinner⟩ => ⟨plain, .inr inWinner⟩

theorem Drawn.of_winner {name : String} {written body : List Stmt} {s : Stmt}
    (found : winner name = some body) : Drawn winner (partsOf body) s → Drawn winner written s
  | ⟨plain, .inl inBody⟩ => ⟨plain, .inr ⟨name, body, found, inBody⟩⟩
  | ⟨plain, .inr inWinner⟩ => ⟨plain, .inr inWinner⟩

theorem Drawn.self {written : List Stmt} {s own : Stmt} (plain : ¬ s.IsBlock)
    (member : own ∈ written) (same : own.shell = s.shell) : Drawn winner written s :=
  ⟨plain, .inl ⟨own, member, same⟩⟩

theorem FillsOthers.conditions {active : List String} {others filled : List (Expr × List Stmt)}
    (fills : FillsOthers winner active others filled) :
    others.map (fun other => (other.1, ([] : List Stmt))) =
      filled.map fun other => (other.1, []) := by
  induction others generalizing filled with
  | nil =>
      cases fills
      rfl
  | cons other rest ih =>
      cases fills with
      | cons _ more => simp [ih more]

mutual

theorem Fills.drawn {active : List String} {s : Stmt} {filled : List Stmt} :
    Fills winner active s filled → ∀ part ∈ partsOf filled, Drawn winner s.parts part
  | .again _ inner, part, member =>
      (FillsAll.drawn inner part member).of_subset (List.subset_cons_self _ _)
  | .winner _ found inner, part, member => (FillsAll.drawn inner part member).of_winner found
  | .own _ _ inner, part, member =>
      (FillsAll.drawn inner part member).of_subset (List.subset_cons_self _ _)
  | .branch body others otherwise, part, member => by
      simp only [partsOf, parts, List.append_nil, List.mem_cons, List.mem_append] at member
      rcases member with rfl | inBody | inOthers | inOtherwise
      · refine .self (by simp [IsBlock]) List.mem_cons_self ?_
        simp [shell, others.conditions]
      · exact (FillsAll.drawn body part inBody).of_subset
          fun _ found => by simp [parts, found]
      · exact (FillsOthers.drawn others part inOthers).of_subset
          fun _ found => by simp [parts, found]
      · exact (FillsAll.drawn otherwise part inOtherwise).of_subset
          fun _ found => by simp [parts, found]
  | .loop body empty, part, member => by
      simp only [partsOf, parts, List.append_nil, List.mem_cons, List.mem_append] at member
      rcases member with rfl | inBody | inEmpty
      · exact .self (by simp [IsBlock]) List.mem_cons_self rfl
      · exact (FillsAll.drawn body part inBody).of_subset
          fun _ found => by simp [parts, found]
      · exact (FillsAll.drawn empty part inEmpty).of_subset
          fun _ found => by simp [parts, found]
  | .while body, part, member => by
      simp only [partsOf, parts, List.append_nil, List.mem_cons] at member
      rcases member with rfl | inBody
      · exact .self (by simp [IsBlock]) List.mem_cons_self rfl
      · exact (FillsAll.drawn body part inBody).of_subset (List.subset_cons_self _ _)
  | .spaceless body, part, member => by
      simp only [partsOf, parts, List.append_nil, List.mem_cons] at member
      rcases member with rfl | inBody
      · exact .self (by simp [IsBlock]) List.mem_cons_self rfl
      · exact (FillsAll.drawn body part inBody).of_subset (List.subset_cons_self _ _)
  | .text, _, member => by
      cases List.mem_singleton.mp member
      exact .self (by simp [IsBlock]) List.mem_cons_self rfl
  | .output, _, member => by
      cases List.mem_singleton.mp member
      exact .self (by simp [IsBlock]) List.mem_cons_self rfl
  | .include, _, member => by
      cases List.mem_singleton.mp member
      exact .self (by simp [IsBlock]) List.mem_cons_self rfl
  | .set, _, member => by
      cases List.mem_singleton.mp member
      exact .self (by simp [IsBlock]) List.mem_cons_self rfl
  | .debug, _, member => by
      cases List.mem_singleton.mp member
      exact .self (by simp [IsBlock]) List.mem_cons_self rfl

theorem FillsAll.drawn {active : List String} {body filled : List Stmt} :
    FillsAll winner active body filled → ∀ part ∈ partsOf filled, Drawn winner (partsOf body) part
  | .nil, _, member => nomatch member
  | .cons first rest, part, member => by
      rw [partsOf_append, List.mem_append] at member
      rcases member with inFirst | inRest
      · exact (Fills.drawn first part inFirst).of_subset (List.subset_append_left _ _)
      · exact (FillsAll.drawn rest part inRest).of_subset (List.subset_append_right _ _)

theorem FillsOthers.drawn {active : List String} {others filled : List (Expr × List Stmt)} :
    FillsOthers winner active others filled →
      ∀ part ∈ partsOfOthers filled, Drawn winner (partsOfOthers others) part
  | .nil, _, member => nomatch member
  | .cons body rest, part, member => by
      rw [partsOfOthers, List.mem_append] at member
      rcases member with inBody | inRest
      · exact (FillsAll.drawn body part inBody).of_subset (List.subset_append_left _ _)
      · exact (FillsOthers.drawn rest part inRest).of_subset (List.subset_append_right _ _)

end

end Rules

/-! Filling obeys the rules: a name is expanded once on every path, so the names of the table that
are not active bound the rounds. -/

section Fill

variable {table : BlockTable}

def openNames (table : BlockTable) (active : List String) : Nat :=
  table.countP fun entry => !active.contains entry.1

theorem openNames_nil : openNames table [] = table.length := by
  simp [openNames]

theorem openNames_cons_le (table : BlockTable) (name : String) (active : List String) :
    openNames table (name :: active) ≤ openNames table active := by
  refine List.countP_mono_left fun entry _ isOpen => ?_
  simp_all

theorem openNames_cons_lt {name : String} {active : List String} {body : List Stmt}
    (outside : name ∉ active) (found : table.lookup name = some body) :
    openNames table (name :: active) < openNames table active := by
  obtain ⟨before, after, rfl, _⟩ := List.lookup_eq_some_iff.mp found
  have first := openNames_cons_le before name active
  have last := openNames_cons_le after name active
  simp only [openNames] at first last
  simp only [openNames, List.countP_append]
  rw [List.countP_cons_of_neg (by simp), List.countP_cons_of_pos (by simpa using outside)]
  omega

variable {replace : List String → List Stmt → List Stmt} {rounds : Nat}

/-- Whether the bodies of the table are filled by the rules where they are expanded, as long as at
most `rounds` names are open before it. -/
def Replaces (table : BlockTable) (rounds : Nat)
    (replace : List String → List Stmt → List Stmt) : Prop :=
  ∀ active name body, openNames table active ≤ rounds → name ∉ active →
    table.lookup name = some body →
      FillsAll (table.lookup ·) (name :: active) body (replace (name :: active) body)

mutual

theorem fill_fills (hreplace : Replaces table rounds replace) {active : List String}
    (enough : openNames table active ≤ rounds) :
    (s : Stmt) → Fills (table.lookup ·) active s (fill table replace active s)
  | block p name body => by
      rw [fill]
      split
      · next inside => exact .again (by simpa using inside) (fillAll_fills hreplace enough body)
      · next outside =>
          have outside : name ∉ active := by simpa using outside
          split
          · next winner found => exact .winner outside found (hreplace _ _ _ enough outside found)
          · next missing =>
              have fewer := openNames_cons_le table name active
              exact .own outside missing (fillAll_fills hreplace (by omega) body)
  | branch _ _ body others otherwise => by
      rw [fill]
      exact .branch (fillAll_fills hreplace enough body) (fillOthers_fills hreplace enough others)
        (fillAll_fills hreplace enough otherwise)
  | loop _ _ _ body empty => by
      rw [fill]
      exact .loop (fillAll_fills hreplace enough body) (fillAll_fills hreplace enough empty)
  | .while _ _ body => by
      rw [fill]
      exact .while (fillAll_fills hreplace enough body)
  | spaceless _ body => by
      rw [fill]
      exact .spaceless (fillAll_fills hreplace enough body)
  | text _ _ => .text
  | output _ _ _ => .output
  | .include _ _ => .include
  | .set _ _ _ => .set
  | debug _ _ _ => .debug

theorem fillAll_fills (hreplace : Replaces table rounds replace) {active : List String}
    (enough : openNames table active ≤ rounds) :
    (body : List Stmt) → FillsAll (table.lookup ·) active body (fillAll table replace active body)
  | [] => .nil
  | s :: rest => .cons (fill_fills hreplace enough s) (fillAll_fills hreplace enough rest)

theorem fillOthers_fills (hreplace : Replaces table rounds replace) {active : List String}
    (enough : openNames table active ≤ rounds) :
    (others : List (Expr × List Stmt)) →
      FillsOthers (table.lookup ·) active others (fillOthers table replace active others)
  | [] => .nil
  | (_, body) :: rest =>
      .cons (fillAll_fills hreplace enough body) (fillOthers_fills hreplace enough rest)

end

theorem fillWithin_fills {active : List String} (enough : openNames table active ≤ rounds)
    (body : List Stmt) :
    FillsAll (table.lookup ·) active body (fillWithin table rounds active body) := by
  induction rounds generalizing active body with
  | zero =>
      -- All names of the table are active, so none of its bodies is expanded any more.
      refine fillAll_fills (fun active name body enough outside found => ?_) enough body
      have fewer := openNames_cons_lt outside found
      omega
  | succ rounds ih =>
      refine fillAll_fills (fun active name body enough outside found => ?_) enough body
      have fewer := openNames_cons_lt outside found
      exact ih (by omega) body

theorem fillBlocks_fills (table : BlockTable) (body : List Stmt) :
    FillsAll (table.lookup ·) [] body (fillBlocks table body) :=
  fillWithin_fills (Nat.le_of_eq openNames_nil) body

end Fill

end Stmt

namespace Chain

variable {ε : Type} {load : String → Except ε Found} {refuse : Diagnostic → ε} {maxDepth : Int}

/-- The templates from one to the last of its ancestors, which is given apart. -/
inductive Line (load : String → Except ε Found) : Template → List Template → Template → Prop
  | last {t : Template} : t.parent = none → Line load t [] t
  | next {t root : Template} {q : Parent} {found : Found} {line : List Template} :
      t.parent = some q → load q.template = .ok found → Line load found.template line root →
        Line load t (t :: line) root

/-- The body that the first template of a line with a block of the name gives for it. -/
def winner (line : List Template) (name : String) : Option (List Stmt) :=
  line.findSome? fun t => (Stmt.blockTable t.body).lookup name

theorem winner_written {line : List Template} {name : String} {body : List Stmt}
    (found : winner line name = some body) :
    ∃ t ∈ line, ∃ p, .block p name body ∈ Stmt.partsOf t.body := by
  obtain ⟨t, member, given⟩ := List.exists_of_findSome?_eq_some found
  exact ⟨t, member, Stmt.block_mem_of_lookup given⟩

theorem follow_line {room : Nat} {names : List String} {table : BlockTable} {files : List String}
    {t : Template} {root : Root}
    (followed : follow load refuse maxDepth room names table files t = .ok root) :
    ∃ line, Line load t line root.template ∧
      ∀ name, root.table.lookup name = (table.lookup name).or (winner line name) := by
  induction room generalizing names table files t with
  | zero =>
      rcases follow_ok followed with ⟨hparent, rfl⟩ | ⟨_, _, _, _, _, hroom, _⟩
      · exact ⟨[], .last hparent, fun name => by simp [winner]⟩
      · cases hroom
  | succ room ih =>
      rcases follow_ok followed with ⟨hparent, rfl⟩ | ⟨_, _, _, hparent, _, hroom, loaded, rest⟩
      · exact ⟨[], .last hparent, fun name => by simp [winner]⟩
      · cases hroom
        obtain ⟨line, along, tables⟩ := ih rest
        refine ⟨t :: line, .next hparent loaded along, fun name => ?_⟩
        rw [tables, List.lookup_append, Option.or_assoc, winner, winner, List.findSome?_cons]
        cases (Stmt.blockTable t.body).lookup name <;> rfl

open Stmt in
/-- Flattening gives the body of the last ancestor, filled by the rules with the blocks of the
templates before it. No block is left in it, and nothing that these write outside their blocks
occurs in it. Each table fills all statements in exactly one way. -/
theorem flatten_fills {t : Template} {name : String} {flat : Template × List String}
    (flattened : flatten load refuse maxDepth t name = .ok flat) :
    (∃ line root, Line load t line root ∧ flat.1.parent = none ∧
        FillsAll (winner line) [] root.body flat.1.body ∧
        (∀ other, FillsAll (winner line) [] root.body other → other = flat.1.body) ∧
        ∀ part ∈ partsOf flat.1.body, ¬ part.IsBlock ∧
          (WrittenIn (partsOf root.body) part ∨ ∃ u ∈ line, ∃ p block body,
            .block p block body ∈ partsOf u.body ∧ WrittenIn (partsOf body) part)) ∧
      ∀ (table : BlockTable) (body : List Stmt), ∃ filled,
        FillsAll (table.lookup ·) [] body filled ∧
          ∀ other, FillsAll (table.lookup ·) [] body other → other = filled := by
  refine ⟨?_, fun table body => ?_⟩
  · obtain ⟨root, followed, rfl⟩ := flatten_ok flattened
    obtain ⟨line, along, tables⟩ := follow_line followed
    have winners : (root.table.lookup ·) = winner line := by
      funext name
      rw [tables]
      rfl
    have fills := fillBlocks_fills root.table root.template.body
    rw [winners] at fills
    refine ⟨line, root.template, along, rfl, fills, fun other also => also.unique fills, ?_⟩
    intro part member
    obtain ⟨plain, inRoot | ⟨block, body, found, inBody⟩⟩ := fills.drawn part member
    · exact ⟨plain, .inl inRoot⟩
    · obtain ⟨u, isBefore, p, written⟩ := winner_written found
      exact ⟨plain, .inr ⟨u, isBefore, p, block, body, written, inBody⟩⟩
  · have fills := fillBlocks_fills table body
    exact ⟨_, fills, fun other also => also.unique fills⟩

def nestedPage : Template where
  body := [.text ⟨1, 0⟩ "lost",
    .block ⟨2, 0⟩ "outer" [.block ⟨2, 9⟩ "inner" [.text ⟨2, 18⟩ "first"], .text ⟨2, 23⟩ "new"],
    .block ⟨3, 0⟩ "inner" [.text ⟨3, 9⟩ "last"]]
  parent := some ⟨⟨1, 4⟩, "base"⟩

def basePage : Template where
  body := [.spaceless ⟨1, 0⟩ [.block ⟨1, 9⟩ "outer" [.text ⟨1, 18⟩ "old"]],
    .block ⟨2, 0⟩ "other" [.text ⟨2, 9⟩ "default"]]
  parent := none

def nestedFlat : Template where
  body := [.spaceless ⟨1, 0⟩ [.text ⟨3, 9⟩ "last", .text ⟨2, 23⟩ "new"],
    .text ⟨2, 9⟩ "default"]
  parent := none

def loadBase (_ : String) : Except Diagnostic Found := .ok ⟨basePage, none⟩

open Stmt in
theorem flatten_fills_nestedPage :
    flatten loadBase id 5 nestedPage "page" = .ok (nestedFlat, []) ∧
      (∃ line root, Line loadBase nestedPage line root ∧ nestedFlat.parent = none ∧
        FillsAll (winner line) [] root.body nestedFlat.body ∧
        (∀ other, FillsAll (winner line) [] root.body other → other = nestedFlat.body) ∧
        ∀ part ∈ partsOf nestedFlat.body, ¬ part.IsBlock ∧
          (WrittenIn (partsOf root.body) part ∨ ∃ u ∈ line, ∃ p block body,
            .block p block body ∈ partsOf u.body ∧ WrittenIn (partsOf body) part)) ∧
      ∀ (table : BlockTable) (body : List Stmt), ∃ filled,
        FillsAll (table.lookup ·) [] body filled ∧
          ∀ other, FillsAll (table.lookup ·) [] body other → other = filled :=
  have flattened : flatten loadBase id 5 nestedPage "page" = .ok (nestedFlat, []) := rfl
  ⟨flattened, flatten_fills flattened⟩

end Chain

end Stencil
