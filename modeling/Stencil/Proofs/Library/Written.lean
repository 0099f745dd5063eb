import Stencil.Environment.Basic
import Stencil.Proofs.Assembly.Outline
import Stencil.Proofs.Assembly.Reads
import Stencil.Proofs.Grammar.Order
import Stencil.Proofs.Grammar.RoundTrip
import Stencil.Proofs.Library.Directories

namespace Stencil

/-! A source has at most as many tokens as characters. -/

theorem Located.length_le {earlier : List Char} {ps : List Piece} {tokens : List Token}
    (located : Located earlier ps tokens) (solid : ∀ piece ∈ ps, piece.Solid) :
    tokens.length ≤ (ps.flatMap Piece.chars).length := by
  induction located with
  | nil => exact Nat.le_refl 0
  | @skipped _ cs ps tokens _ ih =>
      have further := ih fun piece member => solid piece (.tail _ member)
      rw [List.flatMap_cons, List.length_append]
      omega
  | @token _ cs _ _ ps tokens _ ih =>
      have further := ih fun piece member => solid piece (.tail _ member)
      have nonempty := List.length_pos_iff.mpr (solid _ List.mem_cons_self rfl)
      rw [List.length_cons, List.flatMap_cons, List.length_append]
      omega

theorem TokenStream.length_le_of_ofSource? {source : List Char} {stream : TokenStream}
    (accepted : ofSource? source = .ok stream) : stream.tokens.length ≤ source.length := by
  obtain ⟨_, solid, joined, located, _⟩ := pieces_of_ofSource? accepted
  have shorter := located.length_le solid
  rwa [joined] at shorter

namespace Stmt

/-! Leaves are statements at some depth. -/

mutual

theorem leaves_sublist_parts : (s : Stmt) → s.leaves.Sublist s.parts
  | branch _ _ body others otherwise => by
      rw [leaves, parts]
      exact .cons _ ((leavesOf_sublist_partsOf body).append
        ((leavesOfOthers_sublist_partsOfOthers others).append (leavesOf_sublist_partsOf otherwise)))
  | loop _ _ _ body empty => by
      rw [leaves, parts]
      exact .cons _ ((leavesOf_sublist_partsOf body).append (leavesOf_sublist_partsOf empty))
  | .while _ _ body => by
      rw [leaves, parts]
      exact .cons _ (leavesOf_sublist_partsOf body)
  | block _ _ body => by
      rw [leaves, parts]
      exact .cons _ (leavesOf_sublist_partsOf body)
  | spaceless _ body => by
      rw [leaves, parts]
      exact .cons _ (leavesOf_sublist_partsOf body)
  | text _ _ | output _ _ _ | .include _ _ | .set _ _ _ | debug _ _ _ => List.Sublist.refl _

theorem leavesOf_sublist_partsOf :
    (body : List Stmt) → (leavesOf body).Sublist (partsOf body)
  | [] => List.Sublist.refl _
  | s :: rest => by
      rw [leavesOf, partsOf]
      exact (leaves_sublist_parts s).append (leavesOf_sublist_partsOf rest)

theorem leavesOfOthers_sublist_partsOfOthers :
    (others : List (Expr × List Stmt)) → (leavesOfOthers others).Sublist (partsOfOthers others)
  | [] => List.Sublist.refl _
  | (_, body) :: rest => by
      rw [leavesOfOthers, partsOfOthers]
      exact (leavesOf_sublist_partsOf body).append (leavesOfOthers_sublist_partsOfOthers rest)

end

theorem length_includedNames_le (body : List Stmt) :
    (includedNames body).length ≤ (placesOf body).length := by
  rw [placesOf, List.length_map]
  exact (List.length_filterMap_le _ _).trans (leavesOf_sublist_partsOf body).length_le

end Stmt

theorem Source.length_includedNames_le {s : Source} {limit : Int} {t : Template}
    (written : s.template limit = .ok t) :
    (Stmt.includedNames t.body).length ≤ s.text.length := by
  obtain ⟨stream, read, parsed⟩ := Except.bind_ok written
  split at parsed
  · next given =>
      cases parsed
      have places := (Grammar.template_places given).length_le
      have tokens := TokenStream.length_le_of_ofSource? (Source.tokens_ok read)
      rw [List.length_map] at places
      rw [← String.length_toList]
      exact (Stmt.length_includedNames_le t.body).trans (places.trans tokens)
  · cases parsed

theorem Source.template_renamed {text : String} {name filename : Option String} {limit : Int}
    {t : Template} (written : Source.template ⟨text, name, filename⟩ limit = .ok t)
    (name' filename' : Option String) : Source.template ⟨text, name', filename'⟩ limit = .ok t := by
  obtain ⟨stream, read, parsed⟩ := Except.bind_ok written
  split at parsed
  · next given =>
      cases parsed
      refine template_of_tokens ?_ given
      rw [Source.tokens, Source.tokens_ok (s := ⟨text, name, filename⟩) read]
  · cases parsed

/-- The names of the templates that a text includes; none if it is no template. -/
def namesWritten (limit : Int) (text : String) : List String :=
  match Source.template ⟨text, none, none⟩ limit with
  | .ok t => Stmt.includedNames t.body
  | .error _ => []

theorem length_namesWritten_le (limit : Int) (text : String) :
    (namesWritten limit text).length ≤ text.length := by
  unfold namesWritten
  split
  · next written => exact Source.length_includedNames_le written
  · exact Nat.zero_le _

theorem mem_namesWritten {text : String} {name filename : Option String} {limit : Int}
    {t : Template} (written : Source.template ⟨text, name, filename⟩ limit = .ok t) {inner : String}
    (includes : Stmt.Includes t.body inner) : inner ∈ namesWritten limit text := by
  rw [namesWritten, Source.template_renamed written none none]
  exact Stmt.mem_includedNames.mpr includes

theorem length_unifyLineEnds_le (cs : List Char) : (unifyLineEnds cs).length ≤ cs.length := by
  fun_induction unifyLineEnds cs with
  | case1 => exact Nat.le_refl 0
  | case2 cs ih => simp only [List.length_cons]; omega
  | case3 c cs _ ih => simp only [List.length_cons]; omega

/-! The texts of all sources of a loader. -/

namespace FileNode

/-- The text of a file as it is read; a directory and a link have none. -/
def texts : FileNode → List String
  | file contents _ =>
      contents.text?.toList.map fun text => String.ofList (unifyLineEnds text.toList)
  | _ => []

end FileNode

namespace Loader

variable (files : FileTree)

mutual

def texts : Loader → List String
  | entries _ templates => templates.map Prod.snd
  | directories _ => files.nodes.flatMap fun (_, n) => n.texts
  | firstOf loaders => textsOf loaders

def textsOf : List Loader → List String
  | [] => []
  | l :: rest => texts l ++ textsOf rest

end

variable {files} {name : String} {sheet : Sheet}

theorem searchFile_mem_texts {relative : Path} {roots : List Path}
    (given : searchFile files name relative roots = some (.ok sheet)) :
    sheet.text ∈ files.nodes.flatMap fun (_, n) => n.texts := by
  induction roots with
  | nil => cases given
  | cons root rest ih =>
      rw [searchFile] at given
      split at given
      · exact ih given
      · next contents hread =>
          dsimp only at given
          split at given
          · obtain ⟨text, decoded, rfl⟩ := FileContents.sheet_ok (Option.some.inj given)
            obtain ⟨changed, _, _, node⟩ := FileTree.read?_eq_some hread
            rw [FileTree.node?.eq_def] at node
            split at node
            · cases node
            · obtain ⟨before, after, split, _⟩ := List.lookup_eq_some_iff.mp node
              simp [split, FileNode.texts, decoded]
          · cases given

mutual

theorem read_mem_texts :
    (l : Loader) → l.read files name = .ok sheet → sheet.text ∈ l.texts files
  | entries _ templates, given => by
      rw [read] at given
      split at given
      · next text found =>
          cases given
          obtain ⟨before, after, split, _⟩ := List.lookup_eq_some_iff.mp found
          simp [texts, split]
      · cases given
  | directories roots, given => by
      rw [read] at given
      split at given
      · cases given
      · split at given
        · next answer found =>
            cases given
            rw [texts]
            exact searchFile_mem_texts found
        · cases given
  | firstOf loaders, given => by
      rw [read] at given
      rw [texts]
      exact readFirst_mem_texts loaders given

theorem readFirst_mem_texts :
    (loaders : List Loader) → readFirst files name loaders = .ok sheet →
      sheet.text ∈ textsOf files loaders
  | [], given => by cases given
  | l :: rest, given => by
      rw [readFirst] at given
      rw [textsOf, List.mem_append]
      split at given
      · split at given
        · exact .inr (readFirst_mem_texts rest given)
        · cases given
      · exact .inl (read_mem_texts l given)

end

variable {f : String → List String}

theorem length_flatMap_entries_le (short : ∀ text, (f text).length ≤ text.length) (listed : Bool)
    (templates : List (String × String)) :
    (((entries listed templates).texts files).flatMap f).length ≤
      (entries listed templates).weight files := by
  induction templates with
  | nil => exact Nat.le_refl 0
  | cons entry rest ih =>
      have here := short entry.2
      have weighs : (entries listed (entry :: rest)).weight files =
          (entry.2.length + 1) + (entries listed rest).weight files := rfl
      rw [texts] at ih
      rw [texts, List.map_cons, List.flatMap_cons, List.length_append, weighs]
      omega

theorem length_flatMap_nodes_le (short : ∀ text, (f text).length ≤ text.length) (root : String)
    (roots : List Path) (nodes : List (Path × FileNode)) :
    (((directories roots).texts ⟨root, nodes⟩).flatMap f).length ≤
      (directories roots).weight ⟨root, nodes⟩ := by
  induction nodes with
  | nil => exact Nat.le_refl 0
  | cons entry rest ih =>
      obtain ⟨path, node⟩ := entry
      rw [texts] at ih
      rw [texts, List.flatMap_cons, List.flatMap_append, List.length_append]
      cases node with
      | file contents changed =>
          refine Nat.add_le_add ?_ ih
          simp only [FileNode.texts]
          cases contents.text? with
          | none => exact Nat.zero_le 1
          | some text =>
              have here := short (String.ofList (unifyLineEnds text.toList))
              have unified := length_unifyLineEnds_le text.toList
              rw [← String.length_toList, String.toList_ofList] at here
              rw [String.length_toList] at unified
              calc (([text].map fun text => String.ofList (unifyLineEnds text.toList)).flatMap
                      f).length
                  = (f (String.ofList (unifyLineEnds text.toList))).length :=
                    congrArg List.length (List.flatMap_singleton f _)
                _ ≤ text.length + 1 := by omega
      | _ => exact Nat.add_le_add (Nat.zero_le 1) ih

mutual

theorem length_flatMap_texts_le (short : ∀ text, (f text).length ≤ text.length) :
    (l : Loader) → ((l.texts files).flatMap f).length ≤ l.weight files
  | entries listed templates => length_flatMap_entries_le short listed templates
  | directories roots => length_flatMap_nodes_le short files.root roots files.nodes
  | firstOf loaders => length_flatMap_textsOf_le short loaders

theorem length_flatMap_textsOf_le (short : ∀ text, (f text).length ≤ text.length) :
    (loaders : List Loader) → ((textsOf files loaders).flatMap f).length ≤ weightOf files loaders
  | [] => Nat.le_refl 0
  | l :: rest => by
      rw [textsOf, List.flatMap_append, List.length_append]
      exact Nat.add_le_add (length_flatMap_texts_le short l) (length_flatMap_textsOf_le short rest)

end

end Loader

/-- Whether the templates of a library include no more names than its bound tells. -/
def Plan.BoundsNames (p : Plan) : Prop :=
  ∃ names : List String, names.length ≤ p.library.bound ∧
    ∀ name flat, p.flattened name = .ok flat → ∀ inner, Stmt.Includes flat.1.body inner →
      inner ∈ names

namespace Plan

variable {p : Plan}

theorem flattened_includes {P : String → Prop} {name : String} {flat : Template × List String}
    (flattened : p.flattened name = .ok flat)
    (written : ∀ other found, p.found other = .ok found →
      ∀ inner, Stmt.Includes found.template.body inner → P inner) :
    ∀ inner, Stmt.Includes flat.1.body inner → P inner := by
  obtain ⟨found, flat, hfound, hflatten, rfl⟩ := flattened_ok flattened
  have each : ∀ leaf ∈ Stmt.leavesOf flat.1.body, ∀ pos inner, leaf = .include pos inner →
      P inner := by
    refine Chain.flatten_leaves hflatten ?_ fun other found _ loaded => ?_
    · rintro _ member pos inner rfl
      exact written name found hfound inner ⟨pos, member⟩
    · rintro _ member pos inner rfl
      exact written other found loaded inner ⟨pos, member⟩
  rintro inner ⟨pos, member⟩
  exact each _ member pos inner rfl

theorem boundsNames_library (l : Loader) (files : FileTree) (registries : Registries)
    (limits : Limits) : BoundsNames ⟨l.library files, registries, limits⟩ := by
  refine ⟨(l.texts files).flatMap (namesWritten limits.nesting),
    Loader.length_flatMap_texts_le (length_namesWritten_le _) l, fun name flat flattened => ?_⟩
  refine flattened_includes flattened fun other found hfound inner includes => ?_
  obtain ⟨sheet, hsheet, parsed, _⟩ := found_ok hfound
  refine List.mem_flatMap.mpr ⟨sheet.text, Loader.read_mem_texts l (sheet_ok.mp hsheet).1, ?_⟩
  unfold Plan.parse at parsed
  split at parsed
  · next written =>
      cases parsed
      exact mem_namesWritten written includes
  · cases parsed

end Plan

/-- The templates of an environment include no more names than the bound of its library tells. -/
theorem Engine.boundsNames_plan (e : Engine) : e.plan.BoundsNames := by
  unfold Engine.plan
  split
  · next loader _ => exact Plan.boundsNames_library loader e.files _ _
  · refine ⟨[], Nat.le_refl 0, fun name flat flattened => ?_⟩
    obtain ⟨found, _, hfound, _⟩ := Plan.flattened_ok flattened
    obtain ⟨sheet, hsheet, _⟩ := Plan.found_ok hfound
    cases (Plan.sheet_ok.mp hsheet).1

end Stencil
