import Stencil.Assembly.Plan
import Stencil.Diagnostic.Basic
import Stencil.Files.Tree

/-!
Loaders: where templates are taken from. A name that could lead out of the directory of templates is
refused.
-/

namespace Stencil

inductive NameFault
  | empty
  | nullCharacter
  | absolute
  | traversal
  | outside
  deriving DecidableEq, Repr

namespace NameFault

def message (name : String) : NameFault → String
  | empty => "Template path cannot be empty"
  | nullCharacter => "Null bytes are not allowed in template paths"
  | absolute => "Absolute paths are not allowed in templates: " ++ name
  | traversal => "Path traversal is not allowed in templates: " ++ name
  | outside => "Template path is outside of template directory: " ++ name

def diagnostic (name : String) (f : NameFault) : Diagnostic := .unsafePath (f.message name)

end NameFault

def withSlashes (cs : List Char) : List Char := cs.map fun c => if c = '\\' then '/' else c

def hasDrive : List Char → Bool
  | c :: ':' :: _ => c.isAlpha
  | _ => false

def safeName (name : String) : Except NameFault String :=
  let cs := withSlashes name.toList
  if name = "" then .error .empty
  else if cs.contains '\x00' then .error .nullCharacter
  else if cs.head? = some '/' ∨ hasDrive cs then .error .absolute
  else if (Path.splitParts cs).contains ['.', '.'] then .error .traversal
  else .ok (String.ofList cs)

inductive Loader
  /-- Templates that are held in memory; only a `listed` collection tells its names. -/
  | entries (listed : Bool) (templates : List (String × String))
  /-- Directories that are searched in order. -/
  | directories (roots : List Path)
  /-- Loaders that are asked in order. -/
  | firstOf (loaders : List Loader)
  deriving Inhabited

def unifyLineEnds : List Char → List Char
  | [] => []
  | '\r' :: '\n' :: cs => '\n' :: unifyLineEnds cs
  | c :: cs => (if c = '\r' then '\n' else c) :: unifyLineEnds cs

def FileContents.sheet (contents : FileContents) (path : String) : Except Fault Sheet :=
  match contents.text? with
  | some text => .ok ⟨String.ofList (unifyLineEnds text.toList), some path⟩
  | none => .error (contents.fault path)

namespace Loader

variable (files : FileTree)

/-- The first file of a name in directories that are searched in order. A file outside of its
directory is refused. -/
def searchFile (name : String) (relative : Path) : List Path → Option (Except Fault Sheet)
  | [] => none
  | root :: rest =>
      match files.read? (root ++ relative) with
      | none => searchFile name relative rest
      | some contents =>
          let found := files.resolve (root ++ relative)
          if (files.resolve root).isPrefixOf found then
            some (contents.sheet (found.text files.root))
          else some (.error (.diagnostic (NameFault.outside.diagnostic name)))

mutual

def read (name : String) : Loader → Except Fault Sheet
  | entries _ templates =>
      match templates.lookup name with
      | some text => .ok ⟨text, none⟩
      | none => .error (.diagnostic (.missing name))
  | directories roots =>
      match safeName name with
      | .error fault => .error (.diagnostic (fault.diagnostic name))
      | .ok safe =>
          match searchFile files name (Path.ofText safe) roots with
          | some answer => answer
          | none =>
              .error (.diagnostic (.notFound ("Template '" ++ name ++ "' not found in: " ++
                String.intercalate ", " (roots.map (Path.text files.root)))))
  | firstOf loaders => readFirst name loaders

def readFirst (name : String) : List Loader → Except Fault Sheet
  | [] => .error (.diagnostic (.notFound ("Template '" ++ name ++ "' not found in any loader")))
  | l :: rest =>
      match l.read name with
      | .error fault => if fault.isNotFound then readFirst name rest else .error fault
      | answer => answer

end

mutual

def names : Loader → List String
  | entries listed templates => if listed then templates.map (·.1) else []
  | directories roots =>
      roots.flatMap fun root => (files.filesBelow root).map (String.intercalate "/")
  | firstOf loaders => namesOf loaders

def namesOf : List Loader → List String
  | [] => []
  | l :: rest => l.names ++ namesOf rest

end

def sorted (names : List String) : List String :=
  (names.mergeSort fun a b => decide (a ≤ b)).eraseDups

def list (l : Loader) : List String := sorted (l.names files)

mutual

def weight : Loader → Nat
  | entries _ templates => (templates.map fun e => e.2.length + 1).sum
  | directories _ =>
      (files.nodes.map fun (_, n) =>
        match n with
        | .file contents _ =>
            match contents.text? with
            | some text => text.length + 1
            | none => 1
        | _ => 1).sum
  | firstOf loaders => weightOf loaders

def weightOf : List Loader → Nat
  | [] => 0
  | l :: rest => l.weight + weightOf rest

end

/-- The library of a loader. A path along includes names each template in some source. -/
def library (l : Loader) : Library := ⟨fun name => l.read files name, l.weight files⟩

mutual

def change (f : List (String × String) → List (String × String)) : Loader → Loader
  | entries listed templates => entries listed (f templates)
  | directories roots => directories roots
  | firstOf loaders => firstOf (changeAll f loaders)

def changeAll (f : List (String × String) → List (String × String)) : List Loader → List Loader
  | [] => []
  | l :: rest => l.change f :: changeAll f rest

end

end Loader

end Stencil
