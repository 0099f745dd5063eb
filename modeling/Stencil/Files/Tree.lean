import Stencil.Text.Percent
import Stencil.Value.Fault

/-!
A tree of files, directories and symbolic links, and its changes. Files and directories have a time
of change. What is written or touched is given an age; an age below zero lies in the future.
-/

namespace Stencil

abbrev Path := List String

namespace Path

def splitParts : List Char → List (List Char)
  | [] => [[]]
  | c :: cs =>
      if c = '/' then [] :: splitParts cs
      else
        match splitParts cs with
        | [] => [[c]]
        | part :: parts => (c :: part) :: parts

/-- The path that a text writes. Empty parts and single dots stand for nothing. -/
def ofText (text : String) : Path :=
  ((splitParts text.toList).filter fun part => part ≠ [] ∧ part ≠ ['.']).map String.ofList

def text (root : String) (p : Path) : String := String.intercalate "/" (root :: p)

end Path

inductive FileContents
  | bytes (bytes : ByteArray)
  /-- What may not be opened. -/
  | locked

namespace FileContents

def ofText (text : String) : FileContents := bytes text.toUTF8

/-- Why bytes write no text, with the span of the first sequence that is no character. The bytes
begin at a position, and `skip` of them still belong to a character. -/
def undecodable : (position skip : Nat) → List UInt8 → String
  | position, _, [] => spanned position 0 position "unexpected end of data"
  | position, skip + 1, _ :: rest => undecodable (position + 1) skip rest
  | position, 0, b :: rest =>
      match Text.utf8Lead? b.toNat with
      | none => spanned b.toNat position (position + 1) "invalid start byte"
      | some (size, bits, low, high) =>
          match Text.utf8Rest (size - 1) bits low high rest with
          | (count, some _) => undecodable (position + 1) count rest
          | (count, none) =>
              spanned b.toNat position (position + 1 + count)
                (if rest.length = count then "unexpected end of data"
                else "invalid continuation byte")
where
  spanned (byte first after : Nat) (reason : String) : String :=
    "'utf-8' codec can't decode " ++
      (if after = first + 1 then
        "byte 0x" ++ String.ofList (Text.hex 2 byte) ++ " in position " ++ toString first
      else "bytes in position " ++ toString first ++ "-" ++ toString (after - 1)) ++
      ": " ++ reason

def text? : FileContents → Option String
  | bytes b => String.fromUTF8? b
  | locked => none

def fault (path : String) : FileContents → Fault
  | bytes b => .undecodable (undecodable 0 0 b.data.toList)
  | locked => .accessDenied path

end FileContents

/-- What stands at a path. The target of a link is a path from the root. -/
inductive FileNode
  | file (contents : FileContents) (changed : Int)
  | directory (changed : Int)
  | link (target : Path)

/-- Everything below a root. Each path occurs once. -/
structure FileTree where
  /-- The name of the root, with which all paths begin as text. -/
  root : String
  nodes : List (Path × FileNode) := []

namespace FileTree

def pathOf (t : FileTree) (text : String) : Path :=
  Path.ofText (String.ofList (text.toList.drop t.root.length))

/-- What stands at a path itself; links are not followed. -/
def node? (t : FileTree) (p : Path) : Option FileNode :=
  match p with
  | [] => some (.directory 0)
  | p => t.nodes.lookup p

/-- Follows the parts of a path from a place. Each part that is a link is replaced by its target,
for at most `rounds` parts and links; what does not exist is taken as written. -/
def walk (t : FileTree) : (rounds : Nat) → (reached : Path) → (rest : Path) → Option Path
  | _, reached, [] => some reached
  | 0, _, _ :: _ => none
  | rounds + 1, reached, part :: rest =>
      if part = ".." then walk t rounds reached.dropLast rest
      else
        match t.node? (reached ++ [part]) with
        | some (.link target) => walk t rounds [] (target ++ rest)
        | _ => walk t rounds (reached ++ [part]) rest

/-- A path without links on its way. More than a few hundred steps are taken for a circle of
links. -/
def resolve? (t : FileTree) (p : Path) : Option Path := t.walk (p.length + 400) [] p

/-- A path without links, or the path itself if its links go in a circle. -/
def resolve (t : FileTree) (p : Path) : Path := (t.resolve? p).getD p

/-- Where a path stands, itself not followed if it is a link, but those on its way. -/
def place (t : FileTree) (p : Path) : Path :=
  match p.getLast? with
  | some last => t.resolve p.dropLast ++ [last]
  | none => []

def target? (t : FileTree) (p : Path) : Option FileNode :=
  match (t.resolve? p).bind t.node? with
  | some (.link _) => none
  | found => found

def read? (t : FileTree) (p : Path) : Option FileContents :=
  match t.target? p with
  | some (.file contents _) => some contents
  | _ => none

def isFile (t : FileTree) (p : Path) : Bool := (t.read? p).isSome

def isDirectory (t : FileTree) (p : Path) : Bool :=
  match t.target? p with
  | some (.directory _) => true
  | _ => false

/-- Follows the parts of a path like `walk`, but only through directories that are there. -/
def follow (t : FileTree) : (rounds : Nat) → (reached : Path) → (rest : Path) → Option Path
  | _, reached, [] => some reached
  | 0, _, _ :: _ => none
  | rounds + 1, reached, part :: rest =>
      match t.node? reached with
      | some (.directory _) =>
          if part = ".." then follow t rounds reached.dropLast rest
          else
            match t.node? (reached ++ [part]) with
            | some (.link target) => follow t rounds [] (target ++ rest)
            | _ => follow t rounds (reached ++ [part]) rest
      | _ => none

def changed? (t : FileTree) (p : Path) : Option Int :=
  match (t.follow (p.length + 400) [] p).bind t.node? with
  | some (.file _ changed) | some (.directory changed) => some changed
  | _ => none

def setNode (t : FileTree) (p : Path) (n : FileNode) : FileTree :=
  { t with nodes := t.nodes.filter (·.1 ≠ p) ++ [(p, n)] }

def makeDirectory (t : FileTree) (p : Path) (now : Int) : FileTree :=
  let p := t.resolve p
  (List.range p.length).foldl
    (fun t i =>
      let q := p.take (i + 1)
      if (t.node? q).isSome then t else t.setNode q (.directory now))
    t

def write (t : FileTree) (p : Path) (contents : FileContents) (changed : Int) : FileTree :=
  let p := t.resolve p
  (t.makeDirectory p.dropLast changed).setNode p (.file contents changed)

def touch? (t : FileTree) (p : Path) (changed : Int) : Option FileTree :=
  match t.target? p with
  | some (.file contents _) => some (t.setNode (t.resolve p) (.file contents changed))
  | some (.directory _) => some (t.setNode (t.resolve p) (.directory changed))
  | _ => none

def link (t : FileTree) (p target : Path) (now : Int) : FileTree :=
  let p := t.place p
  (t.makeDirectory p.dropLast now).setNode p (.link target)

def delete? (t : FileTree) (p : Path) : Option FileTree :=
  let p := t.place p
  match t.nodes.lookup p with
  | some _ => some { t with nodes := t.nodes.filter fun e => !p.isPrefixOf e.1 }
  | none => none

/-- The paths of the files below a directory, as seen from there. Links to files count; links to
directories are not entered. -/
def filesBelow (t : FileTree) (base : Path) : List Path :=
  if t.isDirectory base then
    let top := t.resolve base
    t.nodes.filterMap fun (p, _) =>
      if top.isPrefixOf p && p ≠ top && t.isFile (base ++ p.drop top.length) then
        some (p.drop top.length)
      else none
  else []

end FileTree

inductive FileChange
  | write (p : Path) (contents : FileContents) (age : Int)
  | touch (p : Path) (age : Int)
  | delete (p : Path)
  | makeDirectory (p : Path)
  | link (p target : Path)

namespace FileChange

def orMissing (t : FileTree) (p : Path) (changed : Option FileTree) : Except Fault FileTree :=
  match changed with
  | some t => .ok t
  | none => .error (.noSuchFile (p.text t.root))

def apply (t : FileTree) (now : Int) : FileChange → Except Fault FileTree
  | write p contents age => .ok (t.write p contents (now - age))
  | touch p age => orMissing t p (t.touch? p (now - age))
  | delete p => orMissing t p (t.delete? p)
  | makeDirectory p => .ok (t.makeDirectory p now)
  | link p target => .ok (t.link p target now)

end FileChange

end Stencil
