import Stencil.Files.Tree

/-!
A cache of what templates were turned into, kept beside the templates. An entry is good while it is
at least as new as its source and everything else it was made from, and not too old. Entries have no
check sums: what can be read in one is taken for what was put there.
-/

namespace Stencil

/-- What reading an entry comes to: a result and what it was made from besides the source, or
contents that are recognised as damaged, or a failure. -/
inductive CacheReading (α : Type)
  | result (others : List Path) (a : α)
  | damaged
  | failed (fault : Fault)

structure CacheCoding (κ α : Type) where
  write : List Path → α → κ
  read : κ → CacheReading α
  read_write : ∀ others a, read (write others a) = .result others a

/-- Contents that are known by what they are read as. -/
inductive CacheContents (α : Type)
  | result (others : List Path) (a : α)
  | damaged (empty : Bool)

def CacheCoding.plain (α : Type) : CacheCoding (CacheContents α) α where
  write := .result
  read
    | .result others a => .result others a
    | .damaged _ => .damaged
  read_write _ _ := rfl

structure CacheEntry (κ : Type) where
  written : Int
  contents : κ

structure DiskCache (κ : Type) where
  /-- The greatest age of a good entry, if there is a limit. -/
  lifetime : Option Int
  /-- Whether the directory of the cache was made. -/
  made : Bool := false
  entries : List (Path × CacheEntry κ) := []

namespace DiskCache

variable {κ α : Type}

def discard (c : DiskCache κ) (key : Path) : DiskCache κ :=
  { c with entries := c.entries.filter (·.1 ≠ key) }

def isExpired (c : DiskCache κ) (now : Int) (e : CacheEntry κ) : Bool :=
  c.lifetime.any fun limit => limit < now - e.written

/-- Whether a file is there and was not changed after an entry was written. -/
def isSettled (files : FileTree) (e : CacheEntry κ) (p : Path) : Bool :=
  (files.changed? p).any (· ≤ e.written)

/-- What is cached for a source. An entry that is not good any more is removed; one that cannot be
read to its end stays. -/
def get (c : DiskCache κ) (coding : CacheCoding κ α) (files : FileTree) (now : Int) (p : Path) :
    Except Fault (Option α) × DiskCache κ :=
  let key := files.resolve p
  match c.entries.lookup key with
  | none => (.ok none, c)
  | some e =>
      if c.isExpired now e then (.ok none, c.discard key)
      else
        match coding.read e.contents with
        | .failed fault => (.error fault, c)
        | .damaged => (.ok none, c.discard key)
        | .result others a =>
            if (p :: others).all (isSettled files e) then (.ok (some a), c)
            else (.ok none, c.discard key)

def put (c : DiskCache κ) (coding : CacheCoding κ α) (files : FileTree) (now : Int) (p : Path)
    (others : List Path) (a : α) : DiskCache κ :=
  let key := files.resolve p
  { c.discard key with
    made := true
    entries := (c.discard key).entries ++ [(key, ⟨now, coding.write others a⟩)] }

def clear (c : DiskCache κ) : DiskCache κ := { c with entries := [] }

def stamp (c : DiskCache κ) (written : Int) : DiskCache κ :=
  { c with entries := c.entries.map fun (key, e) => (key, { e with written }) }

def damage (c : DiskCache (CacheContents α)) (now : Int) (empty : Bool) :
    DiskCache (CacheContents α) :=
  { c with entries := c.entries.map fun (key, _) => (key, ⟨now, .damaged empty⟩) }

def holdsBytes (c : DiskCache (CacheContents α)) : Bool :=
  c.entries.any fun (_, e) =>
    match e.contents with
    | .damaged true => false
    | _ => true

end DiskCache

end Stencil
