import Stencil.Assembly.Assemble
import Stencil.Cache.Disk
import Stencil.Library.Loader
import Stencil.Telemetry.History

namespace Stencil

structure Options where
  cacheEnabled : Bool := true
  /-- The greatest age of a cached template in seconds, or null. -/
  cacheLifetime : Value := .int 3600
  strictVariables : Bool := false
  logUndefined : Bool := true
  development : Bool := false
  /-- Whether missing references are reported in development instead of ending the render. -/
  reports : Bool := false
  /-- Whether templates in files are cached beside them. -/
  usesDisk : Bool := false

structure Report where
  name : String
  line : Option Int
  text : String
  deriving DecidableEq, Repr

structure MemoryEntry where
  source : String
  code : List Code

structure Environment where
  options : Options := {}
  limits : Limits := {}
  registries : Registries := .builtin
  loader : Option Loader := none
  globals : List (String × Value) := []
  memory : List (String × MemoryEntry) := []
  counter : Counter := {}
  history : History := {}
  /-- The templates whose renders were passed on to the collector. -/
  collected : List String := []

structure Engine where
  env : Environment := {}
  host : Host
  files : FileTree
  disk : DiskCache (CacheContents (List Code)) := ⟨none, false, []⟩
  /-- The time in millionths of a second. -/
  now : Int := 0
  log : List String := []
  reports : List Report := []
  notes : List Value := []
  generators : Array (List Value) := #[]

/-- An operation of an engine. What it changed stays changed if it fails. -/
abbrev EngineM (α : Type) := ExceptT Fault (StateM Engine) α

/-- An age in seconds as millionths of a second; none if there is no limit. -/
def ticksOf? (seconds : Value) : Option Int :=
  match seconds.worth? with
  | some (.int i) => some (i * 1000000)
  | some (.float f) => Decimal.floor? (f * 1000000)
  | none => none

namespace Environment

def assign (e : Environment) (entries : List (String × Value)) : Environment :=
  { e with globals := entries.foldl (fun acc v => setNamed v.1 v.2 acc) e.globals }

def isStrict (e : Environment) : Bool :=
  e.options.strictVariables || (e.options.development && !e.options.reports)

end Environment

namespace Engine

def plan (e : Engine) : Plan where
  library := match e.env.loader with
    | some loader => loader.library e.files
    | none => .none
  registries := e.env.registries
  limits := e.env.limits

def setLifetime (e : Engine) (seconds : Value) : Engine :=
  { e with
    env := { e.env with options := { e.env.options with cacheLifetime := seconds } }
    disk := { e.disk with lifetime := ticksOf? seconds } }

/-- A new engine that works where an old one did: over its files, its cache on disk and its log. -/
def continuing (new old : Engine) : Engine :=
  { new with
    files := old.files, now := old.now, log := old.log, notes := old.notes
    disk := { old.disk with lifetime := new.disk.lifetime } }

def clearCache (e : Engine) : Engine :=
  { e with
    env := { e.env with memory := [] }
    disk := if e.env.options.usesDisk then e.disk.clear else e.disk }

end Engine

end Stencil
