import Stencil.Environment.Basic
import Stencil.Files.Tree

namespace Stencil

structure Loaded where
  name : Option String
  filename : Option String
  source : String
  code : List Code
  fromCache : Bool
  dependencies : List String

namespace Loaded

def shown (t : Loaded) : String := "<Template " ++ firstGiven [t.name] "(inline)" ++ ">"

end Loaded

namespace Engine

/-- Assembles a source. Includes that are missing are logged, also if assembling fails. -/
def assemble (s : Source) : EngineM Assembled := do
  let e ← get
  let (result, trail) := (e.plan.assemble s).run {}
  set { e with log := e.log ++ trail.missing.map missingIncludeText }
  ExceptT.mk (pure result)

/-- Assembles a template that is given as text. It is never cached. -/
def fromString (text : String) (name : Option String) : EngineM Loaded := do
  let a ← assemble ⟨text, name, none⟩
  return ⟨name, none, text, a.code, false, a.dependencies⟩

def cacheKey? (e : Engine) (filename : Option String) : Option Path :=
  match filename with
  | some file =>
      let path := e.files.pathOf file
      if e.env.options.usesDisk && e.files.isFile path then some path else none
  | none => none

def cached? (name : String) (sheet : Sheet) : EngineM (Option (List Code)) := do
  let e ← get
  match e.cacheKey? sheet.filename with
  | some p =>
      let (found, disk) := e.disk.get (.plain _) e.files e.now p
      set { e with disk }
      ExceptT.mk (pure found)
  | none =>
      return (e.env.memory.lookup name).bind fun m =>
        if m.source = sheet.text then some m.code else none

def remember (name : String) (sheet : Sheet) (a : Assembled) : EngineM Unit :=
  modify fun e =>
    match e.cacheKey? sheet.filename with
    | some p =>
        let others := a.dependencies.map e.files.pathOf
        { e with disk := e.disk.put (.plain _) e.files e.now p others a.code }
    | none =>
        { e with env := { e.env with memory := setNamed name ⟨sheet.text, a.code⟩ e.env.memory } }

/-- The template of a name. A template whose includes are not all there is not cached. -/
def getTemplate (name : String) (useCache : Option Bool) : EngineM Loaded := do
  let e ← get
  let caching := useCache.getD e.env.options.cacheEnabled
  let sheet ← ExceptT.mk (pure (e.plan.sheet name))
  let found ← if caching then cached? name sheet else pure none
  match found with
  | some code => return ⟨some name, sheet.filename, sheet.text, code, true, []⟩
  | none =>
      let a ← assemble ⟨sheet.text, some name, sheet.filename⟩
      if caching && a.complete then remember name sheet a
      return ⟨some name, sheet.filename, sheet.text, a.code, false, a.dependencies⟩

/-! Changes of the options, the registered names, the variables, the loader and the files. -/

def changeEnv (f : Environment → Environment) : EngineM Unit :=
  modify fun e => { e with env := f e.env }

def changeOptions (f : Options → Options) : EngineM Unit :=
  changeEnv fun e => { e with options := f e.options }

def assign (entries : List (String × Value)) : EngineM Unit := changeEnv fun e => e.assign entries

/-- Changes the registered names, unless the change is refused. -/
def changeRegistries (f : Registries → Except Fault Registries) : EngineM Unit := do
  match f (← get).env.registries with
  | .ok registries => changeEnv fun e => { e with registries }
  | .error fault => throw fault

def register (t : Table) (name : String) (v : Value) : EngineM Unit :=
  changeRegistries fun r => r.register t name v

def registerAll (t : Table) (entries : List (String × Value)) : EngineM Unit :=
  changeRegistries fun r => r.registerAll t entries

def table (t : Table) : EngineM Registry := return (← get).env.registries.table t

def requireName (t : Table) (name : String) : EngineM Unit := do
  if ((← table t).lookup name).isNone then
    throw (.missingKey (String.ofList (Text.quoted name.toList)))

def changeTemplates (f : List (String × String) → List (String × String)) : EngineM Unit :=
  changeEnv fun e => { e with loader := e.loader.map (Loader.change f) }

def changeFile (c : FileChange) : EngineM Unit := do
  let e ← get
  match c.apply e.files e.now with
  | .ok files => set { e with files }
  | .error fault => throw fault

def source (name : String) : EngineM Sheet := do ExceptT.mk (pure ((← get).plan.library.read name))

def templateNames : EngineM (List String) := do
  let e ← get
  return e.env.loader.elim [] (Loader.list e.files)

end Engine

end Stencil
