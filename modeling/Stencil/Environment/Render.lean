import Stencil.Environment.Templates

namespace Stencil

structure Rendering where
  outcome : Except Diagnostic (List Fragment)
  world : World

def renderCode (s : Setting) (code : List Code) (context : Context)
    (generators : Array (List Value)) : Rendering :=
  match (executeAll s code).run (World.start context generators) with
  | (.ok written, w) => ⟨.ok written, w⟩
  | (.error fault, w) => ⟨.error (s.renderError w.line fault), w⟩

def logText (s : Setting) (r : Reference) : String :=
  "Template undefined variable: " ++ r.name ++ "\n" ++ r.message ++ "\nFile: " ++
    s.placeOf r.line ++ "\nAvailable variables: " ++
    String.intercalate ", " (Loader.sorted r.available)

def reportOf (s : Setting) (r : Reference) : Report :=
  let d : Diagnostic := .undefinedReference (s.undefinedError r)
  ⟨r.name, Setting.reachedLine r.line, d.message.text⟩

namespace Engine

def settingOf (e : Engine) (t : Loaded) : Setting where
  host := e.host
  registries := e.env.registries
  name := t.name
  filename := t.filename
  source := t.source
  strict := e.env.isStrict

def observe (s : Setting) (e : Engine) (r : Reference) : Engine :=
  let counted := { e with
    env := { e.env with counter := e.env.counter.add r.name r.message (s.placeOf r.line) } }
  let o := e.env.options
  if o.strictVariables || o.development then
    if s.strict then counted else { counted with reports := counted.reports ++ [reportOf s r] }
  else if o.logUndefined then { counted with log := counted.log ++ [logText s r] }
  else counted

def absorb (e : Engine) (s : Setting) (w : World) : Engine :=
  let observed := w.references.foldl (observe s) e
  { observed with notes := observed.notes ++ w.notes, generators := w.generators }

def renderLoaded (t : Loaded) (fill : Context → Context) : EngineM String := do
  let e ← get
  let s := e.settingOf t
  let context := fill ((⟨[], []⟩ : Context).setAll e.env.globals)
  let r := renderCode s t.code context e.generators
  set (e.absorb s r.world)
  match r.outcome with
  | .ok written => return String.ofList (Fragment.charsOf written)
  | .error d => throw (.diagnostic d)

/-- Renders a template with positional and named arguments: at most one dictionary by position. -/
def callLoaded (t : Loaded) (a : Arguments) : EngineM String := do
  if a.named.any (·.1 == "self") then
    throw (.wrongArguments "Template.render() got multiple values for argument 'self'")
  match a.positional with
  | [] => renderLoaded t fun c => c.setAll a.named
  | [.dict entries] =>
      renderLoaded t fun c =>
        (entries.foldl (fun (c : Context) e => c.setKey e.1 e.2) c).setAll a.named
  | args =>
      throw (.wrongArguments ("render() takes at most 1 positional argument (a dict), got " ++
        toString args.length))

def renderNamed (name : String) (vars : List (String × Value)) (useCache : Option Bool) :
    EngineM String := do
  let t ← getTemplate name useCache
  let written ← renderLoaded t fun c => c.setAll vars
  let names := Loader.sorted (vars.map (·.1))
  let record : RenderRecord :=
    { template := name
      path := t.filename
      given := names
      elapsed := 0
      memory := 0
      outputSize := written.length
      fromCache := t.fromCache }
  modify fun e => { e with
    env := { e.env with
      history := e.env.history.record record
      collected := e.env.collected ++ [name] } }
  return written

end Engine

end Stencil
