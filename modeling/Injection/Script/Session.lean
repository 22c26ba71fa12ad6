import Injection.Sequential
import Injection.Script.Plan

/-!
# Carrying out plans

A session keeps the world together with the modules and catalogs that a script has named. Plans are
carried out in a session: each description is turned into what it describes.
-/

namespace Injection.Script

/-- What a script has at hand: the world, what goes by a name, the labels of the objects shown so
far, the number of providers, and the gates that are open. -/
structure Session where
  world : World Value Journal
  modules : List (String × Module Value Journal)
  catalogs : List (String × Catalog Value Journal)
  labels : List Nat
  providers : Nat
  gates : List String

/-- The session before the first step. -/
def Session.initial : Session := ⟨.initial .empty, [], [], [], 0, []⟩

/-- Why a script makes no sense. -/
inductive Problem where
  | unknownModule (name : String)
  | unknownCatalog (name : String)
  | unknownComponent (name : String)
  | noBinding (key : Key)
  | halted (halt : Halt)

/-- What a problem is called. -/
def Problem.text : Problem → String
  | unknownModule name => "no module " ++ name
  | unknownCatalog name => "no catalog " ++ name
  | unknownComponent name => "no component " ++ name
  | noBinding key => "no binding for " ++ key.text
  | halted _ => "the resolution does not end"

/-- How deep requests may be nested. -/
def depthLimit : Nat := 10000

/-- A part of a script, which changes the session or makes no sense. -/
abbrev Play := StateT Session (Except Problem)

namespace Play

/-- Changes the world, with a result. -/
def world {α : Type} (f : World Value Journal → α × World Value Journal) : Play α :=
  modifyGet fun s => let (a, w) := f s.world; (a, { s with world := w })

/-- Changes the surroundings, with a result. -/
def journal {α : Type} (f : Journal → α × Journal) : Play α := world (·.withSurroundings f)

/-- The module of a name. -/
def module (name : String) : Play (Module Value Journal) := do
  match (← get).modules.lookup name with
  | some m => return m
  | none => throw (.unknownModule name)

/-- The catalog of a name. -/
def catalog (name : String) : Play (Catalog Value Journal) := do
  match (← get).catalogs.lookup name with
  | some c => return c
  | none => throw (.unknownCatalog name)

/-- The component of a name, if one goes by it. -/
def component? (name : String) : Play (Option ComponentId) := do
  return (← get).world.surroundings.component? name

/-- The component of a name. -/
def component (name : String) : Play ComponentId := do
  match ← component? name with
  | some c => return c
  | none => throw (.unknownComponent name)

/-- Gives a name to a module. -/
def setModule (name : String) (m : Module Value Journal) : Play Unit :=
  modify fun s =>
    { s with modules := (name, m) :: s.modules.filter fun entry => entry.1 ≠ name }

/-- Gives a name to a catalog. -/
def setCatalog (name : String) (c : Catalog Value Journal) : Play Unit :=
  modify fun s =>
    { s with catalogs := (name, c) :: s.catalogs.filter fun entry => entry.1 ≠ name }

/-- Takes a name from its component and drops the component. -/
def dropComponent (name : String) : Play Unit := do
  match ← component? name with
  | none => return
  | some c =>
    world fun w => ((), w.drop c)
    journal fun j => ((), { j with names := j.names.filter fun entry => entry.1 ≠ name })

/-- Gives a name to a component, dropping the one that had it. -/
def nameComponent (name : String) (c : ComponentId) : Play Unit := do
  dropComponent name
  journal fun j => ((), { j with names := (name, c) :: j.names })

/-- Numbers a new provider. -/
def newProvider : Play Nat :=
  modifyGet fun s => (s.providers, { s with providers := s.providers + 1 })

/-- Runs a task on its own. -/
def run {α : Type} (task : Task Value Journal α) : Play α := do
  match (← get).world.run depthLimit task with
  | .error halt => throw (.halted halt)
  | .ok (result, w) =>
    world fun _ => ((), w)
    return result

end Play

/-- Makes a definition; a recipe makes nodes of the type that it is given later. -/
def DefinitionPlan.make : DefinitionPlan → Play (TypeId → Definition Value Journal)
  | recipe described => do
    let provider ← Play.newProvider
    return fun type => described.definition provider type
  | object type value => do
    let made ← Play.world fun w => w.allocate type value
    return fun _ => .ofObject made
  | failing error => return fun _ => .failing (.dependency error)

/-- Logs when a definition is entered and how it is left. -/
def watched (name : String) (inner : Definition Value Journal) : Definition Value Journal :=
  fun context =>
    .touch (·.write ("enter " ++ name)) fun _ =>
      (inner context).andThen fun outcome =>
        let how := match outcome with | .ok _ => "ok" | .error _ => "err"
        .touch (·.write ("leave " ++ name ++ " " ++ how)) fun _ => .done outcome

/-- Logs a decoration and makes the decorated value. -/
def decoration (suffix : String) (object : Object Value) : Action Value Journal Value := do
  let _ ← Action.touch (·.write ("decorate " ++ suffix))
  return decorated suffix object

/-- Makes a change to bindings. -/
def Modification.make : Modification → Play (Binding Value Journal → Binding Value Journal)
  | key k => return (·.withKey k)
  | qualifier q => return (·.withQualifier q)
  | kind k => return (·.withKind k)
  | override isOverride => return (·.withOverride isOverride)
  | definition plan => do
    let made ← plan.make
    return fun b => b.withDefinition (made b.key.type.id)
  | watch name => return (·.mapDefinition (watched name))
  | decorate type suffix => return (·.decorate type (decoration suffix))

/-- Makes changes to bindings, to be applied in order. -/
def makeModifications (modifications : List Modification) :
    Play (Binding Value Journal → Binding Value Journal) := do
  let made ← modifications.mapM Modification.make
  return fun b => made.foldl (fun b f => f b) b

/-- Makes a binding. -/
def BindingSource.make : BindingSource → Play (Binding Value Journal)
  | object type carried => do
    let made ← Play.world fun w => w.allocate type.id carried
    return .ofObject type made
  | value type kind carried => return .ofValue type kind carried
  | recipe type kind described => do
    let provider ← Play.newProvider
    return .new (.of type) kind (described.provided provider type.id)
  | keyed key kind plan => do
    let definition ← plan.make
    return .new key kind (definition key.type.id)
  | synthesized catalog key component => do
    let found ← Play.catalog catalog
    let c ← Play.component component
    match ← Play.run (Resolution.consult .silent found key c) with
    | .ok (some binding) => return binding
    | _ => throw (.noBinding key)
  | like module key => do
    match (← Play.module module).get? key with
    | some binding => return binding
    | none => throw (.noBinding key)

/-- Makes a binding and changes it. -/
def BindingPlan.make (plan : BindingPlan) : Play (Binding Value Journal) := do
  let binding ← plan.source.make
  let change ← makeModifications plan.modifications
  return change binding

/-- What a kind is called. -/
def kindText : Kind → String
  | .factory => "factory"
  | .single => "single"
  | .multi => "multi"

/-- What the log says of a binding. -/
def bindingLine (name : String) (b : Binding Value Journal) : String :=
  name ++ " " ++ b.key.text ++ " " ++ kindText b.kind ++ " " ++
    (if b.isOverride then "true" else "false")

mutual

/-- Makes a behavior. -/
def BehaviorPlan.make : BehaviorPlan → Play (Behavior Value Journal)
  | .log name => return .of fun b journal => (b, journal.write (bindingLine name b))
  | .identity => return .identity
  | .chain plans => makeChain plans
  | .andThen first second => do
    let made ← first.make
    return made.andThen (← second.make)
  | .modify modifications condition => do
    let change ← makeModifications modifications
    return .of fun b journal => (if condition.holds b then change b else b, journal)

/-- Makes behaviors and adds them up in order. -/
def makeChain : List BehaviorPlan → Play (Behavior Value Journal)
  | [] => return .identity
  | first :: rest => do
    let made ← first.make
    return made + (← makeChain rest)

end

/-- What the kind of a resolution error is called. -/
def errorKind : ResolveError → String
  | .unresolved _ => "Unresolved"
  | .missingParameter _ _ _ => "MissingParameter"
  | .missingParameters _ => "MissingParameters"
  | .scopeMismatch _ _ => "ScopeMismatch"
  | .cyclicDependency _ => "CyclicDependency"
  | .incorrectType _ _ => "IncorrectType"
  | .dependency _ => "Instantiator.Deps"
  | .provider _ => "Instantiator.Factory"

/-- What the log says of the answer of a factory. -/
def answerText : SynthesisReply Value Journal → String
  | .error e => errorKind e
  | .ok none => "none"
  | .ok (some b) => b.key.text ++ " " ++ kindText b.kind

/-- A factory whose answers are logged. -/
def probed (name : String) (inner : Factory Value Journal) : Factory Value Journal :=
  fun key c =>
    (inner key c).andThen fun reply =>
      .touch
        (fun journal =>
          journal.write
            ("jit " ++ name ++ " " ++ key.text ++ " in "
              ++ (journal.nameOf? c).getD "null" ++ ": " ++ answerText reply))
        fun _ => .answer reply

/-- The answer of the first rule for a key. -/
def firstRule (key : Key) :
    List (Option Key × Except ResolveError (Binding Value Journal)) →
      SynthesisReply Value Journal
  | [] => .ok none
  | (asked, answer) :: rest =>
    if asked.all fun k => k.identity = key.identity then answer.map some else firstRule key rest

/-- Makes a rule. -/
def Rule.make (rule : Rule) :
    Play (Option Key × Except ResolveError (Binding Value Journal)) := do
  match rule.answer with
  | .error e => return (rule.key, .error e)
  | .ok plan => return (rule.key, .ok (← plan.make))

/-- Makes a factory. -/
def FactoryPlan.make : FactoryPlan → Play (Factory Value Journal)
  | catalog name => return (← Play.catalog name).factory
  | probe name inner => return probed name (← inner.make)
  | rules described => do
    let made ← described.mapM Rule.make
    return fun key _ => .answer (firstRule key made)

/-- Adds an option of a registration. -/
def ConfigCall.apply (config : BindingConfig Value Journal) :
    ConfigCall → Play (BindingConfig Value Journal)
  | named q => return config.named q
  | overriding => return config.overriding
  | intercepted plan => return config.intercepted (← plan.make)

/-- Makes a declaration. -/
def DeclarationPlan.make (plan : DeclarationPlan) :
    Play (Module.Declaration Value Journal) := do
  let binding ← plan.binding.make
  match plan.config, plan.behavior with
  | some calls, _ =>
    let config ← calls.foldlM ConfigCall.apply .default
    return config.declaration binding
  | none, some behavior => return ⟨binding, some (← behavior.make)⟩
  | none, none => return ⟨binding, none⟩

/-- Adds an option of a component. -/
def ComponentConfigCall.apply (config : ComponentConfig Value Journal) :
    ComponentConfigCall → Play (ComponentConfig Value Journal)
  | factory plan => return config.withFactory (← plan.make)
  | logger name => return config.withLogger name

/-- Makes a call on the builder of a component. -/
def ComponentCall.apply (b : ComponentBuilder Value Journal) :
    ComponentCall → Play (ComponentBuilder Value Journal)
  | scope tag => return b.scope tag
  | parent name => return b.parent (← Play.component name)
  | module name => return b.module (← Play.module name)
  | binding plan => return b.binding (← plan.make)
  | option call => return b.withConfig (← call.apply b.config)
  | config calls => return b.withConfig (← calls.foldlM ComponentConfigCall.apply .default)

end Injection.Script
