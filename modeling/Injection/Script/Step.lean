import Injection.Concurrent
import Injection.Script.Exhibit
import Injection.Script.Session
import Injection.Text.Structure

/-!
# Running scripts

The steps of a script run one after the other. Each yields an answer, the lines that were logged
meanwhile, and what the loggers received.
-/

namespace Injection.Script

/-- What is shown of a binding: the texts of its key and its kind, and whether it may replace another. -/
structure BindingSummary where
  key : String
  kind : String
  isOverride : Bool

/-- Sums up a binding. -/
def summary (b : Binding Value Journal) : BindingSummary :=
  ⟨b.key.text, kindText b.kind, b.isOverride⟩

/-- The answer to a query: an object or nothing, or an error. -/
abbrev Shown := Except ResolveError (Option Exhibit)

/-- The answer to a step. -/
inductive Answer where
  /-- The step was carried out. -/
  | done (word : String)
  | refused (error : BindError)
  | invalid (error : DescriptorError)
  | failed (error : ResolveError)
  /-- A module: its bindings in order. -/
  | module (size : Nat) (isEmpty : Bool) (bindings : List BindingSummary)
  | bindings (bindings : List BindingSummary)
  /-- What a module has under a key, with the text of the binding if it was asked for. -/
  | entry (contains : Bool) (binding : Option BindingSummary) (text : Option (Option String))
  /-- What a behavior makes of a binding. -/
  | applied (size : Nat) (isEmpty : Bool) (text : String) (before after : BindingSummary)
  | descriptor (descriptor : Option Descriptor)
  | synthesized (binding : Option BindingSummary)
  | shown (exhibit : Option Exhibit)
  | truth (b : Bool)
  | texts (texts : List String)
  | names (names : List (Option String))
  | scopeOwner (has : Bool) (owner : Option String)
  | raced (answers : List Shown)

/-- The answer to a step, with what was logged and traced meanwhile. -/
structure Report where
  answer : Answer
  log : List String
  trace : List String

/-- A module in brief. -/
def moduleAnswer (m : Module Value Journal) : Answer :=
  .module m.size m.entries.isEmpty (m.bindings.map summary)

/-- Shows the answer to a query. -/
def Play.exhibit (reply : Reply Value) : Play Shown :=
  modifyGet fun s =>
    match reply with
    | .error e => (.error e, s)
    | .ok found =>
      let (shown, labels) := exhibit? s.labels found
      (.ok shown, { s with labels })

/-- Shows the answers to several queries, in order. -/
def Play.exhibitAll (replies : List (Reply Value)) : Play (List Shown) :=
  replies.mapM Play.exhibit

/-- The number of steps that racing threads may take. -/
def raceLimit : Nat := 1 <<< 62

/-- Runs tasks at once, each on a thread of its own; the lines they log are sorted. -/
def Play.race (tasks : List (Task Value Journal (Reply Value))) :
    Play (List (Reply Value)) := do
  let s ← get
  let ended := Machine.run raceLimit (.start s.world s.gates tasks)
  set { s with world := ended.world, gates := ended.gates.opened }
  Play.journal fun j => ((), { j with log := j.log.mergeSort (fun a b => !(b < a)) })
  match ended.results.mapM id with
  | some replies => return replies
  | none => throw (.halted .stuck)

/-- Carries out a registration in a module, which keeps what was registered before a refusal. -/
def Play.register (name word : String)
    (f : Module Value Journal → Journal →
      (Except BindError Unit × Module Value Journal) × Journal) : Play Answer := do
  let m ← Play.module name
  let (result, m) ← Play.journal (f m)
  Play.setModule name m
  match result with
  | .ok () => return .done word
  | .error e => return .refused e

/-- Numbers a plan of an entry, if its descriptor is valid. -/
def makeEntry (descriptor : Descriptor) (plan : ConstructorPlan) :
    Play (CatalogEntry Value Journal) := do
  let provider ← Play.newProvider
  Play.world fun w => w.newEntry descriptor (plan.constructor provider descriptor.target.id)

/-- Carries out a step. -/
def Step.play : Step → Play Answer
  | newModule name => do
    Play.setModule name .empty
    return moduleAnswer .empty
  | buildModule name plans => do
    let declarations ← plans.mapM DeclarationPlan.make
    match ← Play.journal (Module.build declarations) with
    | .error e => return .refused e
    | .ok m =>
      Play.setModule name m
      return moduleAnswer m
  | bind name plan behaviorPlan => do
    let binding ← plan.make
    match behaviorPlan with
    | none => Play.register name "bound" fun m j => (m.bind binding, j)
    | some behaviorPlan => do
      let behavior ← behaviorPlan.make
      Play.register name "bound" fun m j => m.bindWith binding behavior j
  | merge name other => do
    let added ← Play.module other
    Play.register name "included" fun m j => (m.merge added, j)
  | listModule name => return moduleAnswer (← Play.module name)
  | moduleBindings name => return .bindings ((← Play.module name).bindings.map summary)
  | moduleEntry name key withText => do
    let m ← Play.module name
    let found := m.get? key
    return .entry (m.contains key) (found.map summary)
      (if withText then some (found.map Binding.structureText) else none)
  | applyBehavior plan behaviorPlan => do
    let binding ← plan.make
    let behavior ← behaviorPlan.make
    let after ← Play.journal (behavior.apply binding)
    return .applied behavior.length behavior.chain.isEmpty behavior.structureText
      (summary binding) (summary after)
  | register name plans => do
    match plans.mapM fun (plan, construct) => plan.validate.map fun d => (d, construct) with
    | .error e => return .invalid e
    | .ok described =>
      let catalog := ((← get).catalogs.lookup name).getD .empty
      let entries ← described.mapM fun (d, construct) => makeEntry d construct
      Play.setCatalog name (entries.foldl Catalog.register catalog)
      return .done "registered"
  | descriptor name target => do
    return .descriptor (((← Play.catalog name).find? target).map CatalogEntry.descriptor)
  | synthesize plan key component => do
    let factory ← plan.make
    let c ← Play.component component
    match ← Play.run (Resolution.synthesis .silent (factory key c)) with
    | .error e => return .failed e
    | .ok found => return .synthesized (found.map summary)
  | buildComponent name childOf calls => do
    let start ← match childOf with
      | none => pure ComponentBuilder.empty
      | some parentName => do
        let parent ← Play.component parentName
        pure (ComponentBuilder.child (← get).world parent)
    let builder ← calls.foldlM ComponentCall.apply start
    match (← get).world.build builder with
    | .error e => return .refused e
    | .ok (c, w) =>
      Play.world fun _ => ((), w)
      Play.nameComponent name c
      return .done "built"
  | componentOf name moduleName => do
    let m ← Play.module moduleName
    let c ← Play.world fun w => w.addComponent (ComponentBuilder.empty.component m)
    Play.nameComponent name c
    return .done "built"
  | drop name => do
    Play.dropComponent name
    return .done "dropped"
  | query asked => do
    let c ← Play.component asked.component
    match ← Play.exhibit (← Play.run (asked.query.task c)) with
    | .error e => return .failed e
    | .ok found => return .shown found
  | contains component key => do
    let c ← Play.component component
    return .truth ((← get).world.contains c key)
  | keys component => do
    let c ← Play.component component
    let texts := ((← get).world.bindings c).map fun b => b.key.text
    return .texts (texts.mergeSort fun a b => !(b < a))
  | parents component => do
    let c ← Play.component component
    let w := (← get).world
    return .names ((w.livingParents c).map w.surroundings.nameOf?)
  | scopes component => do
    let c ← Play.component component
    return .texts (((← get).world.scopes c).map ScopeTag.name)
  | scopeOwner component tag => do
    let c ← Play.component component
    let w := (← get).world
    return .scopeOwner (w.hasScope c tag)
      ((w.scopeOwner? c tag).bind w.surroundings.nameOf?)
  | same first second => do
    return .truth ((← Play.component first) = (← Play.component second))
  | race queries => do
    let tasks ← queries.mapM fun asked => do
      return asked.query.task (← Play.component asked.component)
    return .raced (← Play.exhibitAll (← Play.race tasks))

/-- Carries out a step and reports what happened meanwhile. -/
def Step.report (step : Step) : Play Report := do
  Play.world fun w =>
    ((), { w with trace := [], surroundings := { w.surroundings with log := [] } })
  let answer ← step.play
  let w := (← get).world
  let trace := w.trace.map fun (logger, event) => logger ++ ": " ++ event.text
  return ⟨answer, w.surroundings.log, trace⟩

/-- Carries out the steps of a script in order. -/
def perform (steps : List Step) : Except Problem (List Report) :=
  (steps.mapM Step.report).run' .initial

end Injection.Script
