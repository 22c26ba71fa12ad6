import Injection.Factory
import Injection.Module
import Injection.Waiting

/-!
# Components and their hierarchy

A component keeps bindings, knows its parents and has factories to fall back on. Parents are only
referred to: a dropped parent is passed over. All components live in one world, together with the
cells that keep the values made so far. A cell is addressed by what it belongs to, so whoever
refers to a binding stored in a component refers to the same cells.
-/

namespace Injection

variable {V E : Type}

/-- What a value is kept for. -/
inductive Slot where
  /-- The value of a single binding stored in a component. -/
  | single (owner : ComponentId) (key : KeyId)
  /-- The value of a multi binding stored in a component, for parameters of a fingerprint. -/
  | multi (owner : ComponentId) (key : KeyId) (fingerprint : UInt64)
  /-- The shared value of a catalog entry. -/
  | shared (entry : EntryId)
deriving DecidableEq

/-- The state of a value that is made at most once. -/
inductive Cell (V : Type) where
  | empty
  /-- Being made by the resolution of this number. -/
  | creating (resolution : Nat)
  | ready (object : Object V)

/-- Options of a component. Later factories are asked first. -/
structure ComponentConfig (V E : Type) where
  logger : Option String
  factories : List (Factory V E)

namespace ComponentConfig

/-- Neither logger nor factories. -/
def default : ComponentConfig V E := ⟨none, []⟩

/-- Reports to a logger, in place of another. -/
def withLogger (config : ComponentConfig V E) (logger : String) : ComponentConfig V E :=
  { config with logger := some logger }

/-- Falls back on a factory before those already given. -/
def withFactory (config : ComponentConfig V E) (factory : Factory V E) : ComponentConfig V E :=
  { config with factories := config.factories ++ [factory] }

end ComponentConfig

/-- A resolution root. Parents are in the order they are searched in, the last added first. -/
structure Component (V E : Type) where
  scopes : List ScopeTag
  parents : List ComponentId
  bindings : List (Binding V E)
  config : ComponentConfig V E
  alive : Bool

/-- A binding together with the component that stores it. -/
structure Stored (V E : Type) where
  owner : ComponentId
  binding : Binding V E

/-- All components, the values made so far, who waits for whom, and the next free numbers. -/
structure World (V E : Type) where
  components : List (Component V E)
  cells : Slot → Cell V
  waiting : Waiting
  nextObject : Nat
  nextResolution : Nat
  nextEntry : Nat
  surroundings : E
  trace : List (String × Event)

/-- The binding stored under exactly a key. -/
def Component.binding? (component : Component V E) (key : KeyId) : Option (Binding V E) :=
  component.bindings.find? fun binding => binding.key.identity = key

/-- The binding that serves a key: the one under exactly that key before any other that may. -/
def Component.serving? (component : Component V E) (key : Key) : Option (Binding V E) :=
  if key.nullable then
    component.binding? key.identity <|> component.binding? key.required.identity
  else
    component.binding? key.identity

namespace World

/-- The world before anything is built. -/
def initial (surroundings : E) : World V E :=
  { components := [], cells := fun _ => .empty, waiting := .empty, nextObject := 0,
    nextResolution := 0, nextEntry := 0, surroundings, trace := [] }

/-- The component at a place. -/
def component? (w : World V E) (c : ComponentId) : Option (Component V E) := w.components[c]?

/-- The parents of a component, dropped ones included. -/
def parents (w : World V E) (c : ComponentId) : List ComponentId :=
  ((w.component? c).map Component.parents).getD []

/-- Whether a component has not been dropped. -/
def isAlive (w : World V E) (c : ComponentId) : Bool :=
  ((w.component? c).map Component.alive).getD false

/-- The parents of a component that have not been dropped. -/
def livingParents (w : World V E) (c : ComponentId) : List ComponentId :=
  (w.parents c).filter w.isAlive

/-- The scope tags of a component. -/
def scopes (w : World V E) (c : ComponentId) : List ScopeTag :=
  ((w.component? c).map Component.scopes).getD []

/-- The bindings stored in a component. -/
def bindings (w : World V E) (c : ComponentId) : List (Binding V E) :=
  ((w.component? c).map Component.bindings).getD []

/-- The options of a component. -/
def config (w : World V E) (c : ComponentId) : ComponentConfig V E :=
  ((w.component? c).map Component.config).getD .default

/-- Whether a component declares a scope. -/
def hasScope (w : World V E) (c : ComponentId) (tag : ScopeTag) : Bool :=
  (w.scopes c).contains tag

/-- The binding stored in a component under exactly a key. -/
def binding? (w : World V E) (c : ComponentId) (key : KeyId) : Option (Binding V E) :=
  (w.component? c).bind fun component => component.binding? key

/-- The binding stored in a component that serves a key. -/
def serving? (w : World V E) (c : ComponentId) (key : Key) : Option (Binding V E) :=
  (w.component? c).bind fun component => component.serving? key

/-- The nearest component that declares a scope, within a number of generations: the component
itself and then its living parents in order, each with its own ancestors. -/
def scopeOwnerWithin? (w : World V E) (tag : ScopeTag) :
    (generations : Nat) → ComponentId → Option ComponentId
  | 0, _ => none
  | generations + 1, c =>
    if w.hasScope c tag then some c
    else (w.livingParents c).findSome? (w.scopeOwnerWithin? tag generations)

/-- The nearest component that declares a scope. Parents are built before their children, so the
place of a component bounds the number of its generations. -/
def scopeOwner? (w : World V E) (c : ComponentId) (tag : ScopeTag) : Option ComponentId :=
  w.scopeOwnerWithin? tag (c + 1) c

/-- Changes one component. -/
def modifyComponent (w : World V E) (c : ComponentId)
    (f : Component V E → Component V E) : World V E :=
  { w with components := w.components.modify c f }

/-- Stores a binding in a component, unless one is stored under its key. -/
def memoize (w : World V E) (c : ComponentId) (binding : Binding V E) : World V E :=
  match w.binding? c binding.key.identity with
  | some _ => w
  | none =>
    w.modifyComponent c fun component =>
      { component with bindings := component.bindings ++ [binding] }

/-- Replaces the state of a cell. -/
def setCell (w : World V E) (slot : Slot) (cell : Cell V) : World V E :=
  { w with cells := fun other => if other = slot then cell else w.cells other }

/-- Appends a report to the trace of a logger, if there is one. -/
def emit (w : World V E) (logger : Option String) (event : Event) : World V E :=
  match logger with
  | some name => { w with trace := w.trace ++ [(name, event)] }
  | none => w

/-- Takes note that a component is not used any more. -/
def drop (w : World V E) (c : ComponentId) : World V E :=
  w.modifyComponent c fun component => { component with alive := false }

/-- A new object under the next number, and the world in which that number is used up. -/
def allocate (w : World V E) (type : TypeId) (value : V) : Object V × World V E :=
  (⟨w.nextObject, type, value⟩, { w with nextObject := w.nextObject + 1 })

/-- Numbers a new catalog entry. -/
def newEntry (w : World V E) (descriptor : Descriptor) (construct : Constructor V E) :
    CatalogEntry V E × World V E :=
  (⟨w.nextEntry, descriptor, construct⟩, { w with nextEntry := w.nextEntry + 1 })

/-- Runs a change of the surroundings that has a result. -/
def withSurroundings {α : Type} (w : World V E) (f : E → α × E) : α × World V E :=
  let (result, surroundings) := f w.surroundings
  (result, { w with surroundings })

end World

/-- Collects what a component is built from, in the order it is given. -/
structure ComponentBuilder (V E : Type) where
  scopes : List ScopeTag
  parents : List ComponentId
  modules : List (Module V E)
  bindings : List (Binding V E)
  config : ComponentConfig V E

namespace ComponentBuilder

/-- Collects the parts of a component without parents. -/
def empty : ComponentBuilder V E := ⟨[], [], [], [], .default⟩

/-- Collects the parts of a child, whose first parent is the given one, which it takes its options
from. -/
def child (w : World V E) (parent : ComponentId) : ComponentBuilder V E :=
  ⟨[], [parent], [], [], w.config parent⟩

/-- Declares a scope. -/
def scope (b : ComponentBuilder V E) (tag : ScopeTag) : ComponentBuilder V E :=
  { b with scopes := tag.insert b.scopes }

/-- Adds a parent, to be searched before those already added. -/
def parent (b : ComponentBuilder V E) (c : ComponentId) : ComponentBuilder V E :=
  { b with parents := b.parents ++ [c] }

/-- Adds the bindings of a module. -/
def module (b : ComponentBuilder V E) (m : Module V E) : ComponentBuilder V E :=
  { b with modules := b.modules ++ [m] }

/-- Adds a single binding, to be registered after all modules. -/
def binding (b : ComponentBuilder V E) (binding : Binding V E) : ComponentBuilder V E :=
  { b with bindings := b.bindings ++ [binding] }

/-- Replaces all options, inherited ones included. -/
def withConfig (b : ComponentBuilder V E) (config : ComponentConfig V E) :
    ComponentBuilder V E :=
  { b with config }

/-- Merges modules in order into one. -/
def mergeModules : Module V E → List (Module V E) → Except BindError (Module V E)
  | merged, [] => .ok merged
  | merged, m :: rest =>
    match merged.merge m with
    | (.ok (), merged) => mergeModules merged rest
    | (.error e, _) => .error e

/-- The registry of the component: the first module, into which the other modules and then the
single bindings are registered in order. -/
def registry (b : ComponentBuilder V E) : Except BindError (Module V E) := do
  let merged ← mergeModules (b.modules.headD .empty) b.modules.tail
  match Module.bindAll b.bindings merged with
  | (.ok (), m) => .ok m
  | (.error e, _) => .error e

/-- The component with the given registry. -/
def component (b : ComponentBuilder V E) (m : Module V E) : Component V E :=
  ⟨b.scopes, b.parents.reverse, m.bindings, b.config, true⟩

end ComponentBuilder

/-- Adds a component to the world. -/
def World.addComponent (w : World V E) (component : Component V E) :
    ComponentId × World V E :=
  (w.components.length, { w with components := w.components ++ [component] })

/-- Builds a component and adds it to the world. -/
def World.build (w : World V E) (b : ComponentBuilder V E) :
    Except BindError (ComponentId × World V E) :=
  b.registry.map fun m => w.addComponent (b.component m)

end Injection
