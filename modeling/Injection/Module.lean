import Injection.Binding

/-!
# Modules

A module is an ordered registry with at most one binding per key. Binding a key again is an error
unless the new binding is marked as an override, which then takes the place of the old one. An
entry remembers the key it was first registered under: an override may display its types under
other names, but a refused binding is reported under the first ones.
-/

namespace Injection

variable {V E α : Type}

/-- A binding in a module, with the key of the first binding at its place. -/
structure Module.Entry (V E : Type) where
  registered : Key
  binding : Binding V E

/-- Ordered registry of bindings, at most one per key. -/
structure Module (V E : Type) where
  entries : List (Module.Entry V E)

namespace Module

/-- The module without bindings. -/
def empty : Module V E := ⟨[]⟩

/-- The bindings in the order of registration. -/
def bindings (m : Module V E) : List (Binding V E) := m.entries.map Entry.binding

/-- The entry registered under a key, if there is one. -/
def find? (m : Module V E) (key : Key) : Option (Entry V E) :=
  m.entries.find? fun entry => entry.registered.identity = key.identity

/-- The binding registered under a key, if there is one. -/
def get? (m : Module V E) (key : Key) : Option (Binding V E) := (m.find? key).map Entry.binding

/-- Whether a binding is registered under a key. -/
def contains (m : Module V E) (key : Key) : Bool := (m.find? key).isSome

/-- The number of bindings. -/
def size (m : Module V E) : Nat := m.entries.length

/-- Puts a binding in the place of the one registered under its key. -/
def replace (m : Module V E) (binding : Binding V E) : Module V E :=
  ⟨m.entries.map fun entry =>
    if entry.registered.identity = binding.key.identity then { entry with binding } else entry⟩

/-- Registers a binding; the module afterwards is given also for a refused one. -/
def bind (binding : Binding V E) (m : Module V E) : Except BindError Unit × Module V E :=
  match m.find? binding.key with
  | none => (.ok (), ⟨m.entries ++ [⟨binding.key, binding⟩]⟩)
  | some entry =>
    if binding.isOverride then (.ok (), m.replace binding)
    else (.error (.duplicate entry.registered), m)

/-- Registers what a behavior makes of a binding. -/
def bindWith (binding : Binding V E) (behavior : Behavior V E) (m : Module V E)
    (surroundings : E) : (Except BindError Unit × Module V E) × E :=
  let (transformed, surroundings) := behavior.apply binding surroundings
  (m.bind transformed, surroundings)

/-- Registers bindings in order, up to the first that is refused. -/
def bindAll : List (Binding V E) → Module V E → Except BindError Unit × Module V E
  | [], m => (.ok (), m)
  | binding :: rest, m =>
    match m.bind binding with
    | (.ok (), m) => bindAll rest m
    | (.error e, m) => (.error e, m)

/-- Registers every binding of another module, in its order. What was registered before the first
refused binding stays. -/
def merge (m other : Module V E) : Except BindError Unit × Module V E :=
  bindAll other.bindings m

/-- A binding to be registered, and the behavior it is to pass through, if any. -/
structure Declaration (V E : Type) where
  binding : Binding V E
  behavior : Option (Behavior V E)

/-- Registers a declaration. -/
def declare (declaration : Declaration V E) (m : Module V E) (surroundings : E) :
    (Except BindError Unit × Module V E) × E :=
  match declaration.behavior with
  | none => (m.bind declaration.binding, surroundings)
  | some behavior => m.bindWith declaration.binding behavior surroundings

/-- Registers declarations in order, up to the first that is refused. -/
def declareAll : List (Declaration V E) → Module V E → E → Except BindError (Module V E) × E
  | [], m, surroundings => (.ok m, surroundings)
  | declaration :: rest, m, surroundings =>
    match m.declare declaration surroundings with
    | ((.ok (), m), surroundings) => declareAll rest m surroundings
    | ((.error e, _), surroundings) => (.error e, surroundings)

/-- Builds a module from declarations. -/
def build (declarations : List (Declaration V E)) (surroundings : E) :
    Except BindError (Module V E) × E :=
  declareAll declarations empty surroundings

end Module

/-- Options of one registration. -/
structure BindingConfig (V E : Type) where
  qualifier : Option Qualifier
  isOverride : Bool
  behavior : Option (Behavior V E)

namespace BindingConfig

/-- No options. -/
def default : BindingConfig V E := ⟨none, false, none⟩

/-- Registers under a qualifier; a later one replaces an earlier one. -/
def named (config : BindingConfig V E) (qualifier : Qualifier) : BindingConfig V E :=
  { config with qualifier := some qualifier }

/-- Registers as an override. -/
def overriding (config : BindingConfig V E) : BindingConfig V E :=
  { config with isOverride := true }

/-- Passes the binding through a behavior, after those already given. -/
def intercepted (config : BindingConfig V E) (behavior : Behavior V E) : BindingConfig V E :=
  { config with
    behavior := some (match config.behavior with
      | some current => current + behavior
      | none => behavior) }

/-- A binding declared with options. -/
def declaration (config : BindingConfig V E) (binding : Binding V E) :
    Module.Declaration V E :=
  ⟨(binding.withQualifier config.qualifier).withOverride config.isOverride, config.behavior⟩

end BindingConfig

end Injection
