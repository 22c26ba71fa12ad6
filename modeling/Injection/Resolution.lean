import Injection.Task

/-!
# The rules of resolution

A key is looked up in the component it is requested at and then, in order, in the ancestors. If
nothing is found the component's factories are asked, and what they synthesize is stored in the
component for the next time. The definition of the binding that was found runs in the component
that stores it, and what it makes is kept as long as the binding's kind says.

A key that is requested while a binding for its site is under construction is a cyclic dependency.
-/

namespace Injection

variable {V E : Type}

/-- The binding that forwards to a stored one: it provides whatever the stored one provides, for as
long as the component that stores it is alive. -/
def Stored.forwarding (stored : Stored V E) : Binding V E :=
  .new stored.binding.key .factory fun _ =>
    .forward stored.owner stored.binding.key fun
      | .error e => .done (.error (.dependency e))
      | .ok object => .done (.ok object)

namespace Resolution

/-- Visits living parents in order, up to the first that leads to a binding. -/
def searchParents (resolution : Resolution)
    (visit : ComponentId → Task V E (Option (Stored V E))) :
    List ComponentId → Task V E (Option (Stored V E))
  | [] => return none
  | parent :: rest => do
    if (← Task.read).isAlive parent then
      match ← visit parent with
      | some found => return some found
      | none => searchParents resolution visit rest
    else
      Task.emit resolution .parentDropped
      searchParents resolution visit rest

/-- Searches a component and then, recursively, each of its parents, within a number of
generations. Only one component is looked into at a time. -/
def searchWithin (resolution : Resolution) (key : Key) :
    (generations : Nat) → ComponentId → Task V E (Option (Stored V E))
  | 0, _ => return none
  | generations + 1, c => do
    let w ← Task.read
    match w.serving? c key with
    | some binding => do
      Task.emit resolution .foundInBindings
      return some ⟨c, binding⟩
    | none => searchParents resolution (searchWithin resolution key generations) (w.parents c)

/-- Searches a component and its ancestors. Parents are built before their children, so the place
of a component bounds the number of its generations. -/
def search (resolution : Resolution) (key : Key) (c : ComponentId) :
    Task V E (Option (Stored V E)) :=
  searchWithin resolution key (c + 1) c

/-- Stores a binding in a component unless one is stored under its key; yields the stored one. -/
def memoize (resolution : Resolution) (c : ComponentId) (binding : Binding V E) :
    Task V E (Stored V E) :=
  .act (fun w => w.memoize c binding) fun before =>
    match before.binding? c binding.key.identity with
    | some stored => do
      Task.emit resolution .alreadyMemoized
      return ⟨c, stored⟩
    | none => do
      Task.emit resolution .memoized
      return ⟨c, binding⟩

/-- The binding that a catalog synthesizes for a key in a component. A singleton is shared by all
users of its entry. An unscoped type is made anew each time. A scoped type has one value in the
nearest component that declares its scope; any other component forwards to that one. -/
def consult (resolution : Resolution) (catalog : Catalog V E) (key : Key) (c : ComponentId) :
    Task V E (SynthesisReply V E) :=
  match catalog.find? key.type.id with
  | none => return .ok none
  | some entry =>
    if entry.descriptor.qualifier.map Qualifier.identity ≠ key.site.qualifier then
      return .ok none
    else if entry.descriptor.isSingleton then do
      Task.emit resolution .singletonSynthesized
      return .ok (some (.new key .single (entry.sharedDefinition key)))
    else
      match entry.descriptor.scope with
      | none => do
        Task.emit resolution .factorySynthesized
        return .ok (some (.new key .factory (entry.definition key)))
      | some scope => do
        let w ← Task.read
        if w.hasScope c scope then
          Task.emit resolution .scopedSynthesized
          return .ok (some (.new key .single (entry.definition key)))
        else
          match w.scopeOwner? c scope with
          | none => return .error (.scopeMismatch key scope)
          | some owner => do
            Task.emit resolution .scopedSynthesizedInAncestor
            let stored ← memoize resolution owner (.new key .single (entry.definition key))
            return .ok (some stored.forwarding)

/-- Runs the program of a factory. -/
def synthesis (resolution : Resolution) : Synthesis V E → Task V E (SynthesisReply V E)
  | .answer reply => return reply
  | .consult catalog key c next => do
    synthesis resolution (next (← consult resolution catalog key c))
  | .touch change next =>
    .act (fun w => { w with surroundings := change w.surroundings })
      fun w => synthesis resolution (next w.surroundings)

/-- Asks factories in order for a binding of a key, up to the first that has one or fails, and
stores the binding under the key it was asked for. -/
def askFactories (resolution : Resolution) (key : Key) (c : ComponentId) :
    List (Factory V E) → Task V E (Except ResolveError (Option (Stored V E)))
  | [] => return .ok none
  | factory :: rest => do
    match ← synthesis resolution (factory key c) with
    | .error e => return .error e
    | .ok none => askFactories resolution key c rest
    | .ok (some binding) => do
      Task.emit resolution .synthesized
      return .ok (some (← memoize resolution c (binding.withKey key)))

/-- Asks a component's factories, the last added first. They are asked for the required key. -/
def synthesize (resolution : Resolution) (key : Key) (c : ComponentId) :
    Task V E (Except ResolveError (Option (Stored V E))) := do
  let w ← Task.read
  askFactories resolution key.required c (w.config c).factories.reverse

/-- The binding that serves a key at a component: one that is found, or else one that is
synthesized in the component itself. -/
def locate (resolution : Resolution) (key : Key) (c : ComponentId) :
    Task V E (Except ResolveError (Option (Stored V E))) := do
  match ← search resolution key c with
  | some found => return .ok (some found)
  | none => synthesize resolution key c

end Resolution

namespace Stored

/-- Calls the definition of a stored binding. -/
def create (stored : Stored V E) (context : Context V) :
    Task V E (Except ResolveError (Object V)) := do
  let outcome ← (stored.binding.definition context).toTask context
  return outcome.mapError DefinitionError.toResolveError

/-- The value of a stored binding: made anew, or kept as its kind says. -/
def obtain [Hashed V] (stored : Stored V E) (context : Context V) :
    Task V E (Except ResolveError (Object V)) :=
  let key := stored.binding.key
  match stored.binding.kind with
  | .factory => stored.create context
  | .single => .keep (.single stored.owner key.identity) context (stored.create context)
  | .multi =>
    if context.parameters.isEmpty then
      return .error (.missingParameters key)
    else do
      Task.emit context.resolution .multiInstance
      .keep (.multi stored.owner key.identity context.parameters.hashKey) context
        (stored.create context)

end Stored

namespace Resolution

/-- Resolves a key at a component, on a path of keys under construction. -/
def resolve [Hashed V] (c : ComponentId) (path : List Key) (resolution : Resolution) (key : Key)
    (parameters : Parameters V) : Task V E (Reply V) := do
  Task.emit resolution (.lookup key)
  if path.any fun visited => visited.site = key.site then
    Task.fail resolution (.cyclicDependency (path ++ [key]))
  else
    match ← locate resolution key c with
    | .error e => Task.fail resolution e
    | .ok none =>
      if key.nullable then
        Task.emit resolution .nullFallback
        return .ok none
      else
        Task.fail resolution (.unresolved key)
    | .ok (some stored) => do
      let context : Context V :=
        { component := stored.owner, key, parameters, path := path ++ [key], resolution }
      match ← stored.obtain context with
      | .ok object => return .ok (some object)
      | .error e => Task.fail resolution e

end Resolution

/-- What a nested call does. -/
def Call.body [Hashed V] : Call V → Task V E (Reply V)
  | resolve c path resolution key parameters => Resolution.resolve c path resolution key parameters
  | obtain owner key context => do
    match (← Task.read).binding? owner key.identity with
    | none => return .error (.unresolved key)
    | some binding => do
      match ← Stored.obtain ⟨owner, binding⟩ context with
      | .ok object => return .ok (some object)
      | .error e => return .error e

end Injection
