import Injection.World

/-!
# Tasks

A task is what one thread does to the world, cut into steps that no other thread can see the
middle of. Nested calls are left as single steps, to be unfolded by whoever runs the task, and so is
the acquisition of a cell, which may have to wait for another thread. Tasks are run one after the
other or interleaved; what they do is said only once.
-/

namespace Injection

variable {V E : Type} {α β : Type}

/-- What a thread that asks for a cell is given. -/
inductive Grant (V : Type) where
  /-- The value, which was made before. -/
  | ready (object : Object V)
  /-- The task of making the value. -/
  | granted
  /-- Nothing: waiting for the value would never end. -/
  | cycle

/-- A nested call. -/
inductive Call (V : Type) where
  /-- Looks up a key at a component, on a path of keys under construction. -/
  | resolve (component : ComponentId) (path : List Key) (resolution : Resolution) (key : Key)
      (parameters : Parameters V)
  /-- Obtains the value of the binding stored in a component under a key. -/
  | obtain (owner : ComponentId) (key : Key) (context : Context V)

/-- What one thread does, step by step. -/
inductive Task (V E α : Type) : Type where
  /-- Ends with a result. -/
  | done (result : α)
  /-- Changes the world and goes on with what it was before. -/
  | act (change : World V E → World V E) (next : World V E → Task V E α)
  /-- Asks for the value of a cell or for the task of making it. -/
  | acquire (slot : Slot) (resolution : Resolution) (next : Grant V → Task V E α)
  /-- Ends the making of a value, by keeping it or giving it up. -/
  | settle (slot : Slot) (cell : Cell V) (next : Task V E α)
  /-- Wakes everyone who waits for a cell. -/
  | notify (slot : Slot) (next : Task V E α)
  /-- Makes a nested call. -/
  | call (request : Call V) (next : Reply V → Task V E α)
  /-- Waits for company at a gate. -/
  | meet (gate : String) (next : Task V E α)

namespace Task

/-- Goes on with the result of a task. -/
def bind : Task V E α → (α → Task V E β) → Task V E β
  | done result, f => f result
  | act change next, f => act change fun before => (next before).bind f
  | acquire slot resolution next, f => acquire slot resolution fun grant => (next grant).bind f
  | settle slot cell next, f => settle slot cell (next.bind f)
  | notify slot next, f => notify slot (next.bind f)
  | call request next, f => call request fun reply => (next reply).bind f
  | meet gate next, f => meet gate (next.bind f)

/-- Tasks are put together by going on with the result of each of them. -/
instance : Monad (Task V E) where
  pure := done
  bind := bind

/-- Looks at the world. -/
def read : Task V E (World V E) := act id done

/-- Reports an event to the logger of a resolution. -/
def emit (resolution : Resolution) (event : Event) : Task V E Unit :=
  act (fun w => w.emit resolution.logger event) fun _ => done ()

/-- Reports an error and ends with it. -/
def fail (resolution : Resolution) (error : ResolveError) : Task V E (Except ResolveError α) := do
  emit resolution (.failure error)
  return .error error

/-- Yields the value of a cell, making it by `create` if it does not exist. The value is made
without holding the cell; a failure leaves the cell as if nothing had been tried. -/
def keep (slot : Slot) (context : Context V)
    (create : Task V E (Except ResolveError (Object V))) :
    Task V E (Except ResolveError (Object V)) :=
  acquire slot context.resolution fun
    | .ready object => do
      emit context.resolution .foundInCache
      return .ok object
    | .cycle => fail context.resolution (.cyclicDependency context.path)
    | .granted => do
      emit context.resolution .notFoundInCache
      match ← create with
      | .ok object =>
        settle slot (.ready object) <| notify slot do
          emit context.resolution .cached
          return .ok object
      | .error error => settle slot .empty <| notify slot <| return .error error

/-- Enters a new resolution of a key at a component. It reports to the component's logger, or to
the given one if the component has none. -/
def enter (component : ComponentId) (logger : Option String) (key : Key)
    (parameters : Parameters V) : Task V E (Reply V) :=
  act (fun w => { w with nextResolution := w.nextResolution + 1 }) fun before =>
    call (.resolve component [] ⟨before.nextResolution, (before.config component).logger <|> logger⟩
      key parameters) done

end Task

/-- What the program of a definition does when it is called in a context. -/
def Program.toTask (context : Context V) : Program V E → Task V E (Outcome V)
  | .done outcome => .done outcome
  | .request key parameters next =>
    .call (.resolve context.component context.path context.resolution key parameters)
      fun reply => (next reply).toTask context
  | .start component key parameters next =>
    (Task.enter component context.resolution.logger key parameters).bind
      fun reply => (next reply).toTask context
  | .forward owner key next =>
    .act id fun w =>
      if w.isAlive owner then
        .call (.obtain owner key { context with component := owner })
          fun reply => (next (Dependency.present key reply)).toTask context
      else
        (next (.error (.unresolved key))).toTask context
  | .share entry body next =>
    (Task.keep (.shared entry) context
        ((body.toTask context).bind
          fun outcome => .done (outcome.mapError DefinitionError.toResolveError))).bind
      fun reply => (next reply).toTask context
  | .make type value next =>
    .act (fun w => (w.allocate type value).2)
      fun w => (next (w.allocate type value).1).toTask context
  | .touch change next =>
    .act (fun w => { w with surroundings := change w.surroundings })
      fun w => (next w.surroundings).toTask context
  | .report event next =>
    .act (fun w => w.emit context.resolution.logger event) fun _ => next.toTask context
  | .meet gate next => .meet gate (next.toTask context)

end Injection
