import Injection.Event
import Injection.Parameters

/-!
# Definitions as programs

A definition makes a value in a resolution context. It is given as a program: a tree of the
requests it makes, whose branches say how it goes on for every possible answer. Programs only
describe; what a request does is said once, by the resolution rules, and holds for whatever
program makes it.

`V` is the type of the values that objects carry and `E` the type of the surroundings, the state
that definitions share with the world outside the container.
-/

namespace Injection

/-- A component is known by its place in the order of creation. -/
abbrev ComponentId := Nat

/-- A catalog entry is known by its place in the order of registration. -/
abbrev EntryId := Nat

/-- A value made by a definition. Two objects are the same object when their numbers agree. -/
structure Object (V : Type) where
  number : Nat
  type : TypeId
  value : V

/-- One top-level request and everything requested on its behalf, with the logger it reports to. -/
structure Resolution where
  number : Nat
  logger : Option String
deriving DecidableEq

/-- The situation a definition is called in. `component` owns the binding under resolution, `key`
is the key as it was requested, and `path` lists the keys under construction, outermost first,
ending with `key`. -/
structure Context (V : Type) where
  component : ComponentId
  key : Key
  parameters : Parameters V
  path : List Key
  resolution : Resolution

/-- The answer to a request: an object, the absence of one for a nullable key, or an error. -/
abbrev Reply (V : Type) := Except ResolveError (Option (Object V))

/-- What a definition comes to. -/
abbrev Outcome (V : Type) := Except DefinitionError (Object V)

/-- A tree of requests. -/
inductive Program (V E : Type) : Type where
  /-- Ends with an outcome. -/
  | done (outcome : Outcome V)
  /-- Requests a key in the context, on the context's path. -/
  | request (key : Key) (parameters : Parameters V) (next : Reply V → Program V E)
  /-- Starts a new top-level request at a component. -/
  | start (component : ComponentId) (key : Key) (parameters : Parameters V)
      (next : Reply V → Program V E)
  /-- Obtains the value of the instance that another component stores under a key. -/
  | forward (owner : ComponentId) (key : Key)
      (next : Except ResolveError (Object V) → Program V E)
  /-- Obtains the shared value of a catalog entry, made by `body` if it does not exist yet. -/
  | share (entry : EntryId) (body : Program V E)
      (next : Except ResolveError (Object V) → Program V E)
  /-- Makes a new object. -/
  | make (type : TypeId) (value : V) (next : Object V → Program V E)
  /-- Changes the surroundings and goes on with what they were before. -/
  | touch (change : E → E) (next : E → Program V E)
  /-- Reports an event. -/
  | report (event : Event) (next : Program V E)
  /-- Waits for company at a gate. -/
  | meet (gate : String) (next : Program V E)

variable {V E : Type} {α β : Type}

/-- Goes on with the outcome of a program. -/
def Program.andThen : Program V E → (Outcome V → Program V E) → Program V E
  | done outcome, f => f outcome
  | request key ps next, f => request key ps fun reply => (next reply).andThen f
  | start c key ps next, f => start c key ps fun reply => (next reply).andThen f
  | forward owner key next, f => forward owner key fun reply => (next reply).andThen f
  | share entry body next, f => share entry body fun reply => (next reply).andThen f
  | make type value next, f => make type value fun object => (next object).andThen f
  | touch change next, f => touch change fun before => (next before).andThen f
  | report event next, f => report event (next.andThen f)
  | meet gate next, f => meet gate (next.andThen f)

/-- A part of a program that yields an `α` to the rest of it. -/
def Action (V E α : Type) : Type := (α → Program V E) → Program V E

namespace Action

/-- Actions are put together by handing on what each of them yields. -/
instance : Monad (Action V E) where
  pure a := fun next => next a
  bind action f := fun next => action fun a => f a next

/-- Requests a key in the context. -/
def request (key : Key) (parameters : Parameters V) : Action V E (Reply V) :=
  fun next => .request key parameters next

/-- Starts a new top-level request at a component. -/
def start (component : ComponentId) (key : Key) (parameters : Parameters V) :
    Action V E (Reply V) :=
  fun next => .start component key parameters next

/-- Makes a new object. -/
def make (type : TypeId) (value : V) : Action V E (Object V) :=
  fun next => .make type value next

/-- Changes the surroundings and yields what they were before. -/
def touch (change : E → E) : Action V E E := fun next => .touch change next

/-- Reports an event. -/
def report (event : Event) : Action V E Unit := fun next => .report event (next ())

/-- Waits for company at a gate. -/
def meet (gate : String) : Action V E Unit := fun next => .meet gate (next ())

/-- The program that ends with what the action yields. -/
def toProgram (action : Action V E (Outcome V)) : Program V E := action .done

end Action

/-- Produces a binding's value from the context it is requested in. -/
abbrev Definition (V E : Type) := Context V → Program V E

end Injection
