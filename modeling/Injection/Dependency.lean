import Injection.Program

/-!
# Typed requests and dependencies

A query is a request together with the type that its answer must have. A dependency is one
argument of a provider function, obtained from the context of the definition that needs it: an
injected object, a positional parameter, all parameters, or the context itself. Dependencies are
obtained in order and the first failure ends the definition.
-/

namespace Injection

variable {V E α β : Type}

/-- What an answer has to be. -/
inductive Expectation where
  /-- Any value, or none for a nullable key. -/
  | anything
  /-- A value of the type. -/
  | required (type : TypeInfo)
  /-- A value of the type, or none. -/
  | nullable (type : TypeInfo)
deriving DecidableEq

/-- A key to look up, the parameters to pass, and what the answer has to be. -/
structure Query (V : Type) where
  key : Key
  parameters : Parameters V
  expects : Expectation

namespace Query

/-- A required object of a type. -/
def get (type : TypeInfo) (parameters : Parameters V) : Query V :=
  ⟨.of type, parameters, .required type⟩

/-- A required object of a type under a qualifier. -/
def getNamed (type : TypeInfo) (qualifier : Qualifier) (parameters : Parameters V) : Query V :=
  ⟨.named type qualifier, parameters, .required type⟩

/-- An object of a type, if anything provides it. -/
def getOptional (type : TypeInfo) : Query V :=
  ⟨(Key.of type).optional, [], .nullable type⟩

/-- An object of a type under a qualifier, if anything provides it. -/
def getOptionalNamed (type : TypeInfo) (qualifier : Qualifier) : Query V :=
  ⟨(Key.named type qualifier).optional, [], .nullable type⟩

/-- Whatever is bound under a key. -/
def resolve (key : Key) (parameters : Parameters V) : Query V := ⟨key, parameters, .anything⟩

/-- The answer as the query sees it: a value of another type than the expected one is an error, as
is the absence of a required one. -/
def accept (q : Query V) : Reply V → Reply V
  | .error e => .error e
  | .ok none =>
    match q.expects with
    | .required _ => .error (.unresolved q.key)
    | _ => .ok none
  | .ok (some object) =>
    match q.expects with
    | .anything => .ok (some object)
    | .required type | .nullable type =>
      if object.type = type.id then .ok (some object)
      else .error (.incorrectType type object.type)

/-- Accepts an answer within a definition, where a value of the wrong type is also reported, each time one is
met: it makes no difference whether anybody listened to an earlier report. -/
def receive (q : Query V) (reply : Reply V) : Action V E (Reply V) :=
  match reply, q.accept reply with
  | .ok (some _), .error e => do
    Action.report (.failure e)
    pure (.error e)
  | _, accepted => pure accepted

/-- Asks the query in the context, on the context's path. -/
def inContext (q : Query V) : Action V E (Reply V) := do
  q.receive (← Action.request q.key q.parameters)

/-- Asks the query as a new top-level request at a component. -/
def afresh (q : Query V) (component : ComponentId) : Action V E (Reply V) := do
  q.receive (← Action.start component q.key q.parameters)

end Query

/-- One argument of a provider function, obtained from the context. -/
abbrev Dependency (V E α : Type) := Context V → Action V E (Except ResolveError α)

namespace Dependency

/-- An answer to a query whose expectation rules out the absence of a value. -/
def present (key : Key) : Reply V → Except ResolveError (Object V)
  | .error e => .error e
  | .ok none => .error (.unresolved key)
  | .ok (some object) => .ok object

/-- The dependency on a required object of a type. -/
def inject (type : TypeInfo) : Dependency V E (Object V) := fun _ => do
  Action.report (.injection type)
  return present (.of type) (← (Query.get type []).inContext)

/-- An object of a type, or nothing if nothing provides it. -/
def injectOptional (type : TypeInfo) : Dependency V E (Option (Object V)) := fun _ => do
  Action.report (.injection type)
  (Query.getOptional type).inContext

/-- A required object of a type under a name. -/
def injectNamed (type : TypeInfo) (name : String) : Dependency V E (Object V) := fun _ => do
  Action.report (.injection type)
  return present (.named type (.name name)) (← (Query.getNamed type (.name name) []).inContext)

/-- The positional parameter at an index, which must be of the type. -/
def param (type : TypeInfo) (index : Nat) : Dependency V E V := fun context =>
  match context.parameters.typed? type index with
  | some value => pure (.ok value)
  | none => do
    let error := ResolveError.missingParameter context.key type.name index
    Action.report (.failure error)
    return .error error

/-- All parameters passed to the definition. -/
def params : Dependency V E (Parameters V) := fun context => pure (.ok context.parameters)

/-- The context itself. -/
def context : Dependency V E (Context V) := fun context => pure (.ok context)

/-- Nothing at all. -/
def nothing : Dependency V E Unit := fun _ => pure (.ok ())

/-- Applies a function to what is obtained. -/
def map (f : α → β) (dependency : Dependency V E α) : Dependency V E β := fun context => do
  return (← dependency context).map f

/-- The first and then, unless it failed, the second. -/
def both (first : Dependency V E α) (second : Dependency V E β) : Dependency V E (α × β) :=
  fun context => do
    match ← first context with
    | .error e => return .error e
    | .ok a => return (← second context).map fun b => (a, b)

/-- All in order, up to the first that fails. -/
def all : List (Dependency V E α) → Dependency V E (List α)
  | [] => fun _ => pure (.ok [])
  | first :: rest => map (fun (a, as) => a :: as) (both first (all rest))

end Dependency

namespace Definition

/-- Obtains the dependencies and goes on with them, unless one fails. -/
def withDependencies (dependencies : Dependency V E α) (finish : α → Action V E (Outcome V)) :
    Definition V E := fun context =>
  Action.toProgram do
    match ← dependencies context with
    | .error e => return .error (.dependency e)
    | .ok a => finish a

/-- Obtains the dependencies, calls the provider function and makes its result a new object. -/
def ofProvider (type : TypeId) (dependencies : Dependency V E α)
    (provider : α → Action V E (Except String V)) : Definition V E :=
  withDependencies dependencies fun a => do
    match ← provider a with
    | .error message => return .error (.provider message)
    | .ok value => do
      Action.report .instantiated
      return .ok (← Action.make type value)

/-- Yields one object, made beforehand. -/
def ofObject (object : Object V) : Definition V E := fun _ => .done (.ok object)

/-- Fails always. -/
def failing (error : DefinitionError) : Definition V E := fun _ => .done (.error error)

/-- Passes every value of a definition through `f`, which makes a new object of the same type. A
value of another type than the decorated one is an error, and an error is left alone. -/
def decorate (type : TypeInfo) (f : Object V → Action V E V) (inner : Definition V E) :
    Definition V E := fun context =>
  (inner context).andThen fun
    | .error e => .done (.error e)
    | .ok object =>
      if object.type = type.id then
        Action.toProgram do return .ok (← Action.make type.id (← f object))
      else
        .done (.error (.dependency (.incorrectType type object.type)))

end Definition

end Injection
