import Injection.Binding
import Injection.Descriptor

/-!
# Catalogs

A catalog pairs descriptors with the functions that construct the described types. The function
receives one supplied argument per declared argument, in order. The definition of an entry
resolves the dependencies among the arguments, takes the parameters from the caller, and calls the
function; the definition of a singleton shares one object among everyone who uses the entry.
-/

namespace Injection

variable {V E : Type}

/-- What a constructor receives for one declared argument. -/
inductive SuppliedArgument (V : Type) where
  /-- A resolved dependency, absent only if it may be. -/
  | dependency (value : Option (Object V))
  /-- A parameter of the caller, by its index. -/
  | parameter (index : Nat)

/-- Constructor arguments in the order of declaration. -/
structure ConstructorArguments (V : Type) where
  supplied : List (SuppliedArgument V)
  parameters : Parameters V

/-- Failures of reading a constructor argument. -/
inductive ArgumentError where
  | null (position : Nat) (type : TypeInfo)
  | otherType (position : Nat) (type : TypeInfo)
  | notDependency (position : Nat)
  | notParameter (position : Nat)
  | otherParameter (index : Nat) (type : TypeInfo)
  | absent (position : Nat)
deriving DecidableEq

/-- The wording of a failure to read an argument. -/
def ArgumentError.message : ArgumentError → String
  | null position type => s!"Argument {position} ({type.name}) resolved to null"
  | otherType position type => s!"Argument {position} isn't {type.name}"
  | notDependency position => s!"Argument {position} is a parameter, not a dependency"
  | notParameter position => s!"Argument {position} is a dependency, not a parameter"
  | otherParameter index type => s!"Parameter {index} isn't {type.name}"
  | absent position => s!"No argument at {position}"

namespace ConstructorArguments

/-- The number of arguments. -/
def length (args : ConstructorArguments V) : Nat := args.supplied.length

/-- The dependency at a position, which may be absent but must not have another type. -/
def optionalDependency (args : ConstructorArguments V) (type : TypeInfo) (position : Nat) :
    Except ArgumentError (Option (Object V)) :=
  match args.supplied[position]? with
  | some (.dependency (some object)) =>
    if object.type = type.id then .ok (some object) else .error (.otherType position type)
  | some (.dependency none) => .ok none
  | some (.parameter _) => .error (.notDependency position)
  | none => .error (.absent position)

/-- The dependency at a position, which must be there. -/
def dependency (args : ConstructorArguments V) (type : TypeInfo) (position : Nat) :
    Except ArgumentError (Object V) :=
  match args.optionalDependency type position with
  | .ok (some object) => .ok object
  | .ok none => .error (.null position type)
  | .error e => .error e

/-- The parameter at a position, which must have the type. -/
def parameter (args : ConstructorArguments V) (type : TypeInfo) (position : Nat) :
    Except ArgumentError V :=
  match args.supplied[position]? with
  | some (.parameter index) =>
    match args.parameters.typed? type index with
    | some value => .ok value
    | none => .error (.otherParameter index type)
  | some (.dependency _) => .error (.notParameter position)
  | none => .error (.absent position)

end ConstructorArguments

/-- Constructs a value, of the type it names, from its arguments. -/
abbrev Constructor (V E : Type) :=
  ConstructorArguments V → Action V E (Except String (TypeId × V))

/-- A descriptor with the function that constructs what it describes. The number tells apart
entries that look alike; copies of an entry keep it. -/
structure CatalogEntry (V E : Type) where
  number : EntryId
  descriptor : Descriptor
  construct : Constructor V E

namespace CatalogEntry

/-- Supplies arguments in order, up to the first that fails. A parameter is supplied if the caller
passed that many, and a dependency is resolved in the context without parameters. -/
def supply (key : Key) : List Argument → Dependency V E (List (SuppliedArgument V))
  | [] => fun _ => pure (.ok [])
  | .parameter name index :: rest => fun context =>
    if index < context.parameters.length then do
      return (← supply key rest context).map (.parameter index :: ·)
    else
      pure (.error (.missingParameter key name index))
  | .dependency _ type qualifier nullable :: rest => fun context => do
    match ← Action.request ⟨type, qualifier, nullable⟩ [] with
    | .error e => return .error e
    | .ok value => return (← supply key rest context).map (.dependency value :: ·)

/-- Supplies the arguments, calls the constructor and makes its result a new object. -/
def definition (entry : CatalogEntry V E) (key : Key) : Definition V E := fun context =>
  Definition.withDependencies (supply key entry.descriptor.arguments)
    (fun supplied => do
      match ← entry.construct ⟨supplied, context.parameters⟩ with
      | .error message => return .error (.provider message)
      | .ok (type, value) => return .ok (← Action.make type value))
    context

/-- Yields the one object that everyone who uses the entry shares, constructing it if needed. -/
def sharedDefinition (entry : CatalogEntry V E) (key : Key) : Definition V E := fun context =>
  .share entry.number (entry.definition key context) fun
    | .error e => .done (.error (.dependency e))
    | .ok object => .done (.ok object)

end CatalogEntry

/-- Entries by the type they describe, at most one per type. -/
structure Catalog (V E : Type) where
  entries : List (CatalogEntry V E)

namespace Catalog

/-- The catalog without entries. -/
def empty : Catalog V E := ⟨[]⟩

/-- The entry that describes a type, if there is one. -/
def find? (catalog : Catalog V E) (target : TypeId) : Option (CatalogEntry V E) :=
  catalog.entries.find? fun entry => entry.descriptor.target.id = target

/-- Adds an entry in the place of one for the same type. -/
def register (catalog : Catalog V E) (entry : CatalogEntry V E) : Catalog V E :=
  ⟨entry :: catalog.entries.filter fun other =>
    other.descriptor.target.id ≠ entry.descriptor.target.id⟩

end Catalog

end Injection
