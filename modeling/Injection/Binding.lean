import Injection.Dependency

/-!
# Bindings and behaviors

A binding declares how the values for a key are provided: by which definition, and how often. A
behavior is a chain of transformations that a binding passes through once, when it is registered.
-/

namespace Injection

variable {V E α : Type}

/-- How often a binding provides a new value. -/
inductive Kind where
  /-- On every resolution. -/
  | factory
  /-- At most once for the component that owns the binding. -/
  | single
  /-- Once for every list of parameters. -/
  | multi
deriving DecidableEq

/-- Declares how the values for a key are provided. -/
structure Binding (V E : Type) where
  key : Key
  kind : Kind
  definition : Definition V E
  isOverride : Bool

namespace Binding

/-- A binding that does not override. -/
def new (key : Key) (kind : Kind) (definition : Definition V E) : Binding V E :=
  ⟨key, kind, definition, false⟩

/-- A binding under the type that a provider function makes. -/
def ofProvider (type : TypeInfo) (kind : Kind) (dependencies : Dependency V E α)
    (provider : α → Action V E (Except String V)) : Binding V E :=
  new (.of type) kind (.ofProvider type.id dependencies provider)

/-- A single binding for an object made outside the container. -/
def ofObject (type : TypeInfo) (object : Object V) : Binding V E :=
  new (.of type) .single (.ofObject object)

/-- A binding that provides the same value, as a new object each time. -/
def ofValue (type : TypeInfo) (kind : Kind) (value : V) : Binding V E :=
  ofProvider type kind .nothing fun _ => pure (.ok value)

/-- The same binding under another key. -/
def withKey (b : Binding V E) (key : Key) : Binding V E := { b with key }

/-- The same binding under another qualifier. -/
def withQualifier (b : Binding V E) (qualifier : Option Qualifier) : Binding V E :=
  { b with key := b.key.withQualifier qualifier }

/-- The same binding of another kind. -/
def withKind (b : Binding V E) (kind : Kind) : Binding V E := { b with kind }

/-- The same binding, marked as an override or not. -/
def withOverride (b : Binding V E) (isOverride : Bool) : Binding V E := { b with isOverride }

/-- The same binding with another definition. -/
def withDefinition (b : Binding V E) (definition : Definition V E) : Binding V E :=
  { b with definition }

/-- The same binding with its definition transformed. -/
def mapDefinition (b : Binding V E) (f : Definition V E → Definition V E) : Binding V E :=
  b.withDefinition (f b.definition)

/-- The same binding with every value it provides passed through `f`. -/
def decorate (b : Binding V E) (type : TypeInfo) (f : Object V → Action V E V) : Binding V E :=
  b.mapDefinition (.decorate type f)

end Binding

/-- One transformation of a binding; it may change the surroundings. -/
abbrev Transformation (V E : Type) := Binding V E → E → Binding V E × E

/-- A chain of transformations. -/
structure Behavior (V E : Type) where
  chain : List (Transformation V E)

namespace Behavior

/-- The chain of one transformation. -/
def of (transformation : Transformation V E) : Behavior V E := ⟨[transformation]⟩

/-- The empty chain, which leaves every binding as it is. -/
def identity : Behavior V E := ⟨[]⟩

/-- The first chain followed by the second. -/
def andThen (first second : Behavior V E) : Behavior V E := ⟨first.chain ++ second.chain⟩

/-- Behaviors add up in the order in which they apply. -/
instance : Add (Behavior V E) where
  add := andThen

/-- Passes a binding through the chain, from the first transformation to the last. -/
def apply (behavior : Behavior V E) (binding : Binding V E) (surroundings : E) :
    Binding V E × E :=
  behavior.chain.foldl (fun (b, e) transformation => transformation b e) (binding, surroundings)

/-- The number of transformations. -/
def length (behavior : Behavior V E) : Nat := behavior.chain.length

end Behavior

end Injection
