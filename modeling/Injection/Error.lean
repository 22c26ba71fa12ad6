import Injection.Key
import Injection.Scope

/-!
# Errors

Every failure is kept as its cause; the wording is given in one place per kind of failure. A
resolution error that came out of a dependency of a definition is wrapped once for each definition
it passes through, and the wrappers do not change the wording.
-/

namespace Injection

/-- Failures of registration. -/
inductive BindError where
  /-- A key is bound a second time by a binding that is not an override. -/
  | duplicate (key : Key)
deriving DecidableEq

/-- The wording of a registration failure. -/
def BindError.message : BindError → String
  | duplicate key =>
    s!"Implicit override of {key.text}. Mark the binding as override to replace the existing one"

/-- The kinds of markers that a declaration or an argument may carry. -/
inductive MarkerKind where
  | scope
  | name
  | parameter
deriving DecidableEq

/-- What a marker is called in messages. -/
def MarkerKind.text : MarkerKind → String
  | scope => "scope"
  | name => "name"
  | parameter => "parameter"

/-- What markers are found on: a type, or an argument of its constructor. -/
inductive Declaration where
  | type (target : TypeInfo)
  | argument (name : String) (target : TypeInfo)
deriving DecidableEq

/-- How a declaration is called in messages. -/
def Declaration.text : Declaration → String
  | type target => target.name
  | argument name target => s!"argument `{name}` of {target.name}"

/-- Failures of validating a descriptor. -/
inductive DescriptorError where
  /-- One declaration carries two markers of a kind. -/
  | ambiguous (declaration : Declaration) (marker : MarkerKind)
  /-- An argument is both a parameter and a named dependency. -/
  | conflict (target : TypeInfo) (argument : String)
deriving DecidableEq

/-- The wording of a descriptor failure. -/
def DescriptorError.message : DescriptorError → String
  | ambiguous declaration marker => s!"More than one {marker.text} marker on {declaration.text}"
  | conflict target argument =>
    s!"Argument `{argument}` of {target.name} is marked both as a parameter "
      ++ "and as a named dependency"

/-- Failures of resolution. -/
inductive ResolveError where
  /-- Nothing is bound or can be synthesized for a required key. -/
  | unresolved (key : Key)
  /-- A definition asked for a positional parameter that the caller did not pass. -/
  | missingParameter (key : Key) (name : String) (index : Nat)
  /-- A binding with one value per list of parameters was asked without parameters. -/
  | missingParameters (key : Key)
  /-- Neither the component nor an ancestor declares the scope of the key. -/
  | scopeMismatch (key : Key) (scope : ScopeTag)
  /-- A key was requested while it was being built; the path leads from the outermost request. -/
  | cyclicDependency (path : List Key)
  /-- A value has another type than the one that was asked for. -/
  | incorrectType (expected : TypeInfo) (actual : TypeId)
  /-- A dependency of a definition failed. -/
  | dependency (cause : ResolveError)
  /-- The provider function of a definition failed. -/
  | provider (message : String)
deriving DecidableEq

/-- Failures of a definition: a dependency could not be resolved, or its own provider failed. -/
inductive DefinitionError where
  | dependency (cause : ResolveError)
  | provider (message : String)
deriving DecidableEq

/-- A failed definition as seen by whoever requested its value: one wrapper more. -/
def DefinitionError.toResolveError : DefinitionError → ResolveError
  | dependency cause => .dependency cause
  | provider message => .provider message

namespace ResolveError

/-- The wording of a resolution failure; wrappers are transparent. -/
def message : ResolveError → String
  | unresolved key => s!"No binding found for {key.text}"
  | missingParameter key name index =>
    s!"Missing parameter `{name}` at index {index} for {key.text}"
  | missingParameters key => s!"Multi-instance binding {key.text} requires parameters"
  | scopeMismatch key scope =>
    s!"Scope `{scope.name}` of {key.text} isn't declared by the component or any of its ancestors"
  | cyclicDependency path => s!"Cyclic dependency detected: {Key.pathText path}"
  | incorrectType expected _ =>
    s!"Incorrect provided type. Actual: TypeId(..), expected: {expected.shortName}"
  | dependency cause => cause.message
  | provider message => message

/-- The innermost failure, without the wrappers of the definitions it passed through. -/
def rootCause : ResolveError → ResolveError
  | dependency cause => cause.rootCause
  | error => error

/-- The number of wrappers around the innermost failure. -/
def depth : ResolveError → Nat
  | dependency cause => cause.depth + 1
  | _ => 0

end ResolveError

end Injection
