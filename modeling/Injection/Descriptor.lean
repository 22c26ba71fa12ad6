import Injection.Error

/-!
# Descriptors

A descriptor says how values of a type are constructed: from which arguments, in which scope, and
under which qualifier. It is built from a declaration with markers, as found by whoever inspects
the type; a marker may occur once, and an argument is either a parameter of the caller or a
dependency, never both.
-/

namespace Injection

/-- Who may see the generated factory. -/
inductive Visibility where
  | everywhere
  | internal
deriving DecidableEq

/-- One argument of a constructor. -/
inductive Argument where
  /-- Supplied by the caller, at an index among the caller's parameters. -/
  | parameter (name : String) (index : Nat)
  /-- Resolved from the component. -/
  | dependency (name : String) (type : TypeInfo) (qualifier : Option Qualifier) (nullable : Bool)
deriving DecidableEq

/-- How values of a type are constructed. -/
structure Descriptor where
  target : TypeInfo
  factoryName : String
  visibility : Visibility
  isSingleton : Bool
  qualifier : Option Qualifier
  scope : Option ScopeTag
  arguments : List Argument
deriving DecidableEq

/-- A marker on the declaration of a type. -/
inductive DeclarationMarker where
  | scope (tag : ScopeTag)
  | named (qualifier : Qualifier)
deriving DecidableEq

/-- A marker on an argument of a constructor. -/
inductive ArgumentMarker where
  | parameter
  | named (qualifier : Qualifier)
deriving DecidableEq

/-- An argument as declared. -/
structure ArgumentDeclaration where
  name : String
  type : TypeInfo
  nullable : Bool
  markers : List ArgumentMarker
deriving DecidableEq

/-- A type as declared. -/
structure TypeDeclaration where
  target : TypeInfo
  factoryName : Option String
  visibility : Visibility
  isSingleton : Bool
  markers : List DeclarationMarker
  arguments : List ArgumentDeclaration
deriving DecidableEq

/-- Fills a slot for a marker that may occur once on a declaration. -/
def setOnce {α : Type} (slot : Option α) (value : α) (declaration : Declaration)
    (marker : MarkerKind) : Except DescriptorError (Option α) :=
  match slot with
  | none => .ok (some value)
  | some _ => .error (.ambiguous declaration marker)

namespace ArgumentDeclaration

/-- An unmarked argument, which is a required dependency on its type. -/
def new (name : String) (type : TypeInfo) : ArgumentDeclaration := ⟨name, type, false, []⟩

/-- The argument, content with the absence of a value. -/
def optional (a : ArgumentDeclaration) : ArgumentDeclaration := { a with nullable := true }

/-- The argument with one more marker. -/
def marked (a : ArgumentDeclaration) (marker : ArgumentMarker) : ArgumentDeclaration :=
  { a with markers := a.markers ++ [marker] }

/-- Reads the markers of an argument in order into a parameter slot and a name slot. -/
def readMarkers (declaration : Declaration) :
    List ArgumentMarker → Option Unit × Option Qualifier →
      Except DescriptorError (Option Unit × Option Qualifier)
  | [], slots => .ok slots
  | .parameter :: rest, (isParameter, qualifier) => do
    let isParameter ← setOnce isParameter () declaration .parameter
    readMarkers declaration rest (isParameter, qualifier)
  | .named name :: rest, (isParameter, qualifier) => do
    let qualifier ← setOnce qualifier name declaration .name
    readMarkers declaration rest (isParameter, qualifier)

/-- The argument of a constructor of `target` that is declared after `count` parameters. -/
def validate (a : ArgumentDeclaration) (target : TypeInfo) (count : Nat) :
    Except DescriptorError Argument := do
  match ← readMarkers (.argument a.name target) a.markers (none, none) with
  | (some (), some _) => .error (.conflict target a.name)
  | (some (), none) => .ok (.parameter a.name count)
  | (none, qualifier) => .ok (.dependency a.name a.type qualifier a.nullable)

end ArgumentDeclaration

namespace TypeDeclaration

/-- An unmarked type without arguments. -/
def new (target : TypeInfo) : TypeDeclaration := ⟨target, none, .everywhere, false, [], []⟩

/-- The declaration with one more marker. -/
def marked (d : TypeDeclaration) (marker : DeclarationMarker) : TypeDeclaration :=
  { d with markers := d.markers ++ [marker] }

/-- The declaration with one more argument. -/
def withArgument (d : TypeDeclaration) (argument : ArgumentDeclaration) : TypeDeclaration :=
  { d with arguments := d.arguments ++ [argument] }

/-- Reads the markers of a type in order into a scope slot and a name slot. -/
def readMarkers (target : TypeInfo) :
    List DeclarationMarker → Option ScopeTag × Option Qualifier →
      Except DescriptorError (Option ScopeTag × Option Qualifier)
  | [], slots => .ok slots
  | .scope tag :: rest, (scope, qualifier) => do
    let scope ← setOnce scope tag (.type target) .scope
    readMarkers target rest (scope, qualifier)
  | .named name :: rest, (scope, qualifier) => do
    let qualifier ← setOnce qualifier name (.type target) .name
    readMarkers target rest (scope, qualifier)

/-- Validates arguments in order; parameters are numbered from `count`, skipping dependencies. -/
def validateArguments (target : TypeInfo) :
    List ArgumentDeclaration → Nat → Except DescriptorError (List Argument)
  | [], _ => .ok []
  | declared :: rest, count => do
    let argument ← declared.validate target count
    let next := match argument with
      | .parameter _ _ => count + 1
      | .dependency _ _ _ _ => count
    return argument :: (← validateArguments target rest next)

/-- Validates a declaration: first its own markers, then its arguments. -/
def validate (d : TypeDeclaration) : Except DescriptorError Descriptor := do
  let (scope, qualifier) ← readMarkers d.target d.markers (none, none)
  let arguments ← validateArguments d.target d.arguments 0
  return {
    target := d.target
    factoryName := d.factoryName.getD (d.target.shortName ++ "Factory")
    visibility := d.visibility
    isSingleton := d.isSingleton
    qualifier
    scope
    arguments }

end TypeDeclaration

end Injection
