import Injection.Script.Recipe

/-!
# Plans

Plans describe definitions, bindings, behaviors and factories as data. They are turned into the
things they describe when a script comes to them, which is when objects are made, providers are
numbered and names of modules, catalogs and components are looked up.
-/

namespace Injection.Script

/-- A definition to be made. -/
inductive DefinitionPlan where
  | recipe (recipe : Recipe)
  /-- One object, made when the plan is carried out. -/
  | object (type : TypeId) (value : Value)
  | failing (error : ResolveError)

/-- A change to a binding. -/
inductive Modification where
  | key (key : Key)
  | qualifier (qualifier : Option Qualifier)
  | kind (kind : Kind)
  | override (isOverride : Bool)
  | definition (plan : DefinitionPlan)
  /-- Logs when the definition is entered and left. -/
  | watch (name : String)
  /-- Decorates the values of a type. -/
  | decorate (type : TypeInfo) (suffix : String)

/-- Where a binding comes from. -/
inductive BindingSource where
  /-- One object of a type. -/
  | object (type : TypeInfo) (value : Value)
  /-- The same value as a new object each time. -/
  | value (type : TypeInfo) (kind : Kind) (value : Value)
  /-- What a recipe provides, under its type. -/
  | recipe (type : TypeInfo) (kind : Kind) (recipe : Recipe)
  /-- A definition under a key. -/
  | keyed (key : Key) (kind : Kind) (plan : DefinitionPlan)
  /-- What a catalog synthesizes for a key in a component. -/
  | synthesized (catalog : String) (key : Key) (component : String)
  /-- A binding of a module. -/
  | like (module : String) (key : Key)

/-- A binding to be made. -/
structure BindingPlan where
  source : BindingSource
  modifications : List Modification

/-- Conditions on a binding, all of which must hold. -/
structure Condition where
  kind : Option Kind
  key : Option Key
  isOverride : Option Bool

/-- Whether a binding meets the conditions. -/
def Condition.holds {V E : Type} (condition : Condition) (b : Binding V E) : Bool :=
  (condition.kind.all fun kind => b.kind = kind)
    && (condition.key.all fun key => b.key.identity = key.identity)
    && (condition.isOverride.all fun isOverride => b.isOverride = isOverride)

/-- A behavior to be made. -/
inductive BehaviorPlan where
  /-- Logs the binding. -/
  | log (name : String)
  | identity
  | chain (plans : List BehaviorPlan)
  | andThen (first second : BehaviorPlan)
  /-- Changes the bindings that meet the conditions. -/
  | modify (modifications : List Modification) (condition : Condition)

/-- A rule of a factory: a key, or any, and the answer for it. -/
structure Rule where
  key : Option Key
  answer : Except ResolveError BindingPlan

/-- A factory to be made. -/
inductive FactoryPlan where
  | catalog (name : String)
  /-- Logs what the inner factory answers. -/
  | probe (name : String) (inner : FactoryPlan)
  /-- Answers by the first rule for the key. -/
  | rules (rules : List Rule)

/-- An option of a registration. -/
inductive ConfigCall where
  | named (qualifier : Qualifier)
  | overriding
  | intercepted (behavior : BehaviorPlan)

/-- A declaration of a module. -/
structure DeclarationPlan where
  binding : BindingPlan
  config : Option (List ConfigCall)
  behavior : Option BehaviorPlan

/-- A declaration of a type, to be validated. -/
inductive DescriptorCall where
  | marker (marker : DeclarationMarker)
  | singleton
  | visibility (visibility : Visibility)
  | factoryName (name : String)
  | argument (argument : ArgumentDeclaration)

/-- Applies a call to a declaration. -/
def DescriptorCall.apply (d : TypeDeclaration) : DescriptorCall → TypeDeclaration
  | marker found => d.marked found
  | singleton => { d with isSingleton := true }
  | visibility chosen => { d with visibility := chosen }
  | factoryName name => { d with factoryName := some name }
  | argument declared => d.withArgument declared

/-- A descriptor to be validated. -/
structure DescriptorPlan where
  target : TypeInfo
  calls : List DescriptorCall

/-- Validates a plan. -/
def DescriptorPlan.validate (plan : DescriptorPlan) : Except DescriptorError Descriptor :=
  (plan.calls.foldl DescriptorCall.apply (.new plan.target)).validate

/-- An option of a component. -/
inductive ComponentConfigCall where
  | factory (plan : FactoryPlan)
  | logger (name : String)

/-- A call on the builder of a component. -/
inductive ComponentCall where
  | scope (tag : ScopeTag)
  | parent (name : String)
  | module (name : String)
  | binding (plan : BindingPlan)
  | option (call : ComponentConfigCall)
  | config (calls : List ComponentConfigCall)

/-- A query to a component with a name. -/
structure NamedQuery where
  component : String
  query : Query Value

/-- One step of a script. -/
inductive Step where
  | newModule (name : String)
  | buildModule (name : String) (declarations : List DeclarationPlan)
  | bind (name : String) (binding : BindingPlan) (behavior : Option BehaviorPlan)
  | merge (name other : String)
  | listModule (name : String)
  | moduleBindings (name : String)
  | moduleEntry (name : String) (key : Key) (withText : Bool)
  | applyBehavior (binding : BindingPlan) (behavior : BehaviorPlan)
  | register (catalog : String)
      (entries : List (DescriptorPlan × ConstructorPlan))
  | descriptor (catalog : String) (target : TypeId)
  | synthesize (factory : FactoryPlan) (key : Key) (component : String)
  | buildComponent (name : String) (childOf : Option String) (calls : List ComponentCall)
  | componentOf (name : String) (module : String)
  | drop (name : String)
  | query (query : NamedQuery)
  | contains (component : String) (key : Key)
  | keys (component : String)
  | parents (component : String)
  | scopes (component : String)
  | scopeOwner (component : String) (tag : ScopeTag)
  | same (first second : String)
  | race (queries : List NamedQuery)

end Injection.Script
