import Injection.Script.Value

/-!
# Recipes

A recipe describes a definition: a list of ingredients, obtained in order, and a provider that makes
a node of them or fails on purpose. A reading describes in the same way what a constructor takes
from its arguments.
-/

namespace Injection.Script

/-- Which parameters a request passes on: given ones, or those of the context. -/
inductive Passed where
  | given (ps : Parameters Value)
  | own

/-- The parameters that are passed on in a context. -/
def Passed.parameters (passed : Passed) (context : Context Value) : Parameters Value :=
  match passed with
  | given ps => ps
  | own => context.parameters

/-- One ingredient of a recipe. -/
inductive Ingredient where
  | inject (type : TypeInfo)
  | optional (type : TypeInfo)
  | named (type : TypeInfo) (name : String)
  | param (type : TypeInfo) (index : Nat)
  | params
  /-- A positional parameter, or nothing if there is none of the type. -/
  | parameter (type : TypeInfo) (index : Nat)
  /-- Facts about the context. -/
  | context
  | get (type : TypeInfo) (passed : Passed)
  | getNamed (type : TypeInfo) (qualifier : Qualifier)
  | getOptional (type : TypeInfo)
  | resolve (key : Key) (passed : Passed)
  /-- A new top-level query at the component of the context. -/
  | fresh (query : Query Value)
  /-- A new top-level query at a component with a name. -/
  | freshIn (name : String) (query : Query Value)
  /-- An ingredient, or the error it fails with. -/
  | attempt (ingredient : Ingredient)
  /-- Several dependencies at once, grouped in two levels. -/
  | grouped (first second third : TypeInfo)

namespace Ingredient

/-- The item for an answer. -/
def ofReply : Reply Value → Except ResolveError Item
  | .error e => .error e
  | .ok none => .ok .nothing
  | .ok (some object) => .ok (.object object)

/-- Facts about a context. -/
def contextItem (context : Context Value) (journal : Journal) : Item :=
  .context context.key.text (context.path.map Key.text) (journal.nameOf? context.component)
    context.parameters

/-- Obtains an ingredient. -/
def dependency : Ingredient → Dependency Value Journal Item
  | inject type => .map .object (.inject type)
  | optional type => fun context => do
    return ofReply (← Dependency.injectOptional type context)
  | named type name => .map .object (.injectNamed type name)
  | param type index => fun context => do
    match ← Dependency.param type index context with
    | .error e => return .error e
    | .ok value => return .ok (.object (← Action.make type.id value))
  | params => .map .parameters .params
  | parameter type index => fun context => do
    match context.parameters.typed? type index with
    | none => return .ok .nothing
    | some value => return .ok (.object (← Action.make type.id value))
  | context => fun context => do
    let journal ← Action.touch id
    return .ok (contextItem context journal)
  | get type passed => fun context => do
    return ofReply (← (Query.get type (passed.parameters context)).inContext)
  | getNamed type qualifier => fun _ => do
    return ofReply (← (Query.getNamed type qualifier []).inContext)
  | getOptional type => fun _ => do
    return ofReply (← (Query.getOptional type).inContext)
  | resolve key passed => fun context => do
    return ofReply (← (Query.resolve key (passed.parameters context)).inContext)
  | fresh query => fun context => do
    return ofReply (← query.afresh context.component)
  | freshIn name query => fun _ => do
    let journal ← Action.touch id
    match journal.component? name with
    | none => return .ok .nothing
    | some component => return ofReply (← query.afresh component)
  | attempt ingredient => fun context => do
    match ← ingredient.dependency context with
    | .error e => return .ok (.failure e)
    | .ok item => return .ok item
  | grouped first second third =>
    .map
      (fun ((a, b), c, (), ps, situation) =>
        .row [ .plain a.value, .plain b,
          (match c with | some object => .plain object.value | none => .nothing),
          .count ps.length, .count situation.path.length ])
      (.both (.both (.inject first) (.param second 0))
        (.both (.injectOptional third) (.both .nothing (.both .params .context))))

end Ingredient

/-- When a provider fails on purpose: always, or the first few times. -/
structure Failure where
  message : String
  times : Option Nat

/-- What a provider does: it logs that it makes a node with the tag or fails, and does so. -/
structure Maker where
  tag : String
  failure : Option Failure
  makes : Option TypeId
  gate : Option String

namespace Maker

/-- Whether the provider of a number fails at its next run. -/
def fails (maker : Maker) (provider : Nat) (journal : Journal) : Bool :=
  match maker.failure with
  | none => false
  | some failure =>
    match failure.times with
    | none => true
    | some n => journal.runs provider < n

/-- The provider of a number runs: it is counted and logged, and then makes a node or fails. -/
def run (maker : Maker) (provider : Nat) (parts : List Item) :
    Action Value Journal (Except String Value) := do
  match maker.gate with
  | some gate => Action.meet gate
  | none => pure ()
  let before ← Action.touch fun journal =>
    let line := if maker.fails provider journal then "fail " else "make "
    (journal.write (line ++ maker.tag)).countRun provider
  match maker.fails provider before, maker.failure with
  | true, some failure => return .error failure.message
  | _, _ => return .ok (.node maker.tag parts)

end Maker

/-- A definition described by its ingredients and its provider. -/
structure Recipe where
  ingredients : List Ingredient
  maker : Maker

/-- The provided definition that a recipe describes, with the provider of a number. It makes nodes
of a type unless the recipe names another. -/
def Recipe.provided (recipe : Recipe) (provider : Nat) (type : TypeId) :
    Definition Value Journal :=
  .ofProvider (recipe.maker.makes.getD type)
    (Dependency.all (recipe.ingredients.map Ingredient.dependency))
    (recipe.maker.run provider)

/-- The definition that a recipe describes, written by hand: it does the same as the provided one
but makes no report of its own. -/
def Recipe.definition (recipe : Recipe) (provider : Nat) (type : TypeId) :
    Definition Value Journal :=
  .withDependencies (Dependency.all (recipe.ingredients.map Ingredient.dependency)) fun parts => do
    match ← recipe.maker.run provider parts with
    | .error message => return .error (.provider message)
    | .ok value => return .ok (← Action.make (recipe.maker.makes.getD type) value)

/-- What a constructor reads from its arguments. -/
inductive Reading where
  | dependency (type : TypeInfo) (position : Nat)
  | optionalDependency (type : TypeInfo) (position : Nat)
  | parameter (type : TypeInfo) (position : Nat)
  | length
  | attempt (reading : Reading)

/-- Takes a reading. -/
def Reading.take (args : ConstructorArguments Value) :
    Reading → Action Value Journal (Except String Item)
  | dependency type position =>
    pure (((args.dependency type position).map Item.object).mapError ArgumentError.message)
  | optionalDependency type position =>
    match args.optionalDependency type position with
    | .error e => pure (.error e.message)
    | .ok none => pure (.ok .nothing)
    | .ok (some object) => pure (.ok (.object object))
  | parameter type position => do
    match args.parameter type position with
    | .error e => return .error e.message
    | .ok value => return .ok (.object (← Action.make type.id value))
  | length => pure (.ok (.row [.count args.length, .flag (args.length = 0)]))
  | attempt reading => do
    match ← reading.take args with
    | .error message => return .ok (.refusal message)
    | .ok item => return .ok item

/-- Takes readings in order, up to the first that fails. -/
def Reading.takeAll (args : ConstructorArguments Value) :
    List Reading → Action Value Journal (Except String (List Item))
  | [] => pure (.ok [])
  | first :: rest => do
    match ← first.take args with
    | .error message => return .error message
    | .ok item => return (← takeAll args rest).map (item :: ·)

/-- A constructor, described. -/
inductive ConstructorPlan where
  /-- Makes the same value again and again; `label` is how the log calls the type. -/
  | value (type : TypeId) (label : String) (value : Value)
  /-- Takes readings and provides as a recipe does. -/
  | reading (readings : List Reading) (maker : Maker)

/-- The constructor that a plan describes, with the provider of a number, for a type. -/
def ConstructorPlan.constructor (plan : ConstructorPlan) (provider : Nat) (target : TypeId) :
    Constructor Value Journal := fun args => do
  match plan with
  | value type label made =>
    let _ ← Action.touch (·.write ("make " ++ label))
    return .ok (type, made)
  | reading readings maker =>
    match ← Reading.takeAll args readings with
    | .error message => return .error message
    | .ok items =>
      return (← maker.run provider items).map fun made => (maker.makes.getD target, made)

end Injection.Script
