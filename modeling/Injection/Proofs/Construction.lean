import Injection.Proofs.Validation
import Injection.Resolution

/-!
# What constructors receive

A constructor is called once all arguments that its type declares have been supplied, in order. A parameter is taken
from those that the caller passed, by its number among the parameters that are declared; the others are requested in
the context. The first argument that cannot be supplied ends the definition, and the constructor is not called.
-/

namespace Injection

variable {V E α β : Type}

/-! ### Arguments as they are declared -/

section Definitions

/-- The name of a marker, if it is one of a named dependency. -/
def ArgumentMarker.name? : ArgumentMarker → Option Qualifier
  | parameter => none
  | named q => some q

/-- The key that an argument is requested under, if it is not a parameter. -/
def ArgumentDeclaration.key (a : ArgumentDeclaration) : Key :=
  ⟨a.type, a.markers.findSome? ArgumentMarker.name?, a.nullable⟩

namespace TypeDeclaration

variable (d : TypeDeclaration) (key : Key) (ps : Parameters V) (replies : Nat → Reply V)

/-- The number of parameters that are declared before a position. -/
def parametersBefore (position : Nat) : Nat := (d.arguments.take position).countP ArgumentDeclaration.isParameter

/-- Why the argument at a position cannot be supplied, if there is a reason: the caller has not passed that many
parameters, or its key is requested in vain. -/
def failure? (position : Nat) : Option ResolveError :=
  d.arguments[position]?.bind fun a =>
    if a.isParameter then
      if d.parametersBefore position < ps.length then none
      else some (.missingParameter key a.name (d.parametersBefore position))
    else
      match replies position with
      | .error e => some e
      | .ok _ => none

/-- The requests for the arguments before a position, in order, each with the reply to it. -/
def requests (position : Nat) : List (Key × Reply V) :=
  ((d.arguments.take position).mapIdx fun i a => if a.isParameter then none else some (a.key, replies i)).filterMap id

/-- A constructor can read what is declared, and nothing else. -/
structure Supplies (args : ConstructorArguments V) : Prop where
  length : args.length = d.arguments.length
  /-- A parameter is the one of the caller with its number among the declared ones. -/
  parameter : ∀ (i : Nat) (a : ArgumentDeclaration), d.arguments[i]? = some a → a.isParameter = true →
    ∃ p, ps[d.parametersBefore i]? = some p ∧ ∀ type,
      args.parameter type i =
        (if p.type.id = type.id then .ok p.value else .error (.otherParameter (d.parametersBefore i) type)) ∧
      args.optionalDependency type i = .error (.notDependency i) ∧ args.dependency type i = .error (.notDependency i)
  /-- A dependency is what its key was replied with. -/
  dependency : ∀ (i : Nat) (a : ArgumentDeclaration), d.arguments[i]? = some a → a.isParameter = false →
    ∃ value, replies i = .ok value ∧ ∀ type,
      args.optionalDependency type i =
        (match value with
        | none => .ok none
        | some object => if object.type = type.id then .ok (some object) else .error (.otherType i type)) ∧
      args.dependency type i =
        (match value with
        | none => .error (.null i type)
        | some object => if object.type = type.id then .ok object else .error (.otherType i type)) ∧
      args.parameter type i = .error (.notParameter i)
  absent : ∀ i, d.arguments.length ≤ i → ∀ type, args.parameter type i = .error (.absent i) ∧
    args.optionalDependency type i = .error (.absent i) ∧ args.dependency type i = .error (.absent i)

end TypeDeclaration

/-- The program makes requests in its context, without parameters and one after the other, and goes on with the
replies to them. -/
inductive Program.Asks : Program V E → List (Key × Reply V) → Program V E → Prop
  | refl (program : Program V E) : Asks program [] program
  | request {key : Key} {reply : Reply V} {next : Reply V → Program V E} {rest : List (Key × Reply V)}
    {program : Program V E} :
    Asks (next reply) rest program → Asks (.request key [] next) ((key, reply) :: rest) program

/-- Calls the constructor of an entry and makes its result a new object. -/
def CatalogEntry.complete (entry : CatalogEntry V E) (args : ConstructorArguments V) : Program V E :=
  entry.construct args fun
    | .error message => .done (.error (.provider message))
    | .ok (type, value) => .make type value fun object => .done (.ok object)

/-- Whatever happens meanwhile, the task ends only with results of which `P` is true. -/
def Task.Ends (P : α → Prop) : Task V E α → Prop
  | .done result => P result
  | .act _ next => ∀ w, (next w).Ends P
  | .acquire _ _ next => ∀ grant, (next grant).Ends P
  | .settle _ _ next => next.Ends P
  | .notify _ next => next.Ends P
  | .call _ next => ∀ reply, (next reply).Ends P
  | .meet _ next => next.Ends P

end Definitions

/-! ### Supplying arguments -/

section Supply

variable {key : Key} {context : Context V}

/-- Why an argument cannot be supplied, given the reply to the request for it if it is a dependency. -/
def Argument.failure? (key : Key) (ps : Parameters V) : Argument → Reply V → Option ResolveError
  | .parameter name index, _ => if index < ps.length then none else some (.missingParameter key name index)
  | .dependency _ _ _ _, .error e => some e
  | .dependency _ _ _ _, .ok _ => none

/-- The request for an argument and the reply to it, if it is a dependency. -/
def Argument.request? : Argument → Reply V → Option (Key × Reply V)
  | .parameter _ _, _ => none
  | .dependency _ type qualifier nullable, reply => some (⟨type, qualifier, nullable⟩, reply)

/-- What is supplied for an argument. -/
def Argument.supplied : Argument → Reply V → SuppliedArgument V
  | .parameter _ index, _ => .parameter index
  | .dependency _ _ _ _, reply => .dependency reply.toOption.join

/-- A parameter that the caller has passed is supplied. -/
theorem CatalogEntry.supply_parameter {name : String} {index : Nat} (h : index < context.parameters.length)
    (rest : List Argument) (next : Except ResolveError (List (SuppliedArgument V)) → Program V E) :
    supply key (.parameter name index :: rest) context next =
      supply key rest context fun result => next (result.map (.parameter index :: ·)) := by
  rw [supply]
  simp only [if_pos h]
  rfl

/-- A parameter that the caller has not passed ends the definition. -/
theorem CatalogEntry.supply_missing {name : String} {index : Nat} (h : ¬ index < context.parameters.length)
    (rest : List Argument) (next : Except ResolveError (List (SuppliedArgument V)) → Program V E) :
    supply key (.parameter name index :: rest) context next = next (.error (.missingParameter key name index)) := by
  rw [supply]
  simp only [if_neg h]
  rfl

/-- Arguments that can be supplied are supplied one after the other, before those that follow them. -/
theorem CatalogEntry.supply_asks {arguments : List (Argument × Reply V)}
    (h : ∀ argument ∈ arguments, argument.1.failure? key context.parameters argument.2 = none) (after : List Argument)
    (next : Except ResolveError (List (SuppliedArgument V)) → Program V E) :
    (supply key (arguments.map Prod.fst ++ after) context next).Asks
      (arguments.filterMap fun argument => argument.1.request? argument.2)
      (supply key after context fun result =>
        next (result.map (arguments.map (fun argument => argument.1.supplied argument.2) ++ ·))) := by
  induction arguments generalizing next with
  | nil =>
    have hresult (result : Except ResolveError (List (SuppliedArgument V))) : result.map ([] ++ ·) = result := by
      cases result <;> rfl
    simp only [List.map_nil, hresult]
    exact .refl _
  | cons argument rest ih =>
    rw [List.forall_mem_cons] at h
    have hresult (supplied : SuppliedArgument V) (others : List (SuppliedArgument V))
        (result : Except ResolveError (List (SuppliedArgument V))) :
        (result.map (others ++ ·)).map (supplied :: ·) = result.map (supplied :: others ++ ·) := by
      cases result <;> rfl
    match argument, h with
    | (.parameter name index, reply), ⟨hfirst, hrest⟩ =>
      have hindex : index < context.parameters.length := by
        by_contra hnot
        simp [Argument.failure?, hnot] at hfirst
      rw [List.map_cons, List.cons_append, supply_parameter hindex]
      have hasks := ih hrest fun result => next (result.map (.parameter index :: ·))
      simp only [hresult] at hasks
      exact hasks
    | (.dependency name type qualifier nullable, .ok value), ⟨_, hrest⟩ =>
      have hasks := ih hrest fun result => next (result.map (.dependency value :: ·))
      simp only [hresult] at hasks
      exact .request hasks

/-- An argument that cannot be supplied is the last that is looked at. -/
theorem CatalogEntry.supply_failed {argument : Argument} {reply : Reply V} {e : ResolveError}
    (h : argument.failure? key context.parameters reply = some e) (after : List Argument)
    (next : Except ResolveError (List (SuppliedArgument V)) → Program V E) :
    (supply key (argument :: after) context next).Asks (argument.request? reply).toList (next (.error e)) := by
  match argument, reply, h with
  | .parameter name index, reply, h =>
    have hindex : ¬ index < context.parameters.length := by
      intro hindex
      simp [Argument.failure?, hindex] at h
    obtain rfl : .missingParameter key name index = e := by simpa [Argument.failure?, hindex] using h
    rw [supply_missing hindex]
    exact .refl _
  | .dependency name type qualifier nullable, .error e', h =>
    obtain rfl : e' = e := by simpa [Argument.failure?] using h
    exact .request (.refl _)

/-- Requests that lead from program to program follow one another. -/
theorem Program.Asks.trans {first second third : Program V E} {requests requests' : List (Key × Reply V)}
    (h : first.Asks requests second) (h' : second.Asks requests' third) : first.Asks (requests ++ requests') third := by
  induction h with
  | refl program => exact h'
  | request _ ih => exact .request (ih h')

end Supply

/-! ### Declared arguments -/

section Declared

/-- What an argument is for a constructor if it is declared after `count` parameters. -/
def ArgumentDeclaration.argument (a : ArgumentDeclaration) (count : Nat) : Argument :=
  if a.isParameter then .parameter a.name count else .dependency a.name a.key.type a.key.qualifier a.key.nullable

/-- What is declared determines the argument. -/
theorem ArgumentDeclaration.Declares.eq_argument {a : ArgumentDeclaration} {count : Nat} {argument : Argument}
    (h : a.Declares count argument) : argument = a.argument count := by
  unfold ArgumentDeclaration.argument
  match argument, h with
  | .parameter name index, ⟨hparameter, hname, hindex⟩ => rw [if_pos hparameter, hname, hindex]
  | .dependency name type qualifier nullable, ⟨hparameter, hname, htype, hnullable, hqualifier⟩ =>
    have hkey : qualifier = a.key.qualifier := by
      cases hfind : a.key.qualifier with
      | none =>
        rw [Option.eq_none_iff_forall_ne_some]
        intro q hq
        have hnone := List.findSome?_eq_none_iff.mp hfind _ ((hqualifier q).mp hq)
        cases hnone
      | some q =>
        obtain ⟨marker, hmarker, hname⟩ := List.exists_of_findSome?_eq_some hfind
        match marker, hname with
        | .named _, rfl => exact (hqualifier q).mpr hmarker
    simp [hparameter, hname, htype, hnullable, hkey, key]

variable {d : TypeDeclaration} {entry : CatalogEntry V E} (replies : Nat → Reply V)

namespace TypeDeclaration

variable (d) in
/-- The arguments as they are declared, each with the reply to the request for it. -/
def replied : List (Argument × Reply V) :=
  d.arguments.mapIdx fun i a => (a.argument (d.parametersBefore i), replies i)

/-- At its position stands the declared argument, told how many parameters come before it, with the reply to it. -/
theorem replied_getElem? (position : Nat) : (d.replied replies)[position]? =
    d.arguments[position]?.map fun a => (a.argument (d.parametersBefore position), replies position) := by
  rw [replied, List.getElem?_mapIdx]

/-- The arguments of a valid declaration are those that are declared. -/
theorem arguments_eq {descriptor : Descriptor} (h : d.validate = .ok descriptor) :
    descriptor.arguments = (d.replied replies).map Prod.fst := by
  obtain ⟨hlength, harguments⟩ := (d.validate_exact.2.1 descriptor h).arguments
  refine List.ext_getElem? fun position => ?_
  rw [List.getElem?_map, replied_getElem?, Option.map_map]
  cases ha : d.arguments[position]? with
  | none =>
    rw [List.getElem?_eq_none_iff] at ha
    exact List.getElem?_eq_none (by omega)
  | some a =>
    obtain ⟨argument, hargument, hdeclares⟩ := harguments position a ha
    rw [Nat.zero_add] at hdeclares
    rw [hargument, hdeclares.eq_argument]
    rfl

/-- Whether an argument fails depends on what stands at its position. -/
theorem failure?_eq (key : Key) (ps : Parameters V) (position : Nat) : d.failure? key ps replies position =
    (d.replied replies)[position]?.bind fun argument => argument.1.failure? key ps argument.2 := by
  rw [replied_getElem?, failure?, Option.bind_map]
  refine Option.bind_congr fun a _ => ?_
  cases ha : a.isParameter with
  | true => simp [ArgumentDeclaration.argument, ha, Argument.failure?]
  | false => cases replies position <;> simp [ArgumentDeclaration.argument, ha, Argument.failure?]

/-- The requests before a position are those of the arguments that stand before it. -/
theorem requests_eq (position : Nat) : d.requests replies position =
    ((d.replied replies).take position).filterMap fun argument => argument.1.request? argument.2 := by
  have htake : ((d.replied replies).take position).map (fun argument => argument.1.request? argument.2) =
      (d.arguments.take position).mapIdx fun i a => if a.isParameter then none else some (a.key, replies i) := by
    refine List.ext_getElem? fun i => ?_
    rw [List.getElem?_map, List.getElem?_mapIdx, List.getElem?_take, List.getElem?_take, replied_getElem?]
    split
    · cases d.arguments[i]? with
      | none => rfl
      | some a => cases ha : a.isParameter <;> simp [ArgumentDeclaration.argument, ha, Argument.request?]
    · rfl
  rw [requests, ← htake, List.filterMap_map, Function.id_comp]

/-- If none of the positions before one fails, none of the arguments that stand there does. -/
theorem failure?_none_of_mem {key : Key} {ps : Parameters V} {position : Nat}
    (h : ∀ i < position, d.failure? key ps replies i = none) :
    ∀ argument ∈ (d.replied replies).take position, argument.1.failure? key ps argument.2 = none := by
  intro argument hargument
  obtain ⟨i, hi⟩ := List.mem_iff_getElem?.mp hargument
  rw [List.getElem?_take] at hi
  split at hi
  · next hlt =>
    have hnone := h i hlt
    rwa [failure?_eq, hi] at hnone
  · cases hi

/-- What is supplied for the declared arguments is what the declaration supplies. -/
theorem supplies {key : Key} {ps : Parameters V} (h : ∀ i, d.failure? key ps replies i = none) :
    d.Supplies ps replies ⟨(d.replied replies).map fun argument => argument.1.supplied argument.2, ps⟩ where
  length := by simp [ConstructorArguments.length, replied]
  parameter i a ha hparameter := by
    have hsupplied : ((d.replied replies).map fun argument => argument.1.supplied argument.2)[i]? =
        some (.parameter (d.parametersBefore i)) := by
      simp [replied_getElem?, ha, ArgumentDeclaration.argument, hparameter, Argument.supplied]
    have hlength : d.parametersBefore i < ps.length := by simpa [failure?, ha, hparameter] using h i
    refine ⟨_, List.getElem?_eq_getElem hlength, fun type => ⟨?_, ?_, ?_⟩⟩
    · simp only [ConstructorArguments.parameter, hsupplied, Parameters.typed?, List.getElem?_eq_getElem hlength]
      by_cases htype : ps[d.parametersBefore i].type.id = type.id <;> simp only [htype, if_true, if_false]
    · simp only [ConstructorArguments.optionalDependency, hsupplied]
    · simp only [ConstructorArguments.dependency, ConstructorArguments.optionalDependency, hsupplied]
  dependency i a ha hdependency := by
    obtain ⟨value, hvalue⟩ : ∃ value, replies i = .ok value := by
      have hi := h i
      cases hreply : replies i with
      | error e => simp [failure?, ha, hdependency, hreply] at hi
      | ok value => exact ⟨value, rfl⟩
    have hsupplied : ((d.replied replies).map fun argument => argument.1.supplied argument.2)[i]? =
        some (.dependency value) := by
      simp [replied_getElem?, ha, ArgumentDeclaration.argument, hdependency, Argument.supplied, hvalue, Except.toOption]
    refine ⟨value, hvalue, fun type => ⟨?_, ?_, ?_⟩⟩
    · simp only [ConstructorArguments.optionalDependency, hsupplied]
      cases value <;> rfl
    · simp only [ConstructorArguments.dependency, ConstructorArguments.optionalDependency, hsupplied]
      cases value with
      | none => rfl
      | some object => by_cases htype : object.type = type.id <;> simp only [htype, if_true, if_false]
    · simp only [ConstructorArguments.parameter, hsupplied]
  absent i hi type := by
    have hsupplied : ((d.replied replies).map fun argument => argument.1.supplied argument.2)[i]? = none := by
      simp [replied_getElem?, List.getElem?_eq_none hi]
    simp only [ConstructorArguments.parameter, ConstructorArguments.dependency,
      ConstructorArguments.optionalDependency, hsupplied, and_self]

end TypeDeclaration

end Declared

/-! ### Requests that insist on a value -/

section Required

variable {P : α → Prop}

/-- A task that goes on with results of one kind ends with results of the other. -/
theorem Task.Ends.bind {Q : β → Prop} {task : Task V E α} {f : α → Task V E β} (h : task.Ends P)
    (hf : ∀ result, P result → (f result).Ends Q) : (task.bind f).Ends Q := by
  induction task with
  | done result => exact hf result h
  | act change next ih => exact fun w => ih w (h w)
  | acquire slot resolution next ih => exact fun grant => ih grant (h grant)
  | settle slot cell next ih => exact ih h
  | notify slot next ih => exact ih h
  | call request next ih => exact fun reply => ih reply (h reply)
  | meet gate next ih => exact ih h

/-- Of a result nothing need be true. -/
theorem Task.ends_trivial (task : Task V E α) : task.Ends fun _ => True := by
  induction task with
  | done result => trivial
  | act change next ih => exact fun w => ih w
  | acquire slot resolution next ih => exact fun grant => ih grant
  | settle slot cell next ih => exact ih
  | notify slot next ih => exact ih
  | call request next ih => exact fun reply => ih reply
  | meet gate next ih => exact ih

/-- A failure is not the absence of a value. -/
theorem Task.fail_ends {resolution : Resolution} {e : ResolveError} :
    (Task.fail resolution e : Task V E (Reply V)).Ends (· ≠ .ok none) :=
  fun _ h => nomatch h

/-- A request that insists on a value is never replied with the absence of one. -/
theorem Resolution.resolve_ends [Hashed V] {key : Key} (hrequired : key.nullable = false) (c : ComponentId)
    (path : List Key) (resolution : Resolution) (ps : Parameters V) :
    (resolve c path resolution key ps : Task V E (Reply V)).Ends (· ≠ .ok none) := by
  refine (Task.ends_trivial _).bind fun _ _ => ?_
  split
  · exact Task.fail_ends
  · refine (Task.ends_trivial _).bind fun located _ => ?_
    match located with
    | .error e => exact Task.fail_ends
    | .ok none =>
      simp only [hrequired]
      exact Task.fail_ends
    | .ok (some stored) =>
      refine (Task.ends_trivial _).bind fun result _ => ?_
      match result with
      | .error e => exact Task.fail_ends
      | .ok object => simp [pure, Task.Ends]

end Required

/-! ### The definition of an entry -/

/-- Goes on with what has been supplied. -/
def CatalogEntry.finish (entry : CatalogEntry V E) (context : Context V) :
    Except ResolveError (List (SuppliedArgument V)) → Program V E
  | .error e => .done (.error (.dependency e))
  | .ok supplied => entry.complete ⟨supplied, context.parameters⟩

/-- The definition of an entry obtains the arguments in the order of the descriptor and then constructs the object. -/
theorem CatalogEntry.definition_eq (entry : CatalogEntry V E) (key : Key) (context : Context V) :
    entry.definition key context = supply key entry.descriptor.arguments context (entry.finish context) := by
  refine congrArg (supply key entry.descriptor.arguments context) (funext fun result => ?_)
  match result with
  | .error e => rfl
  | .ok supplied => exact congrArg (entry.construct _) (funext fun made => by cases made <;> rfl)

/-- The definition of an entry supplies the arguments that its descriptor was declared with, in order. It ends with the
failure of the first that cannot be supplied, and otherwise calls the constructor, which receives exactly the declared
arguments: the parameters of the caller, counted by the parameters that are declared, and for the other arguments what
their requests were replied with. That is the absence of a value only for an argument that is content with it. -/
theorem CatalogEntry.constructor_receives [Hashed V] (entry : CatalogEntry V E) {d : TypeDeclaration}
    (hvalid : d.validate = .ok entry.descriptor) (key : Key) (context : Context V) (replies : Nat → Reply V) :
    (∀ position e, (∀ i < position, d.failure? key context.parameters replies i = none) →
        d.failure? key context.parameters replies position = some e →
        (entry.definition key context).Asks (d.requests replies (position + 1)) (.done (.error (.dependency e)))) ∧
      ((∀ i, d.failure? key context.parameters replies i = none) →
        ∃ args, (entry.definition key context).Asks (d.requests replies d.arguments.length) (entry.complete args) ∧
          d.Supplies context.parameters replies args) ∧
      ∀ a ∈ d.arguments, a.nullable = false → ∀ c path resolution,
        (Call.body (.resolve c path resolution a.key []) : Task V E (Reply V)).Ends (· ≠ .ok none) := by
  have hdefinition := entry.definition_eq key context
  rw [d.arguments_eq replies hvalid] at hdefinition
  refine ⟨fun position e hbefore hfails => ?_, fun hnone => ?_, fun a _ ha c path resolution => ?_⟩
  -- The arguments before the position are supplied, and the one there is the last that is looked at.
  · rw [d.failure?_eq] at hfails
    obtain ⟨argument, hargument, hfails⟩ := Option.bind_eq_some_iff.mp hfails
    obtain ⟨hlt, hargument'⟩ := List.getElem?_eq_some_iff.mp hargument
    rw [hdefinition, ← List.take_append_drop position (d.replied replies), List.drop_eq_getElem_cons hlt, hargument',
      List.map_append, List.map_cons, d.requests_eq, List.take_add_one, hargument, List.filterMap_append]
    exact (supply_asks (d.failure?_none_of_mem replies hbefore) _ _).trans (supply_failed hfails _ _)
  · have hall : (d.replied replies).take d.arguments.length = d.replied replies :=
      List.take_of_length_le (by simp [TypeDeclaration.replied])
    have hmem := d.failure?_none_of_mem replies fun i (_ : i < d.arguments.length) => hnone i
    rw [hall] at hmem
    have hasks := supply_asks hmem [] (entry.finish context)
    rw [List.append_nil, ← hdefinition, ← hall, ← d.requests_eq, hall] at hasks
    refine ⟨_, ?_, d.supplies replies hnone⟩
    rwa [← List.append_nil (List.map _ _)]
  · exact Resolution.resolve_ends ha c path resolution []

/-- A type with two dependencies and two parameters. With one parameter too few, the definition ends after both
dependencies have been requested; otherwise the constructor reads the parameters at their positions. -/
theorem CatalogEntry.constructor_receives_repository :
    let database : TypeInfo := ⟨⟨1⟩, "Database"⟩
    let text : TypeInfo := ⟨⟨2⟩, "str"⟩
    let repository : TypeDeclaration :=
      { TypeDeclaration.new ⟨⟨0⟩, "Repository"⟩ with
        arguments := [⟨"primary", database, false, [.named (.name "main")]⟩, ⟨"user", text, false, [.parameter]⟩,
          ⟨"replica", database, true, []⟩, ⟨"shard", text, false, [.parameter]⟩] }
    let key := Key.of repository.target
    let context (ps : Parameters String) : Context String := ⟨0, key, ps, [key], ⟨0, none⟩⟩
    let main : Object String := ⟨7, database.id, "main"⟩
    let requests := [(Key.named database (.name "main"), .ok (some main)), ((Key.of database).optional, .ok none)]
    let construct : Constructor String Unit := fun args next => next (.ok (repository.target.id, toString args.length))
    ∃ entry : CatalogEntry String Unit, repository.validate = .ok entry.descriptor ∧ entry.construct = construct ∧
      (entry.definition key (context [⟨text, "anna"⟩])).Asks requests
        (.done (.error (.dependency (.missingParameter key "shard" 1)))) ∧
      ∃ args, (entry.definition key (context [⟨text, "anna"⟩, ⟨text, "north"⟩])).Asks requests (entry.complete args) ∧
        args.length = 4 ∧ args.parameter text 1 = .ok "anna" ∧ args.parameter text 3 = .ok "north" ∧
        args.dependency database 0 = .ok main ∧ args.dependency database 2 = .error (.null 2 database) := by
  intro database text repository key context main requests construct
  have : Hashed String := ⟨fun value => value.toUTF8.toList⟩
  let replies : Nat → Reply String := fun position => if position = 0 then .ok (some main) else .ok none
  let entry : CatalogEntry String Unit :=
    ⟨0, ⟨repository.target, "RepositoryFactory", .everywhere, false, none, none,
      [.dependency "primary" database (some (.name "main")) false, .parameter "user" 0,
        .dependency "replica" database none true, .parameter "shard" 1]⟩, construct⟩
  have hvalid : repository.validate = .ok entry.descriptor := by decide +kernel
  have hshort := (entry.constructor_receives hvalid key (context [⟨text, "anna"⟩]) replies).1 3
  have hlong := (entry.constructor_receives hvalid key (context [⟨text, "anna"⟩, ⟨text, "north"⟩]) replies).2.1
  refine ⟨entry, hvalid, rfl, hshort _ ?_ rfl, ?_⟩
  · intro i hi
    match i, hi with
    | 0, _ | 1, _ | 2, _ => rfl
  · obtain ⟨args, hasks, hsupplies⟩ := hlong fun
      | 0 | 1 | 2 | 3 | _ + 4 => rfl
    obtain ⟨_, huser, hreadUser⟩ := hsupplies.parameter 1 _ rfl rfl
    obtain ⟨_, hshard, hreadShard⟩ := hsupplies.parameter 3 _ rfl rfl
    obtain ⟨_, hprimary, hreadPrimary⟩ := hsupplies.dependency 0 _ rfl rfl
    obtain ⟨_, hreplica, hreadReplica⟩ := hsupplies.dependency 2 _ rfl rfl
    cases huser
    cases hshard
    cases hprimary
    cases hreplica
    exact ⟨args, hasks, hsupplies.length, (hreadUser text).1, (hreadShard text).1, (hreadPrimary database).2.1,
      (hreadReplica database).2.1⟩

end Injection
