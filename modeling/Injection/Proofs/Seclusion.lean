import Injection.Proofs.Journal
import Injection.Proofs.Realm
import Injection.Proofs.Selection

/-!
# Tasks that stay in a realm

Whatever a request in a realm does stays in the realm: it looks at no other component and at no cell of
one, and leaves them as they are. To say so, a task is compared in two worlds that agree in the realm. It
is walked through the rules of resolution once, for whatever calls definitions may make:
`Call.body_stays`. What follows for runs is that they agree as well, and that the calls in their journals
are ones that may be made.
-/

namespace Injection

variable {V E α β : Type}

/-! ### Tasks in a realm -/

/-- What is changed stays in the realm, which keeps to itself, and comes to the same in another world. -/
structure Realm.Contains (R : Realm V E) (before after after' : World V E) : Prop where
  holds : R.Holds after
  spares : before.Spares R.Has after
  agrees : after.AgreesOn R.Has after'

/-- The task acts alike in worlds that agree in the realm, asks only for cells of the realm, makes only
some calls, and ends with a result of which `P` is true. -/
def Task.Stays (R : Realm V E) (calls : Call V → Prop) (P : α → Prop) : Task V E α → Prop
  | .done result => P result
  | .act change next => ∀ w w', R.Holds w → w.AgreesOn R.Has w' →
      R.Contains w (change w) (change w') ∧ next w' = next w ∧ (next w).Stays R calls P
  | .acquire slot _ next => slot.In R.Has ∧ ∀ grant, (next grant).Stays R calls P
  | .settle slot _ next => slot.In R.Has ∧ next.Stays R calls P
  | .notify _ next => next.Stays R calls P
  | .call request next => calls request ∧ ∀ reply, (next reply).Stays R calls P
  | .meet _ next => next.Stays R calls P

/-- What a definition that is called in a context may call: it requests a key in the context, or passes
the request on to an ancestor. -/
def Context.Spawns (R : Realm V E) (context : Context V) : Call V → Prop
  | .resolve c path resolution key _ =>
    c = context.component ∧ path = context.path ∧ resolution = context.resolution ∧ R.asks key.site
  | .obtain owner _ inner => R.Passes context.component owner ∧ inner = { context with component := owner }

namespace Call

/-- The call is made in the realm. -/
def In (R : Realm V E) : Call V → Prop
  | resolve c _ _ _ _ => R.Has c
  | obtain owner _ context => R.Has owner ∧ context.component = owner

/-- The contexts in which a call may run a definition: an ancestor's, with the key at the end of the path,
or the context that is passed on. -/
def Opens (R : Realm V E) : Call V → Context V → Prop
  | resolve c path resolution key parameters, context =>
    (∀ visited ∈ path, visited.site ≠ key.site) ∧ ∃ owner, R.base.Lineage c owner ∧
      context = { component := owner, key, parameters, path := path ++ [key], resolution }
  | obtain _ _ passed, context => context = passed

/-- One call may lead to another, by a definition that it runs. -/
def Leads (R : Realm V E) (request inner : Call V) : Prop :=
  ∃ context, request.Opens R context ∧ context.Spawns R inner

end Call

section Bind

variable {R : Realm V E} {calls : Call V → Prop} {P : α → Prop} {Q : β → Prop}

namespace Task

/-- Tasks that stay in the realm can be strung together. -/
theorem Stays.bind {task : Task V E α} {f : α → Task V E β} (h : task.Stays R calls P)
    (hf : ∀ result, P result → (f result).Stays R calls Q) : (task.bind f).Stays R calls Q := by
  induction task with
  | done result => exact hf result h
  | act change next ih =>
    intro w w' hw hagrees
    obtain ⟨hcontains, hnext, hstays⟩ := h w w' hw hagrees
    exact ⟨hcontains, congrArg (Task.bind · f) hnext, ih w hstays⟩
  | acquire slot resolution next ih => exact ⟨h.1, fun grant => ih grant (h.2 grant)⟩
  | settle slot cell next ih => exact ⟨h.1, ih h.2⟩
  | notify slot next ih => exact ih h
  | call request next ih => exact ⟨h.1, fun reply => ih reply (h.2 reply)⟩
  | meet gate next ih => exact ih h

/-- Less may be promised of what a task that stays in the realm comes to. -/
theorem Stays.mono {P' : α → Prop} {task : Task V E α} (h : task.Stays R calls P)
    (hP : ∀ result, P result → P' result) : task.Stays R calls P' := by
  have hbind : (task.bind .done).Stays R calls P' := h.bind hP
  rwa [bind_done] at hbind

/-- Going on with what is read of the world, if that is the same in worlds that agree. -/
theorem stays_read {f : World V E → Task V E α}
    (hf : ∀ w w', R.Holds w → w.AgreesOn R.Has w' → f w' = f w ∧ (f w).Stays R calls P) :
    (Task.read >>= f).Stays R calls P :=
  fun w w' hw hagrees => ⟨⟨hw, .refl _ _, hagrees⟩, hf w w' hw hagrees⟩

/-- Reporting an event stays in the realm. -/
theorem emit_stays (resolution : Resolution) (event : Event) :
    (Task.emit resolution event : Task V E Unit).Stays R calls fun _ => True :=
  fun _ _ hw hagrees =>
    ⟨⟨hw.of_components (by simp), .of_eq (by simp) (by simp), hagrees.emit _ _⟩, rfl, trivial⟩

/-- A task stays in the realm whatever it reports first. -/
theorem stays_emit {resolution : Resolution} {event : Event} {f : Unit → Task V E α}
    (hf : (f ()).Stays R calls P) : (Task.emit resolution event >>= f).Stays R calls P :=
  (emit_stays resolution event).bind fun _ _ => hf

/-- So does failing. -/
theorem fail_stays {resolution : Resolution} {error : ResolveError} {P : Except ResolveError α → Prop}
    (h : P (.error error)) :
    (Task.fail resolution error : Task V E (Except ResolveError α)).Stays R calls P := stays_emit h

/-- A value is kept in the realm if its cell belongs there and making it stays there. -/
theorem keep_stays {slot : Slot} {context : Context V} {create : Task V E (Except ResolveError (Object V))}
    (hslot : slot.In R.Has) (hcreate : create.Stays R calls fun _ => True) :
    (Task.keep slot context create).Stays R calls fun _ => True := by
  refine ⟨hslot, fun grant => ?_⟩
  cases grant with
  | ready object => exact stays_emit trivial
  | cycle => exact fail_stays trivial
  | granted =>
    refine stays_emit (hcreate.bind fun result _ => ?_)
    cases result with
    | ok object => exact ⟨hslot, stays_emit trivial⟩
    | error e => exact ⟨hslot, trivial⟩

end Task

end Bind

/-! ### Through the rules of resolution -/

section Walk

variable {R : Realm V E} {calls : Call V → Prop}

/-- What the program of a definition does that keeps to its context stays in the realm. -/
theorem Program.toTask_stays {context : Context V} {program : Program V E}
    (h : program.Confined R.asks (R.Passes context.component)) (hcomponent : R.Has context.component)
    (hcalls : ∀ request, context.Spawns R request → calls request) :
    (program.toTask context).Stays R calls fun _ => True := by
  induction program with
  | done outcome => trivial
  | request key parameters next ih => exact ⟨hcalls _ ⟨rfl, rfl, rfl, h.1⟩, fun reply => ih reply (h.2 reply)⟩
  | start component key parameters next ih => exact h.elim
  | forward owner key next ih =>
    intro w w' hw hagrees
    have halive := hagrees.isAlive (hcomponent.lineage h.1.1)
    refine ⟨⟨hw, .refl _ _, hagrees⟩, by simp only [halive], ?_⟩
    dsimp only
    split
    · exact ⟨hcalls _ ⟨h.1, rfl⟩, fun reply => ih _ (h.2 _)⟩
    · exact ih _ (h.2 _)
  | share entry body next ihbody ih =>
    have hslot : (Slot.shared entry).In R.Has := trivial
    refine (Task.keep_stays hslot ?_).bind fun reply _ => ih reply (h.2 reply)
    exact (ihbody h.1).bind fun outcome _ => trivial
  | make type value next ih =>
    intro w w' hw hagrees
    refine ⟨⟨hw, .of_eq rfl rfl, ?_⟩, ?_, ih _ (h _)⟩
    · exact ⟨hagrees.component, hagrees.cells, congrArg (· + 1) hagrees.nextObject, hagrees.nextResolution,
        hagrees.surroundings⟩
    · simp only [World.allocate, hagrees.nextObject]
  | touch change next ih =>
    intro w w' hw hagrees
    refine ⟨⟨hw, .of_eq rfl rfl, ?_⟩, by simp only [hagrees.surroundings], ih _ (h _)⟩
    exact ⟨hagrees.component, hagrees.cells, hagrees.nextObject, hagrees.nextResolution,
      congrArg change hagrees.surroundings⟩
  | report event next ih =>
    exact fun w w' hw hagrees =>
      ⟨⟨hw.of_components (by simp), .of_eq (by simp) (by simp), hagrees.emit _ _⟩, rfl, ih h⟩
  | meet gate next ih => exact ih h

/-- What a search or a synthesis at a component comes to: a binding of the component or an ancestor, which
keeps to the realm. -/
def Stored.Above (R : Realm V E) (c : ComponentId) (stored : Stored V E) : Prop :=
  R.base.Lineage c stored.owner ∧ stored.binding.Confined R.asks (R.Passes stored.owner)

namespace Resolution

variable {resolution : Resolution} {key : Key} {c : ComponentId}

/-- Visiting ancestors finds only what the visits find. -/
theorem searchParents_stays {visit : ComponentId → Task V E (Option (Stored V E))} {parents : List ComponentId}
    (hparents : ∀ parent ∈ parents, R.Has parent ∧ (visit parent).Stays R calls
      fun found => ∀ stored, found = some stored → stored.Above R c) :
    (searchParents resolution visit parents).Stays R calls
      fun found => ∀ stored, found = some stored → stored.Above R c := by
  induction parents with
  | nil => exact fun stored hstored => nomatch hstored
  | cons parent rest ih =>
    obtain ⟨hparent, hvisit⟩ := hparents parent List.mem_cons_self
    specialize ih fun other hother => hparents other (List.mem_cons_of_mem _ hother)
    refine Task.stays_read fun w w' _ hagrees => ⟨by simp only [hagrees.isAlive hparent], ?_⟩
    split
    · refine hvisit.bind fun found hfound => ?_
      cases found with
      | none => exact ih
      | some stored => exact hfound
    · exact Task.stays_emit ih

/-- A search looks only at ancestors. -/
theorem searchWithin_stays (generations : Nat) (hc : R.Has c) :
    (searchWithin resolution key generations c).Stays R calls
      fun found => ∀ stored, found = some stored → stored.Above R c := by
  induction generations generalizing c with
  | zero => exact fun stored hstored => nomatch hstored
  | succ generations ih =>
    refine Task.stays_read fun w w' hw hagrees =>
      ⟨by simp only [hagrees.serving? hc, hagrees.parents hc], ?_⟩
    split
    · next binding hserving =>
      refine Task.stays_emit ?_
      rintro stored ⟨⟩
      rcases World.serving?_eq_some hserving with hbinding | hbinding <;>
        exact ⟨.refl, hw.bindings hc hbinding⟩
    · refine searchParents_stays fun parent hparent => ?_
      have hlineage := (hw.parents hc hparent).1
      refine ⟨hc.lineage hlineage, ?_⟩
      exact (ih (hc.lineage hlineage)).mono fun found hfound stored hstored =>
        ⟨hlineage.trans (hfound stored hstored).1, (hfound stored hstored).2⟩

/-- Storing in the realm what keeps to it yields what keeps to it. -/
theorem memoize_stays {binding : Binding V E} (hc : R.Has c) (hbinding : binding.Confined R.asks (R.Passes c)) :
    (memoize resolution c binding).Stays R calls
      fun stored => stored.owner = c ∧ stored.binding.Confined R.asks (R.Passes c) := by
  intro w w' hw hagrees
  refine ⟨⟨hw.memoize hbinding, w.spares_memoize hc binding, hagrees.memoize c binding⟩,
    by simp only [hagrees.binding? hc], ?_⟩
  dsimp only
  cases hbefore : w.binding? c binding.key.identity with
  | none => exact Task.stays_emit ⟨rfl, hbinding⟩
  | some stored => exact Task.stays_emit ⟨rfl, hw.bindings hc hbefore⟩

/-- The owner of a scope is looked for only among the ancestors. -/
theorem scopeOwner?_agrees {w w' : World V E} (hw : R.Holds w) (hagrees : w.AgreesOn R.Has w') (hc : R.Has c)
    (tag : ScopeTag) :
    w'.scopeOwner? c tag = w.scopeOwner? c tag ∧ ∀ owner, w.scopeOwner? c tag = some owner →
      R.base.Lineage c owner ∧ (owner = c ∨ owner < c) := by
  unfold World.scopeOwner?
  generalize c + 1 = generations
  induction generations generalizing c with
  | zero => exact ⟨rfl, fun owner howner => nomatch howner⟩
  | succ generations ih =>
    have hparents (parent : ComponentId) (hparent : parent ∈ w.livingParents c) :
        R.base.Lineage c parent ∧ parent < c := hw.parents hc (List.mem_filter.mp hparent).1
    have hliving : w'.livingParents c = w.livingParents c := by
      unfold World.livingParents
      rw [hagrees.parents hc]
      exact List.filter_congr fun parent hparent => hagrees.isAlive (hc.lineage (hw.parents hc hparent).1)
    unfold World.scopeOwnerWithin?
    rw [hagrees.hasScope hc, hliving]
    constructor
    · congr 1
      exact findSome?_congr fun parent hparent => (ih (hc.lineage (hparents parent hparent).1)).1
    · intro owner howner
      split at howner
      · exact Option.some.inj howner ▸ ⟨.refl, .inl rfl⟩
      · obtain ⟨parent, hparent, hfound⟩ := List.exists_of_findSome?_eq_some howner
        obtain ⟨hlineage, hlt⟩ := hparents parent hparent
        obtain ⟨hrest, hle⟩ := (ih (hc.lineage hlineage)).2 owner hfound
        exact ⟨hlineage.trans hrest, .inr (hle.elim (fun heq => heq ▸ hlt) fun h => Nat.lt_trans h hlt)⟩

/-- What a catalog comes to for a component of the realm keeps to the realm, and so does what it stores
for a scope in an ancestor. -/
theorem consult_stays {catalog : Catalog V E} (hcatalog : catalog.Confined R.asks) (hc : R.Has c) :
    (consult resolution catalog key c).Stays R calls
      fun reply => ∀ binding, reply = .ok (some binding) → binding.Confined R.asks (R.Passes c) := by
  unfold consult
  cases hfind : catalog.find? key.type.id with
  | none => exact fun binding hbinding => nomatch hbinding
  | some entry =>
    have hentry (kind : Kind) (owner : ComponentId) :
        (Binding.new key kind (entry.definition key)).Confined R.asks (R.Passes owner) := fun context =>
      (hcatalog entry (List.mem_of_find?_eq_some hfind) key context).mono fun _ hfalse => hfalse.elim
    dsimp only
    split
    · exact fun binding hbinding => nomatch hbinding
    · split
      · refine Task.stays_emit ?_
        rintro binding ⟨⟩
        exact fun context => CatalogEntry.sharedDefinition_confined (hentry .single c context)
      · split
        · refine Task.stays_emit ?_
          rintro binding ⟨⟩
          exact hentry .factory c
        · next scope _ =>
          refine Task.stays_read fun w w' hw hagrees => ?_
          obtain ⟨howner, habove⟩ := scopeOwner?_agrees hw hagrees hc scope
          refine ⟨by simp only [hagrees.hasScope hc, howner], ?_⟩
          split
          · refine Task.stays_emit ?_
            rintro binding ⟨⟩
            exact hentry .single c
          · next hhas =>
            cases hfound : w.scopeOwner? c scope with
            | none => exact fun binding hbinding => nomatch hbinding
            | some owner =>
              obtain ⟨hlineage, hle⟩ := habove owner hfound
              have hne : owner ≠ c := fun heq => hhas (heq ▸ World.hasScope_of_scopeOwner? hfound)
              refine Task.stays_emit ((memoize_stays (hc.lineage hlineage) (hentry .single owner)).bind ?_)
              rintro stored ⟨hstored, -⟩ binding ⟨⟩
              exact Stored.forwarding_confined (hstored ▸ ⟨hlineage, hle.resolve_left hne⟩)

/-- What catalogs synthesize for a component of the realm is stored there. -/
theorem askFactories_stays {factories : List (Factory V E)} (hc : R.Has c)
    (hfactories : ∀ factory ∈ factories, ∃ catalog : Catalog V E,
      catalog.Confined R.asks ∧ factory = catalog.factory) :
    (askFactories resolution key c factories).Stays R calls
      fun reply => ∀ stored, reply = .ok (some stored) → stored.Above R c := by
  induction factories with
  | nil => exact fun stored hstored => nomatch hstored
  | cons factory rest ih =>
    obtain ⟨catalog, hcatalog, rfl⟩ := hfactories factory List.mem_cons_self
    specialize ih fun other hother => hfactories other (List.mem_cons_of_mem _ hother)
    have hsynthesis : (synthesis resolution (catalog.factory key c)).Stays R calls
        fun reply => ∀ binding, reply = .ok (some binding) → binding.Confined R.asks (R.Passes c) :=
      (consult_stays hcatalog hc).bind fun reply hreply => hreply
    refine hsynthesis.bind fun reply hreply => ?_
    match reply, hreply with
    | .error e, _ => exact fun stored hstored => nomatch hstored
    | .ok none, _ => exact ih
    | .ok (some binding), hreply =>
      have hbinding : (binding.withKey key).Confined R.asks (R.Passes c) := hreply binding rfl
      refine Task.stays_emit ((memoize_stays hc hbinding).bind ?_)
      rintro stored ⟨rfl, hstored⟩ found ⟨⟩
      exact ⟨.refl, hstored⟩

/-- A key is located at a binding of the component or of an ancestor. -/
theorem locate_stays (hc : R.Has c) :
    (locate resolution key c).Stays R calls
      fun reply => ∀ stored, reply = .ok (some stored) → stored.Above R c := by
  refine (searchWithin_stays (c + 1) hc).bind fun found hfound => ?_
  cases found with
  | some stored =>
    rintro other ⟨⟩
    exact hfound stored rfl
  | none =>
    refine Task.stays_read fun w w' hw hagrees => ⟨by simp only [hagrees.config hc], ?_⟩
    exact askFactories_stays hc fun factory hfactory => hw.factories hc (List.mem_reverse.mp hfactory)

end Resolution

namespace Stored

variable {stored : Stored V E} {context : Context V}

/-- The definition of a binding of the realm stays there. -/
theorem create_stays (howner : R.Has stored.owner) (hbinding : stored.binding.Confined R.asks (R.Passes stored.owner))
    (hcontext : context.component = stored.owner) (hcalls : ∀ request, context.Spawns R request → calls request) :
    (stored.create context).Stays R calls fun _ => True := by
  rw [← hcontext] at howner hbinding
  exact (Program.toTask_stays (hbinding context) howner hcalls).bind fun outcome _ => trivial

/-- The value of a binding of the realm is kept there. -/
theorem obtain_stays [Hashed V] (howner : R.Has stored.owner)
    (hbinding : stored.binding.Confined R.asks (R.Passes stored.owner))
    (hcontext : context.component = stored.owner) (hcalls : ∀ request, context.Spawns R request → calls request) :
    (stored.obtain context).Stays R calls fun _ => True := by
  have hcreate := create_stays howner hbinding hcontext hcalls
  unfold obtain
  dsimp only
  split
  · exact hcreate
  · have hslot : (Slot.single stored.owner stored.binding.key.identity).In R.Has := howner
    exact Task.keep_stays hslot hcreate
  · split
    · trivial
    · have hslot : (Slot.multi stored.owner stored.binding.key.identity context.parameters.hashKey).In R.Has := howner
      exact Task.stays_emit (Task.keep_stays hslot hcreate)

end Stored

/-- What a call does that is made in the realm stays there. The calls that it leads to are made by the
definition that it runs. -/
theorem Call.body_stays [Hashed V] {request : Call V} (h : request.In R) :
    (request.body : Task V E (Reply V)).Stays R (request.Leads R) fun _ => True := by
  cases request with
  | resolve c path resolution key parameters =>
    refine Task.stays_emit ?_
    split
    · exact Task.fail_stays trivial
    · next hvisited =>
      have hfresh : ∀ visited ∈ path, visited.site ≠ key.site := by simpa using hvisited
      refine (Resolution.locate_stays h).bind fun reply hreply => ?_
      match reply, hreply with
      | .error e, _ => exact Task.fail_stays trivial
      | .ok none, _ =>
        dsimp only
        split
        · exact Task.stays_emit trivial
        · exact Task.fail_stays trivial
      | .ok (some stored), hreply =>
        obtain ⟨hlineage, hbinding⟩ := hreply stored rfl
        refine (Stored.obtain_stays (Realm.Has.lineage h hlineage) hbinding rfl fun inner hinner =>
          ⟨_, ⟨hfresh, _, hlineage, rfl⟩, hinner⟩).bind fun result _ => ?_
        cases result with
        | ok object => trivial
        | error e => exact Task.fail_stays trivial
  | obtain owner key context =>
    refine Task.stays_read fun w w' hw hagrees => ⟨by simp only [hagrees.binding? h.1], ?_⟩
    cases hfound : w.binding? owner key.identity with
    | none => trivial
    | some binding =>
      refine (Stored.obtain_stays h.1 (hw.bindings h.1 hfound) h.2 fun inner hinner =>
        ⟨_, rfl, hinner⟩).bind fun result _ => ?_
      cases result <;> trivial

end Walk

/-! ### Runs in a realm -/

namespace Realm

variable {R : Realm V E} {w w' v v' u u' : World V E}

/-- What is changed in the realm twice is changed in the realm. -/
theorem Contains.trans (h : R.Contains w v v') (h' : R.Contains v u u') : R.Contains w u u' :=
  ⟨h'.holds, h.spares.trans h'.spares, h'.agrees⟩

/-- Setting a cell of the realm. -/
theorem contains_setCell (hw : R.Holds w) (hagrees : w.AgreesOn R.Has w') {slot : Slot} (hslot : slot.In R.Has)
    (cell : Cell V) : R.Contains w (w.setCell slot cell) (w'.setCell slot cell) :=
  ⟨hw.of_components rfl, World.spares_setCell hslot w cell, hagrees.setCell slot cell⟩

end Realm

/-- Of two runs, the second ends or halts like the first, and both have changed the same in the realm. -/
def Run.Mirrors (R : Realm V E) (P : α → Prop) (w : World V E) : Run V E α → Run V E α → Prop
  | .ok (result, v), .ok (result', v') => result' = result ∧ P result ∧ R.Contains w v v'
  | .error halt, .error halt' => halt' = halt
  | _, _ => False

section Runs

variable {R : Realm V E} {answer : Call V → World V E → Run V E (Reply V)}
  {calls : Call V → Prop} {P : α → Prop} {w w' : World V E}

/-- What has happened before is in the realm as well. -/
theorem Run.Mirrors.after {run run' : Run V E α} {v v' : World V E} (h : run.Mirrors R P v run')
    (hbefore : R.Contains w v v') : run.Mirrors R P w run' := by
  match run, run', h with
  | .ok _, .ok _, h => exact ⟨h.1, h.2.1, hbefore.trans h.2.2⟩
  | .error _, .error _, h => exact h

/-- A run that has ended has promised its result, and stayed in the realm. -/
theorem Run.Mirrors.of_ok {run run' : Run V E α} {v : World V E} {result : α} (h : run.Mirrors R P w run')
    (hrun : run = .ok (result, v)) :
    ∃ v', run' = .ok (result, v') ∧ P result ∧ R.Contains w v v' := by
  subst hrun
  match run', h with
  | .ok (_, v'), h => exact ⟨v', by rw [h.1], h.2⟩

/-- A run that has halted is mirrored by one that halts for the same reason. -/
theorem Run.Mirrors.of_error {run run' : Run V E α} {halt : Halt} (h : run.Mirrors R P w run')
    (hrun : run = .error halt) : run' = .error halt := by
  subst hrun
  match run', h with
  | .error _, h => exact congrArg Except.error h

/-- Calls are answered alike in worlds that agree in the realm. -/
def Realm.Answers (R : Realm V E) (calls : Call V → Prop) (answer : Call V → World V E → Run V E (Reply V)) : Prop :=
  ∀ request w w', calls request → R.Holds w → w.AgreesOn R.Has w' →
    (answer request w).Mirrors R (fun _ => True) w (answer request w')

/-- A task that stays in the realm runs alike in worlds that agree there. -/
theorem Task.Stays.run (hanswer : R.Answers calls answer) {task : Task V E α} (h : task.Stays R calls P)
    (hw : R.Holds w) (hagrees : w.AgreesOn R.Has w') :
    (task.run answer w).Mirrors R P w (task.run answer w') := by
  induction task generalizing w w' with
  | done result => exact ⟨rfl, h, hw, .refl _ _, hagrees⟩
  | act change next ih =>
    obtain ⟨hcontains, hnext, hstays⟩ := h w w' hw hagrees
    unfold Task.run
    rw [hnext]
    exact (ih w hstays hcontains.holds hcontains.agrees).after hcontains
  | acquire slot resolution next ih =>
    obtain ⟨hslot, hnext⟩ := h
    unfold Task.run
    rw [hagrees.cells hslot]
    cases w.cells slot with
    | ready object => exact ih _ (hnext _) hw hagrees
    | empty =>
      have hcontains := Realm.contains_setCell hw hagrees hslot (.creating resolution.number)
      exact (ih _ (hnext _) hcontains.holds hcontains.agrees).after hcontains
    | creating creator =>
      dsimp only
      split
      · exact ih _ (hnext _) hw hagrees
      · exact rfl
  | settle slot cell next ih =>
    have hcontains := Realm.contains_setCell hw hagrees h.1 cell
    exact (ih h.2 hcontains.holds hcontains.agrees).after hcontains
  | notify slot next ih => exact ih h hw hagrees
  | call request next ih =>
    have hmirrors := hanswer request w w' h.1 hw hagrees
    unfold Task.run
    cases hreply : answer request w with
    | ok pair =>
      obtain ⟨v', hreply', -, hcontains⟩ := hmirrors.of_ok hreply
      rw [hreply']
      exact (ih _ (h.2 _) hcontains.holds hcontains.agrees).after hcontains
    | error halt =>
      rw [hmirrors.of_error hreply]
      exact rfl
  | meet gate next ih => exact ih h hw hagrees

/-- The calls that a task makes itself, if it stays in the realm, are calls that it may make, in worlds that
keep to the realm. -/
theorem Task.Stays.called (hanswer : R.Answers calls answer) {task : Task V E α} (h : task.Stays R calls P)
    (hw : R.Holds w) {inner : Call V} {v : World V E} (hmade : task.Makes answer w inner v) :
    calls inner ∧ R.Holds v := by
  unfold Task.Makes at hmade
  induction task generalizing w with
  | done result => cases hmade
  | act change next ih =>
    obtain ⟨hcontains, -, hstays⟩ := h w w hw (.refl _ _)
    exact ih w hstays hcontains.holds hmade
  | acquire slot resolution next ih =>
    rw [Task.journal_acquire] at hmade
    cases hacquire : w.acquire? slot resolution with
    | none => simp [hacquire] at hmade
    | some pair =>
      rw [hacquire] at hmade
      have hcomponents := World.acquire?_components hacquire
      exact ih pair.1 (h.2 pair.1) (hw.of_components hcomponents) (Grant.called_mem_noted_append.mp hmade)
  | settle slot cell next ih =>
    simp only [Task.journal, List.mem_cons, reduceCtorEq, false_or] at hmade
    exact ih h.2 (w := w.setCell slot cell) (hw.of_components rfl) hmade
  | notify slot next ih => exact ih h hw hmade
  | call request next ih =>
    unfold Task.journal at hmade
    rcases List.mem_append.mp hmade with hmade | hmade
    · obtain ⟨rfl, rfl⟩ := Moment.called.inj (List.mem_singleton.mp hmade)
      exact ⟨h.1, hw⟩
    · cases hreply : answer request w with
      | error halt => simp [hreply] at hmade
      | ok pair =>
        simp only [hreply] at hmade
        obtain ⟨_, -, -, hcontains⟩ := (hanswer request w w h.1 hw (.refl _ _)).of_ok hreply
        exact ih pair.1 (h.2 pair.1) hcontains.holds hmade
  | meet gate next ih => exact ih h hw hmade

end Runs

/-! ### Calls in a realm -/

section Calls

variable {R : Realm V E}

/-- The contexts that calls of the realm open are contexts of the realm. -/
theorem Call.In.opens {request : Call V} (h : request.In R) {context : Context V}
    (hopens : request.Opens R context) : R.Has context.component := by
  cases request with
  | resolve c path resolution key parameters =>
    obtain ⟨-, owner, hlineage, rfl⟩ := hopens
    exact Realm.Has.lineage h hlineage
  | obtain owner key passed =>
    obtain rfl : context = passed := hopens
    exact h.2 ▸ h.1

/-- The calls that definitions make in contexts of the realm are made in the realm. -/
theorem Context.Spawns.inRealm {context : Context V} {request : Call V} (h : context.Spawns R request)
    (hcontext : R.Has context.component) : request.In R := by
  cases request with
  | resolve c path resolution key parameters => exact h.1 ▸ hcontext
  | obtain owner key inner => exact ⟨hcontext.lineage h.1.1, h.2 ▸ rfl⟩

/-- The calls that calls of the realm lead to are made in the realm. -/
theorem Call.In.leads {request inner : Call V} (h : request.In R) (hleads : request.Leads R inner) : inner.In R := by
  obtain ⟨context, hopens, hspawns⟩ := hleads
  exact hspawns.inRealm (h.opens hopens)

/-- A call of the realm that is led to by another is made in the realm. -/
theorem Call.In.leadsTo {request inner : Call V} (h : request.In R)
    (hleads : Relation.ReflTransGen (Call.Leads R) request inner) : inner.In R := by
  induction hleads with
  | refl => exact h
  | tail _ hleads ih => exact ih.leads hleads

variable [Hashed V]

/-- Calls of the realm are answered alike in worlds that agree there, however deep they are nested. -/
theorem Realm.answers (R : Realm V E) (depth : Nat) : R.Answers (Call.In R) (Call.answer depth) := by
  induction depth with
  | zero => exact fun _ _ _ _ _ _ => rfl
  | succ depth ih =>
    intro request w w' hin hw hagrees
    have hanswer : R.Answers (request.Leads R) (Call.answer depth) :=
      fun inner v v' hleads => ih inner v v' (hin.leads hleads)
    exact (Call.body_stays hin).run hanswer hw hagrees

/-- The calls that are taken up on behalf of a call are led to by it. -/
theorem Call.leads_of_called {depth : Nat} {request inner : Call V} {w v : World V E} (hin : request.In R)
    (hw : R.Holds w) (h : .called inner v ∈ Call.journal depth request w) :
    Relation.ReflTransGen (Call.Leads R) request inner ∧ R.Holds v := by
  induction depth generalizing request w with
  | zero => cases h
  | succ depth ih =>
    rcases List.mem_cons.mp h with heq | hmem
    · obtain ⟨rfl, rfl⟩ := Moment.called.inj heq
      exact ⟨.refl, hw⟩
    · have hanswer : R.Answers (request.Leads R) (Call.answer depth) :=
        fun inner v v' hleads => R.answers depth inner v v' (hin.leads hleads)
      obtain ⟨between, u, hmade, hcalled, -⟩ := Task.called_mem hmem
      obtain ⟨hleads, hu⟩ := (Call.body_stays hin).called hanswer hw hmade
      obtain ⟨hrest, hv⟩ := ih (hin.leads hleads) hu hcalled
      exact ⟨.head hleads hrest, hv⟩

/-- What a call of the realm runs is the definition of a binding of the realm, in a context that the call
opens. -/
theorem Call.In.visit {request : Call V} {w : World V E} (hin : request.In R) (hw : R.Holds w) {visit : Visit V E}
    (h : request.visit? w = some visit) :
    request.Opens R visit.context ∧ visit.context.component = visit.stored.owner ∧
      visit.stored.binding.Confined R.asks (R.Passes visit.stored.owner) ∧ R.Holds visit.world := by
  cases Visit.answers_of_visit? h with
  | @located c path resolution key parameters found hfresh hlocate hcontext hcomponents =>
    let asked := w.emit resolution.logger (.lookup key)
    have hasked : R.Holds asked := hw.of_components (by simp [asked])
    have hanswer : R.Answers (fun _ => False) (Call.answer 0) := fun _ _ _ hfalse => hfalse.elim
    have hstays : (Resolution.locate resolution key c).Stays R (fun _ => False) _ := Resolution.locate_stays hin
    have hmirrors := hstays.run hanswer hasked (.refl _ asked)
    obtain ⟨_, -, habove, hcontains⟩ := hmirrors.of_ok hlocate
    obtain ⟨hlineage, hbinding⟩ := habove visit.stored rfl
    rw [hcontext]
    exact ⟨⟨hfresh, visit.stored.owner, hlineage, rfl⟩, rfl, hbinding, hcontains.holds.of_components hcomponents⟩
  | named hbinding hstored hcontext hcomponents =>
    rw [hstored, hcontext]
    exact ⟨rfl, hin.2, hw.bindings hin.1 hbinding, hw.of_components hcomponents⟩

/-- What the definition of a visit calls itself, it calls in its context. -/
theorem Visit.spawns_of_makes {visit : Visit V E} (hcomponent : visit.context.component = visit.stored.owner)
    (howner : R.Has visit.stored.owner)
    (hbinding : visit.stored.binding.Confined R.asks (R.Passes visit.stored.owner)) (hw : R.Holds visit.world)
    {depth : Nat} {request : Call V} {v : World V E} (h : visit.Makes depth request v) :
    visit.context.Spawns R request ∧ R.Holds v := by
  have hanswer : R.Answers (visit.context.Spawns R) (Call.answer depth) :=
    fun request w w' hspawns => R.answers depth request w w' (hspawns.inRealm (hcomponent ▸ howner))
  have hcreate : (visit.stored.create visit.context).Stays R (visit.context.Spawns R) fun _ => True :=
    Stored.create_stays howner hbinding hcomponent fun _ hspawns => hspawns
  exact hcreate.called hanswer hw h

end Calls

/-! ### Top-level requests in a realm -/

section Queries

variable {R : Realm V E} {w w' : World V E}

/-- A top-level query at the root stays in the realm. -/
theorem Query.task_stays (q : Query V) :
    (q.task R.root : Task V E (Reply V)).Stays R (Call.In R) fun _ => True := by
  intro w w' hw hagrees
  refine ⟨⟨hw, .of_eq rfl rfl, ?_⟩, ?_, .refl, fun reply => trivial⟩
  · exact ⟨hagrees.component, hagrees.cells, hagrees.nextObject, congrArg (· + 1) hagrees.nextResolution,
      hagrees.surroundings⟩
  · have hconfig : w'.config R.root = w.config R.root := hagrees.config .refl
    simp only [hconfig, hagrees.nextResolution]

variable [Hashed V]

/-- Worlds that agree in a realm answer a query at its root alike. -/
theorem Query.task_mirrors (hw : R.Holds w) (hagrees : w.AgreesOn R.Has w') (q : Query V) (depth : Nat) :
    (w.run depth (q.task R.root)).Mirrors R (fun _ => True) w (w'.run depth (q.task R.root)) :=
  q.task_stays.run (R.answers depth) hw hagrees

/-- What a query at the root runs are definitions of bindings of the realm, each in a context that is
opened by a call that the query leads to. -/
theorem World.Visits.inRealm (hw : R.Holds w) {q : Query V} {depth : Nat} {visit : Visit V E}
    (h : w.Visits depth (q.task R.root) visit) :
    ∃ request, Relation.ReflTransGen (Call.Leads R) (q.call R.root w) request ∧ request.Opens R visit.context ∧
      visit.context.component = visit.stored.owner ∧ R.Has visit.stored.owner ∧
        visit.stored.binding.Confined R.asks (R.Passes visit.stored.owner) ∧ R.Holds visit.world := by
  obtain ⟨request, v, hmem, hvisit⟩ := h
  rw [q.journal_task] at hmem
  have hroot : (q.call R.root w).In R := .refl
  have hentered : R.Holds w.entered := hw.of_components rfl
  obtain ⟨hleads, hv⟩ := Call.leads_of_called hroot hentered hmem
  have hin := hroot.leadsTo hleads
  obtain ⟨hopens, hcomponent, hbinding, hworld⟩ := hin.visit hv hvisit
  exact ⟨request, hleads, hopens, hcomponent, hcomponent ▸ hin.opens hopens, hbinding, hworld⟩

end Queries

end Injection
