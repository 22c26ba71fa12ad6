import Injection.Resolution
import Mathlib.Data.List.Basic

/-!
# What tasks promise

A conduct is a set of rules: which cells may be asked for and which calls may be made while the
values of other cells are being made, and which bindings components may store. A task follows a
conduct if it keeps the rules whatever it is answered, settles the cells it is given in reverse
order, and announces every settled cell at once.

The rules of resolution are walked through only once, for every conduct whose calls lead to nothing
that it forbids: `Call.body_follows`. What definitions may do is left to the conduct.
-/

namespace Injection

variable {V E α β : Type}

/-- Rules for tasks that share a world. The list of slots that a rule is given holds the cells
whose values the task is making, innermost first. -/
structure Conduct (V E : Type) where
  /-- What is true of the components at all times. -/
  holds : List (Component V E) → Prop
  /-- Which bindings a component may store. -/
  stores : ComponentId → Binding V E → Prop
  /-- Which cells may be asked for on behalf of a resolution. -/
  asks : List Slot → Resolution → Slot → Prop
  /-- Which nested calls may be made. -/
  calls : List Slot → Call V → Prop

/-- A change of the world that no thread notices by its cells or its waits. It may make objects and
store a binding. -/
structure Conduct.Unnoticed (C : Conduct V E) (before after : World V E) : Prop where
  components : C.holds after.components
  stored : after.components = before.components ∨
    ∃ c binding, C.stores c binding ∧ after.components = (before.memoize c binding).components
  cells : after.cells = before.cells
  waiting : after.waiting = before.waiting
  nextObject : before.nextObject ≤ after.nextObject
  nextResolution : before.nextResolution ≤ after.nextResolution

namespace Task

/-- The next thing that the task does is to wake everyone who waits for the cell. -/
def Announces (slot : Slot) : Task V E α → Prop
  | .notify other _ => other = slot
  | _ => False

/-- The task keeps the rules while it is making the values of some cells, and ends as it should. -/
def Follows (C : Conduct V E) (ends : α → List Slot → Prop) : Task V E α → List Slot → Prop
  | .done result, making => ends result making
  | .act change next, making =>
    ∀ w, C.holds w.components → C.Unnoticed w (change w) ∧ (next w).Follows C ends making
  | .acquire slot resolution next, making =>
    C.asks making resolution slot ∧
      (∀ object, (next (.ready object)).Follows C ends making) ∧
      (next .cycle).Follows C ends making ∧ (next .granted).Follows C ends (slot :: making)
  | .settle slot cell next, making =>
    (∀ resolution, cell ≠ .creating resolution) ∧ next.Announces slot ∧
      ∃ rest, making = slot :: rest ∧ next.Follows C ends rest
  | .notify _ next, making => next.Follows C ends making
  | .call request next, making =>
    C.calls making request ∧ ∀ reply, (next reply).Follows C ends making
  | .meet _ next, making => next.Follows C ends making

end Task

/-- The task keeps the rules, and has settled what it was given when it ends with a result of which
`P` is true. -/
def Task.Yields (C : Conduct V E) (P : α → Prop) (task : Task V E α) (making : List Slot) : Prop :=
  task.Follows C (fun result left => left = making ∧ P result) making

/-- The task keeps the rules and has settled what it was given when it ends. -/
abbrev Task.Keeps (C : Conduct V E) (task : Task V E α) (making : List Slot) : Prop :=
  task.Yields C (fun _ => True) making

namespace Task

variable {C : Conduct V E} {making : List Slot} {P : α → Prop} {Q : β → Prop}

/-- A task that hands its result on is that task. -/
theorem bind_done (task : Task V E α) : task.bind .done = task := by
  induction task <;> simp_all [Task.bind]

/-- It makes no difference where a chain of tasks is taken apart. -/
theorem bind_assoc {γ : Type} (task : Task V E α) (f : α → Task V E β) (g : β → Task V E γ) :
    (task.bind f).bind g = task.bind fun result => (f result).bind g := by
  induction task <;> simp_all [Task.bind]

/-- A task that tells everybody first does so whatever comes after it. -/
theorem Announces.bind {slot : Slot} {task : Task V E α} (h : task.Announces slot)
    (f : α → Task V E β) : (task.bind f).Announces slot := by
  cases task <;> simp_all [Announces, Task.bind]

/-- A task followed by others that take over where it ends. -/
theorem Follows.bind {ends : α → List Slot → Prop} {ends' : β → List Slot → Prop}
    {task : Task V E α} {f : α → Task V E β} (h : task.Follows C ends making)
    (hf : ∀ result left, ends result left → (f result).Follows C ends' left) :
    (task.bind f).Follows C ends' making := by
  induction task generalizing making with
  | done result => exact hf result making h
  | act change next ih => exact fun w hw => ⟨(h w hw).1, ih w (h w hw).2⟩
  | acquire slot resolution next ih =>
    exact ⟨h.1, fun object => ih _ (h.2.1 object), ih _ h.2.2.1, ih _ h.2.2.2⟩
  | settle slot cell next ih =>
    obtain ⟨hcell, hnext, rest, hrest, hfollows⟩ := h
    exact ⟨hcell, hnext.bind f, rest, hrest, ih hfollows⟩
  | notify slot next ih => exact ih h
  | call request next ih => exact ⟨h.1, fun reply => ih reply (h.2 reply)⟩
  | meet gate next ih => exact ih h

/-- Tasks that settle what they are given can be strung together. -/
theorem Yields.bind {task : Task V E α} {f : α → Task V E β} (h : task.Yields C P making)
    (hf : ∀ result, P result → (f result).Yields C Q making) :
    (task.bind f).Yields C Q making :=
  Follows.bind h fun result _ hend => hend.1 ▸ hf result hend.2

/-- A task that has ended yields its result. -/
theorem Yields.done {result : α} (h : P result) : (Task.done result : Task V E α).Yields C P making :=
  ⟨rfl, h⟩

/-- What is promised of the result may be weakened. -/
theorem Yields.mono {P' : α → Prop} {task : Task V E α} (h : task.Yields C P making)
    (hP : ∀ result, P result → P' result) : task.Yields C P' making := by
  have hbind : (task.bind .done).Yields C P' making := h.bind fun result hr => .done (hP result hr)
  rwa [bind_done] at hbind

end Task

/-! ### What an event leaves alone -/

section Emit

variable (w : World V E) (logger : Option String) (event : Event)

/-- An event is reported without a change of the components. -/
@[simp]
theorem World.emit_components : (w.emit logger event).components = w.components := by
  cases logger <;> rfl

/-- An event is reported without a change of the cells. -/
@[simp]
theorem World.emit_cells : (w.emit logger event).cells = w.cells := by
  cases logger <;> rfl

/-- An event is reported without a change of the waiting record. -/
@[simp]
theorem World.emit_waiting : (w.emit logger event).waiting = w.waiting := by
  cases logger <;> rfl

/-- An event is reported without using up the number of an object. -/
@[simp]
theorem World.emit_nextObject : (w.emit logger event).nextObject = w.nextObject := by
  cases logger <;> rfl

/-- An event is reported without using up the number of a resolution. -/
@[simp]
theorem World.emit_nextResolution : (w.emit logger event).nextResolution = w.nextResolution := by
  cases logger <;> rfl

end Emit

section Steps

variable {C : Conduct V E} {making : List Slot} {P : α → Prop}

/-- A change that leaves components, cells and waits alone is unnoticed. -/
theorem Conduct.Unnoticed.of_eq {before after : World V E} (h : C.holds before.components)
    (hcomponents : after.components = before.components) (hcells : after.cells = before.cells)
    (hwaiting : after.waiting = before.waiting) (hobject : before.nextObject ≤ after.nextObject)
    (hresolution : before.nextResolution ≤ after.nextResolution) : C.Unnoticed before after :=
  ⟨hcomponents ▸ h, Or.inl hcomponents, hcells, hwaiting, hobject, hresolution⟩

/-- Whoever looks at the world sees components that are as they must be. -/
theorem Task.read_yields : (Task.read : Task V E (World V E)).Yields C (fun w => C.holds w.components) making :=
  fun _ hw => ⟨.of_eq hw rfl rfl rfl (Nat.le_refl _) (Nat.le_refl _), rfl, hw⟩

/-- Reporting an event keeps every rule. -/
theorem Task.emit_keeps (resolution : Resolution) (event : Event) :
    (Task.emit resolution event : Task V E Unit).Keeps C making :=
  fun _ hw => ⟨.of_eq hw (by simp) (by simp) (by simp) (by simp) (by simp), rfl, trivial⟩

/-- Whoever fails reports the error and yields it. -/
theorem Task.fail_yields (resolution : Resolution) (error : ResolveError)
    {P : Except ResolveError α → Prop} (h : P (.error error)) :
    (Task.fail resolution error : Task V E (Except ResolveError α)).Yields C P making :=
  (Task.emit_keeps resolution _).bind fun _ _ => .done h

/-- A cell may be asked for if its value is made by the rules while the cell is being made. -/
theorem Task.keep_keeps {slot : Slot} {context : Context V}
    {create : Task V E (Except ResolveError (Object V))}
    (hasks : C.asks making context.resolution slot) (hcreate : create.Keeps C (slot :: making)) :
    (Task.keep slot context create).Keeps C making := by
  refine ⟨hasks, fun object => ?_, ?_, ?_⟩
  · exact (Task.emit_keeps _ _).bind fun _ _ => .done trivial
  · exact Task.fail_yields _ _ trivial
  · apply Task.Follows.bind (Task.emit_keeps _ _)
    intro _ left hleft
    obtain ⟨rfl, -⟩ := hleft
    apply Task.Follows.bind hcreate
    intro result left hleft
    obtain ⟨rfl, -⟩ := hleft
    cases result with
    | ok object =>
      refine ⟨by simp, rfl, making, rfl, ?_⟩
      exact (Task.emit_keeps _ _).bind fun _ _ => .done trivial
    | error e => exact ⟨by simp, rfl, making, rfl, rfl, trivial⟩

end Steps

/-! ### Definitions and bindings -/

/-- What a program does when it is called in a context keeps the rules. -/
def Program.Fits (C : Conduct V E) (context : Context V) : Program V E → List Slot → Prop
  | .done _, _ => True
  | .request key parameters next, making =>
    C.calls making (.resolve context.component context.path context.resolution key parameters) ∧
      ∀ reply, (next reply).Fits C context making
  | .start component key parameters next, making =>
    (∀ number logger, C.calls making (.resolve component [] ⟨number, logger⟩ key parameters)) ∧
      ∀ reply, (next reply).Fits C context making
  | .forward owner key next, making =>
    C.calls making (.obtain owner key { context with component := owner }) ∧
      ∀ reply, (next reply).Fits C context making
  | .share entry body next, making =>
    C.asks making context.resolution (.shared entry) ∧
      body.Fits C context (.shared entry :: making) ∧ ∀ reply, (next reply).Fits C context making
  | .make _ _ next, making => ∀ object, (next object).Fits C context making
  | .touch _ next, making => ∀ before, (next before).Fits C context making
  | .report _ next, making => next.Fits C context making
  | .meet _ next, making => next.Fits C context making

/-- The cell that keeps the value of a stored binding in a context, if one does. -/
def Stored.slot? [Hashed V] (stored : Stored V E) (context : Context V) : Option Slot :=
  match stored.binding.kind with
  | .factory => none
  | .single => some (.single stored.owner stored.binding.key.identity)
  | .multi =>
    some (.multi stored.owner stored.binding.key.identity context.parameters.hashKey)

/-- The cells of stored bindings are not those of catalog entries. -/
theorem Stored.slot?_ne_shared [Hashed V] {stored : Stored V E} {context : Context V} {entry : EntryId} :
    stored.slot? context ≠ some (.shared entry) := by
  unfold slot?
  split <;> simp

/-- A stored binding may be obtained in a context. -/
def Stored.Admitted [Hashed V] (C : Conduct V E) (stored : Stored V E) (context : Context V)
    (making : List Slot) : Prop :=
  match stored.slot? context with
  | none => (stored.binding.definition context).Fits C context making
  | some slot =>
    C.asks making context.resolution slot ∧
      (stored.binding.definition context).Fits C context (slot :: making)

/-- What a catalog may give for a key in a component, as far as the rules go: bindings of which `R`
is true, and values for scopes that may be stored in the component that owns the scope. -/
def Catalog.Supplies (C : Conduct V E) (catalog : Catalog V E) (key : Key) (c : ComponentId)
    (R : Binding V E → Prop) : Prop :=
  ∀ entry, catalog.find? key.type.id = some entry →
    entry.descriptor.qualifier.map Qualifier.identity = key.site.qualifier →
    if entry.descriptor.isSingleton then R (.new key .single (entry.sharedDefinition key))
    else
      match entry.descriptor.scope with
      | none => R (.new key .factory (entry.definition key))
      | some scope => ∀ w : World V E, C.holds w.components →
        if w.hasScope c scope then R (.new key .single (entry.definition key))
        else ∀ owner, w.scopeOwner? c scope = some owner →
          C.stores owner (.new key .single (entry.definition key)) ∧
            ∀ binding, C.stores owner binding → binding.key.identity = key.identity →
              R (Stored.forwarding ⟨owner, binding⟩)

/-- A factory's answer may be stored in a component under a key. -/
def Synthesis.Supplies (C : Conduct V E) (key : Key) (c : ComponentId) : Synthesis V E → Prop
  | .answer reply => ∀ binding, reply = .ok (some binding) → C.stores c (binding.withKey key)
  | .consult catalog asked asking next =>
    ∃ R : Binding V E → Prop, catalog.Supplies C asked asking R ∧
      ∀ reply, (∀ binding, reply = .ok (some binding) → R binding) →
        (next reply).Supplies C key c
  | .touch _ next => ∀ before, (next before).Supplies C key c

namespace Call

/-- The site that a nested call asks for. -/
def site : Call V → Site
  | resolve _ _ _ key _ => key.site
  | obtain _ key _ => key.site

/-- The resolution on behalf of which a nested call is made. -/
def resolution : Call V → Resolution
  | resolve _ _ resolution _ _ => resolution
  | obtain _ _ context => context.resolution

end Call

/-- What components hold goes with what they store. -/
structure Conduct.Stable (C : Conduct V E) : Prop where
  /-- What components hold may be stored in them. -/
  stored : ∀ {components : List (Component V E)} {c : ComponentId} {component binding},
    C.holds components → components[c]? = some component → binding ∈ component.bindings →
      C.stores c binding
  /-- Storing what may be stored is allowed. -/
  memoized : ∀ {w : World V E} {c : ComponentId} {binding}, C.holds w.components →
    C.stores c binding → C.holds (w.memoize c binding).components

/-- What the factories of a component make for a key may be stored there. -/
def Conduct.SuppliedAt (C : Conduct V E) (c : ComponentId) (key : Key) : Prop :=
  ∀ {components : List (Component V E)} {component factory}, C.holds components →
    components[c]? = some component → factory ∈ component.config.factories →
      (factory key.required c).Supplies C key.required c

/-- The calls that a conduct allows lead to nothing that it forbids. -/
structure Conduct.Lawful [Hashed V] (C : Conduct V E) : Prop extends C.Stable where
  /-- What factories make may be stored. -/
  supplied : ∀ {c : ComponentId} {key : Key}, C.SuppliedAt c key
  /-- What a call finds may be obtained. -/
  admitted : ∀ {owner : ComponentId} {binding} {making} {request : Call V} {context : Context V},
    C.stores owner binding → C.calls making request → binding.key.site = request.site →
      context.resolution = request.resolution →
      (Stored.mk owner binding).Admitted C context making

/-! ### What a look-up finds -/

/-- The binding under a key is one of the component's, under that key. -/
theorem World.mem_of_binding? {w : World V E} {c : ComponentId} {key : KeyId} {binding : Binding V E}
    (h : w.binding? c key = some binding) :
    ∃ component, w.components[c]? = some component ∧ binding ∈ component.bindings ∧
      binding.key.identity = key := by
  obtain ⟨component, hcomponent, hbinding⟩ := Option.bind_eq_some_iff.mp h
  refine ⟨component, hcomponent, List.mem_of_find?_eq_some hbinding, ?_⟩
  simpa using List.find?_some hbinding

/-- The binding that serves a key is stored under the key itself or under its required form. -/
theorem World.serving?_eq_some {w : World V E} {c : ComponentId} {key : Key} {binding : Binding V E}
    (h : w.serving? c key = some binding) :
    w.binding? c key.identity = some binding ∨ w.binding? c key.required.identity = some binding := by
  obtain ⟨component, hcomponent, hserving⟩ := Option.bind_eq_some_iff.mp h
  have hlift (k : KeyId) (hk : component.binding? k = some binding) :
      w.binding? c k = some binding := Option.bind_eq_some_iff.mpr ⟨component, hcomponent, hk⟩
  unfold Component.serving? at hserving
  split at hserving
  · cases hexact : component.binding? key.identity with
    | some found =>
      rw [hexact] at hserving
      exact Or.inl (hlift _ (hexact.trans hserving))
    | none =>
      rw [hexact] at hserving
      exact Or.inr (hlift _ hserving)
  · exact Or.inl (hlift _ hserving)

/-- Storing a binding changes nothing but the bindings of a component. -/
theorem World.memoize_unnoticed {C : Conduct V E} {w : World V E} {c : ComponentId}
    {binding : Binding V E} (h : C.holds (w.memoize c binding).components)
    (hstores : C.stores c binding) : C.Unnoticed w (w.memoize c binding) := by
  refine ⟨h, Or.inr ⟨c, binding, hstores, rfl⟩, ?_, ?_, ?_, ?_⟩ <;> unfold World.memoize <;> split <;>
    simp [World.modifyComponent]

section Walk

variable {C : Conduct V E} {making : List Slot}

/-- What the program of a fitting definition does keeps the rules. -/
theorem Program.toTask_keeps {context : Context V} {program : Program V E}
    (h : program.Fits C context making) : (program.toTask context).Keeps C making := by
  induction program generalizing making with
  | done outcome => exact .done trivial
  | request key parameters next ih => exact ⟨h.1, fun reply => ih reply (h.2 reply)⟩
  | start component key parameters next ih =>
    refine fun w hw => ⟨.of_eq hw rfl rfl rfl (Nat.le_refl _) (Nat.le_succ _), h.1 _ _, fun reply => ih reply (h.2 reply)⟩
  | forward owner key next ih =>
    refine fun w hw => ⟨.of_eq hw rfl rfl rfl (Nat.le_refl _) (Nat.le_refl _), ?_⟩
    dsimp only
    split
    · exact ⟨h.1, fun reply => ih _ (h.2 _)⟩
    · exact ih _ (h.2 _)
  | share entry body next ihbody ih =>
    refine (Task.keep_keeps h.1 ?_).bind fun reply _ => ih reply (h.2.2 reply)
    exact (ihbody h.2.1).bind fun outcome _ => .done trivial
  | make type value next ih =>
    exact fun w hw => ⟨.of_eq hw rfl rfl rfl (Nat.le_succ _) (Nat.le_refl _), ih _ (h _)⟩
  | touch change next ih =>
    exact fun w hw => ⟨.of_eq hw rfl rfl rfl (Nat.le_refl _) (Nat.le_refl _), ih _ (h _)⟩
  | report event next ih =>
    exact fun w hw => ⟨.of_eq hw (by simp) (by simp) (by simp) (by simp) (by simp), ih h⟩
  | meet gate next ih => exact ih h

variable [Hashed V]

/-- Obtaining an admitted binding keeps the rules. -/
theorem Stored.obtain_keeps {stored : Stored V E} {context : Context V}
    (h : stored.Admitted C context making) : (stored.obtain context).Keeps C making := by
  have hcreate {making : List Slot} (hfits : (stored.binding.definition context).Fits C context making) :
      (stored.create context).Keeps C making :=
    (Program.toTask_keeps hfits).bind fun outcome _ => .done trivial
  unfold Stored.Admitted Stored.slot? at h
  unfold Stored.obtain
  dsimp only
  cases hkind : stored.binding.kind with
  | factory =>
    rw [hkind] at h
    exact hcreate h
  | single =>
    rw [hkind] at h
    exact Task.keep_keeps h.1 (hcreate h.2)
  | multi =>
    rw [hkind] at h
    dsimp only
    split
    · exact .done trivial
    · exact (Task.emit_keeps _ _).bind fun _ _ => Task.keep_keeps h.1 (hcreate h.2)

/-- What a search or a synthesis for a key comes to: a stored binding for the key's site. -/
def Stored.Serves (C : Conduct V E) (stored : Stored V E) (key : Key) : Prop :=
  C.stores stored.owner stored.binding ∧ stored.binding.key.site = key.site

namespace Resolution

variable {resolution : Resolution} {key : Key}

omit [Hashed V] in
/-- Visiting the parents finds only what the visits find. -/
theorem searchParents_yields {visit : ComponentId → Task V E (Option (Stored V E))}
    (hvisit : ∀ c, (visit c).Yields C (fun found => ∀ stored, found = some stored → stored.Serves C key) making)
    (parents : List ComponentId) :
    (searchParents resolution visit parents).Yields C
      (fun found => ∀ stored, found = some stored → stored.Serves C key) making := by
  induction parents with
  | nil => exact .done (by simp)
  | cons parent rest ih =>
    apply Task.read_yields.bind
    intro w _
    split
    · apply (hvisit parent).bind
      intro found hfound
      cases found with
      | none => exact ih
      | some stored => exact .done hfound
    · exact (Task.emit_keeps _ _).bind fun _ _ => ih

section Stable

variable (hC : C.Stable)
include hC

omit [Hashed V] in
/-- A search finds only what components store for the key's site. -/
theorem search_yields (c : ComponentId) :
    (search resolution key c).Yields C
      (fun found => ∀ stored, found = some stored → stored.Serves C key) making := by
  unfold search
  generalize c + 1 = generations
  induction generations generalizing c with
  | zero => exact .done (by simp)
  | succ generations ih =>
    apply Task.read_yields.bind
    intro w hw
    cases hserving : w.serving? c key with
    | none => exact searchParents_yields (fun parent => ih parent) _
    | some binding =>
      refine (Task.emit_keeps _ _).bind fun _ _ => .done ?_
      rintro stored ⟨⟩
      rcases World.serving?_eq_some hserving with hfound | hfound <;>
        obtain ⟨component, hcomponent, hmem, hkey⟩ := World.mem_of_binding? hfound <;>
        exact ⟨hC.stored hw hcomponent hmem, congrArg KeyId.site hkey⟩

omit [Hashed V] in
/-- Storing what may be stored yields a binding that may be stored, under the same key. -/
theorem memoize_yields {c : ComponentId} {binding : Binding V E} (h : C.stores c binding) :
    (memoize resolution c binding).Yields C
      (fun stored => stored.owner = c ∧ C.stores c stored.binding ∧
        stored.binding.key.identity = binding.key.identity) making := by
  refine fun w hw => ⟨World.memoize_unnoticed (hC.memoized hw h) h, ?_⟩
  dsimp only
  cases hbefore : w.binding? c binding.key.identity with
  | none => exact (Task.emit_keeps _ _).bind fun _ _ => .done ⟨rfl, h, rfl⟩
  | some stored =>
    obtain ⟨component, hcomponent, hmem, hkey⟩ := World.mem_of_binding? hbefore
    exact (Task.emit_keeps _ _).bind fun _ _ => .done ⟨rfl, hC.stored hw hcomponent hmem, hkey⟩

omit [Hashed V] in
/-- Consulting a catalog yields what the catalog supplies. -/
theorem consult_yields {catalog : Catalog V E} {c : ComponentId} {R : Binding V E → Prop}
    (h : catalog.Supplies C key c R) :
    (consult resolution catalog key c).Yields C
      (fun reply => ∀ binding, reply = .ok (some binding) → R binding) making := by
  unfold consult
  cases hfind : catalog.find? key.type.id with
  | none => exact .done (by simp)
  | some entry =>
    dsimp only
    split
    · exact .done (by simp)
    · next hqualifier =>
      have hsupplies := h entry hfind (not_not.mp hqualifier)
      split
      · next hsingleton =>
        rw [if_pos hsingleton] at hsupplies
        refine (Task.emit_keeps _ _).bind fun _ _ => .done ?_
        rintro binding ⟨⟩
        exact hsupplies
      · next hsingleton =>
        rw [if_neg hsingleton] at hsupplies
        cases hscope : entry.descriptor.scope with
        | none =>
          rw [hscope] at hsupplies
          refine (Task.emit_keeps _ _).bind fun _ _ => .done ?_
          rintro binding ⟨⟩
          exact hsupplies
        | some scope =>
          rw [hscope] at hsupplies
          apply Task.read_yields.bind
          intro w hw
          specialize hsupplies w hw
          split
          · next hhas =>
            rw [if_pos hhas] at hsupplies
            refine (Task.emit_keeps _ _).bind fun _ _ => .done ?_
            rintro binding ⟨⟩
            exact hsupplies
          · next hhas =>
            rw [if_neg hhas] at hsupplies
            cases howner : w.scopeOwner? c scope with
            | none => exact .done (by simp)
            | some owner =>
              obtain ⟨hnew, hforwarding⟩ := hsupplies owner howner
              apply (Task.emit_keeps _ _).bind
              intro _ _
              refine (memoize_yields hC hnew).bind fun stored hstored => .done ?_
              obtain ⟨storedOwner, storedBinding⟩ := stored
              obtain ⟨rfl, hstores, hkey⟩ := hstored
              rintro binding ⟨⟩
              exact hforwarding _ hstores hkey

omit [Hashed V] in
/-- A factory's program yields what may be stored under the key. -/
theorem synthesis_yields {c : ComponentId} {program : Synthesis V E}
    (h : program.Supplies C key c) :
    (synthesis resolution program).Yields C
      (fun reply => ∀ binding, reply = .ok (some binding) → C.stores c (binding.withKey key))
      making := by
  induction program with
  | answer reply => exact .done h
  | consult catalog asked component next ih =>
    obtain ⟨R, hcatalog, hnext⟩ := h
    exact (consult_yields hC hcatalog).bind fun reply hreply => ih reply (hnext reply hreply)
  | touch change next ih =>
    exact fun w hw => ⟨.of_eq hw rfl rfl rfl (Nat.le_refl _) (Nat.le_refl _), ih _ (h _)⟩

omit [Hashed V] in
/-- What is synthesized in a component is stored there, for the key's site. -/
theorem synthesize_yields {c : ComponentId} (hsupplied : C.SuppliedAt c key) :
    (synthesize resolution key c).Yields C
      (fun reply => ∀ stored, reply = .ok (some stored) → stored.owner = c ∧ stored.Serves C key)
      making := by
  apply Task.read_yields.bind
  intro w hw
  have hfactories : ∀ factory ∈ (w.config c).factories.reverse,
      (factory key.required c).Supplies C key.required c := by
    intro factory hmem
    rw [List.mem_reverse] at hmem
    unfold World.config at hmem
    cases hcomponent : w.component? c with
    | none => simp [hcomponent, ComponentConfig.default] at hmem
    | some component =>
      rw [hcomponent] at hmem
      exact hsupplied hw hcomponent hmem
  generalize (w.config c).factories.reverse = factories at hfactories
  induction factories with
  | nil => exact .done (by simp)
  | cons factory rest ih =>
    apply (synthesis_yields hC (hfactories factory List.mem_cons_self)).bind
    intro reply hreply
    match reply, hreply with
    | .error e, _ => exact .done (by simp)
    | .ok none, _ => exact ih fun other hother => hfactories other (List.mem_cons_of_mem _ hother)
    | .ok (some binding), hreply =>
      apply (Task.emit_keeps _ _).bind
      intro _ _
      refine (memoize_yields hC (hreply binding rfl)).bind fun stored hstored => .done ?_
      rintro found ⟨⟩
      obtain ⟨rfl, hstores, hkey⟩ := hstored
      exact ⟨rfl, hstores, congrArg KeyId.site hkey⟩

end Stable

/-- What a key is located at is stored for the key's site. -/
theorem locate_yields (hC : C.Lawful) (c : ComponentId) :
    (locate resolution key c).Yields C
      (fun reply => ∀ stored, reply = .ok (some stored) → stored.Serves C key) making := by
  apply (search_yields hC.toStable c).bind
  intro found hfound
  cases found with
  | none =>
    exact (synthesize_yields hC.toStable hC.supplied).mono fun reply hreply stored hstored => (hreply stored hstored).2
  | some stored =>
    refine .done ?_
    rintro other ⟨⟩
    exact hfound stored rfl

end Resolution

/-- Whatever an allowed call does keeps the rules. -/
theorem Call.body_keeps (hC : C.Lawful) {request : Call V} (h : C.calls making request) :
    (request.body : Task V E (Reply V)).Keeps C making := by
  cases request with
  | resolve c path resolution key parameters =>
    apply (Task.emit_keeps _ _).bind
    intro _ _
    split
    · exact Task.fail_yields _ _ trivial
    · apply (Resolution.locate_yields hC c).bind
      intro reply hreply
      match reply, hreply with
      | .error e, _ => exact Task.fail_yields _ _ trivial
      | .ok none, _ =>
        dsimp only
        split
        · exact (Task.emit_keeps _ _).bind fun _ _ => .done trivial
        · exact Task.fail_yields _ _ trivial
      | .ok (some stored), hreply =>
        obtain ⟨hstores, hsite⟩ := hreply stored rfl
        apply (Stored.obtain_keeps (hC.admitted hstores h hsite rfl)).bind
        intro result _
        cases result with
        | ok object => exact .done trivial
        | error e => exact Task.fail_yields _ _ trivial
  | obtain owner key context =>
    apply Task.read_yields.bind
    intro w hw
    cases hfound : w.binding? owner key.identity with
    | none => exact .done trivial
    | some binding =>
      obtain ⟨component, hcomponent, hmem, hkey⟩ := World.mem_of_binding? hfound
      have hstores := hC.stored hw hcomponent hmem
      have hsite : binding.key.site = key.site := congrArg KeyId.site hkey
      apply (Stored.obtain_keeps (hC.admitted hstores h hsite rfl)).bind
      intro result _
      cases result <;> exact .done trivial

end Walk

/-! ### Tasks without restrictions -/

/-- The conduct that restricts neither what may be asked for nor what may be called. -/
def Conduct.free (holds : List (Component V E) → Prop) (stores : ComponentId → Binding V E → Prop) :
    Conduct V E :=
  ⟨holds, stores, fun _ _ _ => True, fun _ _ => True⟩

/-- The conduct that restricts nothing. -/
abbrev Conduct.lax : Conduct V E := .free (fun _ => True) fun _ _ => True

section Free

variable {holds : List (Component V E) → Prop} {stores : ComponentId → Binding V E → Prop}

/-- Where every call is allowed, any program may be run. -/
theorem Program.fits_free (context : Context V) (program : Program V E) (making : List Slot) :
    program.Fits (.free holds stores) context making := by
  induction program generalizing making with
  | done outcome => trivial
  | request key parameters next ih => exact ⟨trivial, fun reply => ih reply _⟩
  | start component key parameters next ih => exact ⟨fun _ _ => trivial, fun reply => ih reply _⟩
  | forward owner key next ih => exact ⟨trivial, fun reply => ih reply _⟩
  | share entry body next ihbody ih => exact ⟨trivial, ihbody _, fun reply => ih reply _⟩
  | make type value next ih => exact fun object => ih object _
  | touch change next ih => exact fun before => ih before _
  | report event next ih => exact ih _
  | meet gate next ih => exact ih _

/-- Where every call is allowed, the value of any binding may be obtained. -/
theorem Stored.admitted_free [Hashed V] (stored : Stored V E) (context : Context V)
    (making : List Slot) : stored.Admitted (.free holds stores) context making := by
  unfold Stored.Admitted
  split
  · exact Program.fits_free _ _ _
  · exact ⟨trivial, Program.fits_free _ _ _⟩

/-- Where only components matter, it is enough that storing what may be stored does not. -/
theorem Conduct.lawful_free [Hashed V]
    (hstored : ∀ {components : List (Component V E)} {c : ComponentId} {component binding},
      holds components → components[c]? = some component → binding ∈ component.bindings →
        stores c binding)
    (hmemoized : ∀ {w : World V E} {c : ComponentId} {binding}, holds w.components →
      stores c binding → holds (w.memoize c binding).components)
    (hsupplied : ∀ {components : List (Component V E)} {c : ComponentId} {component factory}
      {key : Key}, holds components → components[c]? = some component →
        factory ∈ component.config.factories →
          (factory key.required c).Supplies (.free holds stores) key.required c) :
    (Conduct.free holds stores).Lawful where
  stored := hstored
  memoized := hmemoized
  supplied := hsupplied
  admitted _ _ _ _ := Stored.admitted_free _ _ _

/-- Entering a resolution keeps the rules, whatever it is of. -/
theorem Task.enter_keeps (component : ComponentId) (logger : Option String) (key : Key)
    (parameters : Parameters V) (making : List Slot) :
    (Task.enter component logger key parameters : Task V E (Reply V)).Keeps (.free holds stores)
      making :=
  fun _ hw => ⟨.of_eq hw rfl rfl rfl (Nat.le_refl _) (Nat.le_succ _), trivial, fun _ => ⟨rfl, trivial⟩⟩

end Free

/-- A catalog supplies anything, if what it stores for scopes may be stored anywhere. -/
theorem Catalog.supplies_of_stores {C : Conduct V E} {catalog : Catalog V E} {key : Key} {c : ComponentId}
    {R : Binding V E → Prop} (hR : ∀ binding : Binding V E, binding.key.identity = key.identity → R binding)
    (hstores : ∀ (entry : CatalogEntry V E) (owner : ComponentId),
      C.stores owner (.new key .single (entry.definition key))) :
    catalog.Supplies C key c R := by
  intro entry _ _
  split
  · exact hR _ rfl
  · split
    · exact hR _ rfl
    · intro w _
      split
      · exact hR _ rfl
      · exact fun owner _ => ⟨hstores entry owner, fun binding _ hkey => hR _ hkey⟩

/-- Factories may make anything where anything may be stored. -/
theorem Synthesis.supplies_of_stores {C : Conduct V E} (hstores : ∀ c binding, C.stores c binding) (key : Key)
    (c : ComponentId) (program : Synthesis V E) : program.Supplies C key c := by
  induction program with
  | answer reply => exact fun _ _ => hstores _ _
  | consult catalog asked component next ih =>
    exact ⟨fun _ => True, Catalog.supplies_of_stores (fun _ _ => trivial) fun _ _ => hstores _ _, fun reply _ => ih reply⟩
  | touch change next ih => exact ih

/-- Where anything may be stored, factories may make anything. -/
theorem Synthesis.supplies_lax {holds : List (Component V E) → Prop} (key : Key) (c : ComponentId)
    (program : Synthesis V E) : program.Supplies (.free holds fun _ _ => True) key c :=
  supplies_of_stores (fun _ _ => trivial) key c program

/-- Where nothing is forbidden, calls lead to nothing forbidden. -/
theorem Conduct.lawful_lax [Hashed V] : (Conduct.lax : Conduct V E).Lawful :=
  Conduct.lawful_free (fun _ _ _ => trivial) (fun _ _ => trivial) fun _ _ _ => Synthesis.supplies_lax _ _ _

end Injection
