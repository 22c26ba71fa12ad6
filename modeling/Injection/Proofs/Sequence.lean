import Injection.Proofs.Conduct
import Injection.Sequential
import Mathlib.Logic.Relation

/-!
# Runs one after another

What a conduct says of the components holds after every run of a task that keeps its rules. The
conduct of growth says that components keep what they are built with and at most store further
bindings, so this is all that any sequence of top-level requests can do to a hierarchy.
-/

namespace Injection

variable {V E α β : Type}

/-- A task followed by another runs as the first and then the second. -/
theorem Task.run_bind {answer : Call V → World V E → Run V E (Reply V)} (task : Task V E α)
    (f : α → Task V E β) (w : World V E) :
    (task.bind f).run answer w = (task.run answer w).bind fun (result, w') => (f result).run answer w' := by
  induction task generalizing w with
  | done result => rfl
  | act change next ih => exact ih w (change w)
  | acquire slot resolution next ih =>
    simp only [bind, run]
    split
    · exact ih _ w
    · exact ih _ _
    · split
      · exact ih _ w
      · rfl
  | settle slot cell next ih => exact ih _
  | notify slot next ih => exact ih w
  | call request next ih =>
    simp only [bind, run]
    split
    · exact ih _ _
    · rfl
  | meet gate next ih => exact ih w

/-- The run of a task followed by another, if the first comes to an end. -/
theorem Task.run_bind_of_ok {answer : Call V → World V E → Run V E (Reply V)} {task : Task V E α}
    {f : α → Task V E β} {w w' : World V E} {result : α} (h : task.run answer w = .ok (result, w')) :
    (task.bind f).run answer w = (f result).run answer w' := by
  rw [run_bind, h]
  rfl

/-- Both parts of a run of two tasks. -/
theorem Task.run_bind_eq_ok {answer : Call V → World V E → Run V E (Reply V)} {task : Task V E α}
    {f : α → Task V E β} {w w' : World V E} {result : β}
    (h : (task.bind f).run answer w = .ok (result, w')) :
    ∃ first between, task.run answer w = .ok (first, between) ∧
      (f first).run answer between = .ok (result, w') := by
  rw [run_bind] at h
  cases hfirst : task.run answer w with
  | error halt => simp [hfirst, Except.bind] at h
  | ok pair => exact ⟨pair.1, pair.2, rfl, by rwa [hfirst] at h⟩

section Steps

variable (answer : Call V → World V E → Run V E (Reply V)) (w : World V E)

/-- A task that has ended changes nothing. -/
@[simp]
theorem Task.run_pure (result : α) : (pure result : Task V E α).run answer w = .ok (result, w) := rfl

/-- A run goes on with the world that it looks at. -/
@[simp]
theorem Task.run_read (f : World V E → Task V E α) :
    (Task.read >>= f).run answer w = (f w).run answer w := rfl

/-- A run goes on after a report in a world that differs by it. -/
@[simp]
theorem Task.run_emit (resolution : Resolution) (event : Event) (f : Unit → Task V E α) :
    (Task.emit resolution event >>= f).run answer w =
      (f ()).run answer (w.emit resolution.logger event) := rfl

end Steps

/-! ### What runs preserve -/

/-- Answers to the calls that a conduct allows keep what it says of the components. -/
def Conduct.Guards (C : Conduct V E) (answer : Call V → World V E → Run V E (Reply V)) : Prop :=
  ∀ {making request w reply w'}, C.calls making request → C.holds w.components →
    answer request w = .ok (reply, w') → C.holds w'.components

/-- What a conduct says of the components holds after a run of a task that keeps its rules. -/
theorem Task.Follows.run {C : Conduct V E} {answer : Call V → World V E → Run V E (Reply V)}
    (hanswer : C.Guards answer) {ends : α → List Slot → Prop} {making : List Slot}
    {task : Task V E α} (h : task.Follows C ends making) {w w' : World V E} {result : α}
    (hholds : C.holds w.components) (hrun : task.run answer w = .ok (result, w')) :
    C.holds w'.components := by
  induction task generalizing making w with
  | done other =>
    obtain ⟨-, rfl⟩ := Prod.mk.inj (Except.ok.inj hrun)
    exact hholds
  | act change next ih => exact ih w (h w hholds).2 (h w hholds).1.components hrun
  | acquire slot resolution next ih =>
    unfold Task.run at hrun
    split at hrun
    · exact ih _ (h.2.1 _) hholds hrun
    · exact ih _ h.2.2.2 (w := w.setCell slot (.creating resolution.number)) hholds hrun
    · split at hrun
      · exact ih _ h.2.2.1 hholds hrun
      · simp at hrun
  | settle slot cell next ih =>
    obtain ⟨-, -, rest, -, hnext⟩ := h
    exact ih hnext (w := w.setCell slot cell) hholds hrun
  | notify slot next ih => exact ih h hholds hrun
  | call request next ih =>
    unfold Task.run at hrun
    split at hrun
    · next reply between hreply => exact ih reply (h.2 reply) (hanswer h.1 hholds hreply) hrun
    · simp at hrun
  | meet gate next ih => exact ih h hholds hrun

/-- Calls are answered by running what they do, which keeps the rules again. -/
theorem Conduct.Lawful.guards [Hashed V] {C : Conduct V E} (hC : C.Lawful) (depth : Nat) :
    C.Guards (Call.answer depth) := by
  induction depth with
  | zero =>
    intro making request w reply w' _ _ hanswer
    simp [Call.answer] at hanswer
  | succ depth ih =>
    intro making request w reply w' hcall hholds hanswer
    exact (Call.body_keeps hC hcall).run ih hholds hanswer

/-! ### Growth -/

/-- The same components as before, which at most store further bindings, under keys that insist on
a value. -/
structure World.Grows (w w' : World V E) : Prop where
  scopes : ∀ c, w'.scopes c = w.scopes c
  parents : ∀ c, w'.parents c = w.parents c
  config : ∀ c, w'.config c = w.config c
  alive : ∀ c, w'.isAlive c = w.isAlive c
  bindings : ∀ c, ∃ added, w'.bindings c = w.bindings c ++ added ∧
    ∀ binding ∈ added, binding.key.nullable = false

namespace World

variable {w w' w'' : World V E} {c : ComponentId}

/-- Every world grows into itself. -/
theorem Grows.refl (w : World V E) : w.Grows w :=
  ⟨fun _ => rfl, fun _ => rfl, fun _ => rfl, fun _ => rfl, fun _ => ⟨[], by simp, by simp⟩⟩

/-- Growing goes on from where it has come to. -/
theorem Grows.trans (h : w.Grows w') (h' : w'.Grows w'') : w.Grows w'' where
  scopes c := (h'.scopes c).trans (h.scopes c)
  parents c := (h'.parents c).trans (h.parents c)
  config c := (h'.config c).trans (h.config c)
  alive c := (h'.alive c).trans (h.alive c)
  bindings c := by
    obtain ⟨added, hadded, hkeys⟩ := h.bindings c
    obtain ⟨added', hadded', hkeys'⟩ := h'.bindings c
    refine ⟨added ++ added', by rw [hadded', hadded, List.append_assoc], fun binding hbinding => ?_⟩
    rcases List.mem_append.mp hbinding with hbinding | hbinding
    · exact hkeys binding hbinding
    · exact hkeys' binding hbinding

/-- What else the world consists of does not matter. -/
theorem Grows.of_components (h : w'.components = w.components) : w.Grows w' := by
  refine ⟨fun c => ?_, fun c => ?_, fun c => ?_, fun c => ?_, fun c => ⟨[], ?_, by simp⟩⟩
  · simp [World.scopes, component?, h]
  · simp [World.parents, component?, h]
  · simp [World.config, component?, h]
  · simp [isAlive, component?, h]
  · simp [World.bindings, component?, h]

/-- What is stored under a key depends on the components alone. -/
theorem binding?_of_components (h : w'.components = w.components) (key : KeyId) :
    w'.binding? c key = w.binding? c key := by
  simp [World.binding?, component?, h]

/-- The binding under a key is the first of the component's bindings under that key. -/
theorem binding?_eq_find? (w : World V E) (c : ComponentId) (key : KeyId) :
    w.binding? c key = (w.bindings c).find? fun binding => binding.key.identity = key := by
  unfold binding? World.bindings
  cases w.component? c <;> rfl

/-- A stored binding stays under its key. -/
theorem Grows.binding? (h : w.Grows w') {key : KeyId} {binding : Binding V E}
    (hbinding : w.binding? c key = some binding) : w'.binding? c key = some binding := by
  obtain ⟨added, hadded, -⟩ := h.bindings c
  rw [binding?_eq_find?] at hbinding ⊢
  rw [hadded, List.find?_append, hbinding]
  rfl

/-- Nothing is stored anew under a key that is content with the absence of a value. -/
theorem Grows.binding?_nullable (h : w.Grows w') {key : KeyId} (hkey : key.nullable = true)
    (hbinding : w.binding? c key = none) : w'.binding? c key = none := by
  obtain ⟨added, hadded, hkeys⟩ := h.bindings c
  rw [binding?_eq_find?] at hbinding ⊢
  rw [hadded, List.find?_append, hbinding, Option.none_or, List.find?_eq_none]
  intro binding hmem hidentity
  have hnullable := congrArg KeyId.nullable (of_decide_eq_true hidentity)
  rw [hkey] at hnullable
  simp [Key.identity, hkeys binding hmem] at hnullable

/-- The binding that serves a key is under exactly that key, or else under its required form. -/
theorem serving?_eq (w : World V E) (c : ComponentId) (key : Key) :
    w.serving? c key =
      if key.nullable then w.binding? c key.identity <|> w.binding? c key.required.identity
      else w.binding? c key.identity := by
  unfold serving? World.binding? Component.serving?
  cases w.component? c with
  | none => split <;> rfl
  | some component => rfl

/-- What serves a key goes on serving it. -/
theorem Grows.serving? (h : w.Grows w') {key : Key} {binding : Binding V E}
    (hserving : w.serving? c key = some binding) : w'.serving? c key = some binding := by
  rw [serving?_eq] at hserving ⊢
  split at hserving
  · next hnullable =>
    rw [if_pos hnullable]
    cases hexact : w.binding? c key.identity with
    | some found =>
      rw [hexact] at hserving
      rw [h.binding? hexact]
      exact hserving
    | none =>
      rw [hexact] at hserving
      rw [h.binding?_nullable hnullable hexact]
      exact h.binding? hserving
  · next hnullable =>
    rw [if_neg hnullable]
    exact h.binding? hserving

/-- The hierarchy stays as it is. -/
theorem Grows.livingParents (h : w.Grows w') (c : ComponentId) : w'.livingParents c = w.livingParents c := by
  simp [World.livingParents, h.parents, funext h.alive]

/-- A component that grows declares the scopes that it declared. -/
theorem Grows.hasScope (h : w.Grows w') (c : ComponentId) (tag : ScopeTag) :
    w'.hasScope c tag = w.hasScope c tag := by
  simp [World.hasScope, h.scopes]

/-- The owner of a scope stays the same. -/
theorem Grows.scopeOwner? (h : w.Grows w') (c : ComponentId) (tag : ScopeTag) :
    w'.scopeOwner? c tag = w.scopeOwner? c tag := by
  have howner (generations : Nat) (c : ComponentId) :
      w'.scopeOwnerWithin? tag generations c = w.scopeOwnerWithin? tag generations c := by
    induction generations generalizing c with
    | zero => rfl
    | succ generations ih => simp only [scopeOwnerWithin?, h.hasScope, h.livingParents, funext ih]
  exact howner (c + 1) c

/-- The owner of a scope declares it. -/
theorem hasScope_of_scopeOwner? {owner : ComponentId} {tag : ScopeTag}
    (h : w.scopeOwner? c tag = some owner) : w.hasScope owner tag = true := by
  unfold World.scopeOwner? at h
  generalize c + 1 = generations at h
  induction generations generalizing c with
  | zero => simp [scopeOwnerWithin?] at h
  | succ generations ih =>
    unfold scopeOwnerWithin? at h
    split at h
    · next hscope => exact Option.some.inj h ▸ hscope
    · obtain ⟨parent, -, hparent⟩ := List.exists_of_findSome?_eq_some h
      exact ih hparent

/-- Storing a binding that is there already changes nothing. -/
theorem memoize_of_mem {binding : Binding V E} (h : binding ∈ w.bindings c) : w.memoize c binding = w := by
  cases hfound : w.binding? c binding.key.identity with
  | some stored => simp [memoize, hfound]
  | none =>
    rw [binding?_eq_find?, List.find?_eq_none] at hfound
    simpa using hfound binding h

/-- A component after it was modified. -/
theorem component?_modifyComponent (w : World V E) (c d : ComponentId)
    (f : Component V E → Component V E) :
    (w.modifyComponent c f).component? d = (w.component? d).map fun component =>
      if c = d then f component else component := by
  simp only [component?, modifyComponent, List.getElem?_modify]
  rfl

/-- A world that stores a binding, under a key that insists on a value, grows. -/
theorem grows_memoize {binding : Binding V E} (h : binding.key.nullable = false) :
    w.Grows (w.memoize c binding) := by
  unfold memoize
  split
  · exact .refl w
  · refine ⟨fun d => ?_, fun d => ?_, fun d => ?_, fun d => ?_, fun d => ?_⟩
    · simp only [World.scopes, component?_modifyComponent]
      cases w.component? d <;> simp [apply_ite]
    · simp only [World.parents, component?_modifyComponent]
      cases w.component? d <;> simp [apply_ite]
    · simp only [World.config, component?_modifyComponent]
      cases w.component? d <;> simp [apply_ite]
    · simp only [isAlive, component?_modifyComponent]
      cases w.component? d <;> simp [apply_ite]
    · simp only [World.bindings, component?_modifyComponent]
      cases w.component? d with
      | none => exact ⟨[], by simp, by simp⟩
      | some component =>
        by_cases hd : c = d
        · exact ⟨[binding], by simp [hd], by simpa using h⟩
        · exact ⟨[], by simp [hd], by simp⟩

/-- A binding that was stored under a free key is the one under that key. -/
theorem binding?_memoize {binding : Binding V E} {component : Component V E}
    (hc : w.component? c = some component) (h : w.binding? c binding.key.identity = none) :
    (w.memoize c binding).binding? c binding.key.identity = some binding := by
  have hnone : component.binding? binding.key.identity = none := by simpa [World.binding?, hc] using h
  unfold Component.binding? at hnone
  simp [memoize, World.binding?, Component.binding?, component?_modifyComponent, hc, List.find?_append, hnone]

/-- Storing a binding in another component changes nothing here. -/
theorem binding?_memoize_of_ne {d : ComponentId} (hd : d ≠ c) (binding : Binding V E) (key : KeyId) :
    (w.memoize d binding).binding? c key = w.binding? c key := by
  unfold memoize
  split
  · rfl
  · unfold World.binding?
    rw [component?_modifyComponent]
    simp [hd]

/-- What serves a key is looked for under its required form in any case. -/
theorem binding?_required {key : Key} (h : w.serving? c key = none) :
    w.binding? c key.required.identity = none := by
  rw [serving?_eq] at h
  split at h
  · cases hexact : w.binding? c key.identity with
    | none => simpa [hexact] using h
    | some other => simp [hexact] at h
  · next hnullable =>
    have hkey : key.required = key := by cases key; simp_all [Key.required]
    rwa [hkey]

/-- What is stored for the required form of a key serves the key, if nothing did before. -/
theorem Grows.serving?_of_required (h : w.Grows w') {key : Key} {binding : Binding V E}
    (hserving : w.serving? c key = none) (hbinding : w'.binding? c key.required.identity = some binding) :
    w'.serving? c key = some binding := by
  rw [serving?_eq] at hserving ⊢
  split at hserving
  · next hnullable =>
    have hexact : w.binding? c key.identity = none := by
      cases hbefore : w.binding? c key.identity with
      | none => rfl
      | some other => simp [hbefore] at hserving
    rw [if_pos hnullable, h.binding?_nullable hnullable hexact, hbinding]
    rfl
  · next hnullable =>
    have hkey : key.required = key := by cases key; simp_all [Key.required]
    rw [if_neg hnullable, ← hkey, hbinding]

/-- Only what is a component has factories. -/
theorem exists_component_of_factory {factory : Factory V E} (h : factory ∈ (w.config c).factories) :
    ∃ component, w.component? c = some component := by
  unfold World.config at h
  cases hc : w.component? c with
  | none => simp [hc, ComponentConfig.default] at h
  | some component => exact ⟨component, rfl⟩

/-- Only what is a component declares scopes. -/
theorem exists_component_of_scope {tag : ScopeTag} (h : w.hasScope c tag = true) :
    ∃ component, w.component? c = some component := by
  unfold hasScope scopes at h
  cases hc : w.component? c with
  | none => simp [hc] at h
  | some component => exact ⟨component, rfl⟩

/-- All factories that components fall back on are catalogs. -/
def FromCatalogs (w : World V E) : Prop :=
  ∀ c, ∀ factory ∈ (w.config c).factories, ∃ catalog : Catalog V E, factory = catalog.factory

/-- The factories of a world that has grown are the same catalogs. -/
theorem FromCatalogs.grows (h : w.FromCatalogs) (hgrows : w.Grows w') : w'.FromCatalogs := by
  intro c factory hfactory
  rw [hgrows.config] at hfactory
  exact h c factory hfactory

end World

/-- Components grow, from what they are in a world. -/
def Conduct.growing (base : World V E) : Conduct V E :=
  .free (fun components => base.Grows { base with components }) fun c binding =>
    binding.key.nullable = false ∨ binding ∈ base.bindings c

/-- Nothing but growth comes of calls, if components fall back only on catalogs. -/
theorem Conduct.lawful_growing [Hashed V] {base : World V E} (h : base.FromCatalogs) :
    (Conduct.growing base).Lawful := by
  apply Conduct.lawful_free
  · intro components c component binding hholds hcomponent hbinding
    obtain ⟨added, hadded, hkeys⟩ := hholds.bindings c
    have hbindings : World.bindings { base with components } c = component.bindings := by
      simp [World.bindings, World.component?, hcomponent]
    rw [← hbindings, hadded] at hbinding
    exact (List.mem_append.mp hbinding).symm.imp_left (hkeys binding)
  · intro w c binding hholds hstores
    have hw : base.Grows w := hholds.trans (.of_components rfl)
    rcases hstores with hkey | hmem
    · exact (hw.trans (World.grows_memoize hkey)).trans (.of_components rfl)
    · obtain ⟨added, hadded, -⟩ := hw.bindings c
      have hmem' : binding ∈ w.bindings c := hadded ▸ List.mem_append_left _ hmem
      rw [World.memoize_of_mem hmem']
      exact hholds
  · intro components c component factory key hholds hcomponent hfactory
    have hconfig : World.config { base with components } c = component.config := by
      simp [World.config, World.component?, hcomponent]
    rw [← hconfig, hholds.config] at hfactory
    obtain ⟨catalog, rfl⟩ := h c factory hfactory
    exact ⟨fun _ => True, Catalog.supplies_of_stores (fun _ _ => trivial) fun _ _ => Or.inl rfl,
      fun reply _ binding _ => Or.inl rfl⟩

/-- Whatever keeps the rules of growth makes a world grow. -/
theorem Task.Yields.grows [Hashed V] {w w' : World V E} (h : w.FromCatalogs) {task : Task V E α}
    {P : α → Prop} (htask : task.Yields (.growing w) P []) {depth : Nat} {result : α}
    (hrun : w.run depth task = .ok (result, w')) : w.Grows w' := by
  have hholds : (Conduct.growing w).holds w.components := World.Grows.refl w
  have hafter := Task.Follows.run ((Conduct.lawful_growing h).guards depth) htask hholds hrun
  exact World.Grows.trans hafter (.of_components rfl)

/-- One top-level request is made and answered. -/
def World.Answers [Hashed V] (w w' : World V E) : Prop :=
  ∃ (depth : Nat) (c : ComponentId) (q : Query V) (reply : Reply V),
    w.run depth (q.task c) = .ok (reply, w')

/-- Any number of top-level requests are made and answered one after the other. -/
def World.History [Hashed V] : World V E → World V E → Prop := Relation.ReflTransGen World.Answers

/-- Top-level requests make a world grow, and do nothing else to its components. -/
theorem World.History.grows [Hashed V] {w w' : World V E} (h : w.FromCatalogs) (hhistory : w.History w') :
    w.Grows w' := by
  induction hhistory with
  | refl => exact .refl w
  | @tail between after _ hanswers ih =>
    obtain ⟨depth, c, q, reply, hrun⟩ := hanswers
    have htask : (q.task c).Keeps (.growing between) [] :=
      (Task.enter_keeps c none q.key q.parameters []).bind fun _ _ => .done trivial
    exact ih.trans (Task.Yields.grows (h.grows ih) htask hrun)

end Injection
