import Injection.Proofs.Exclusion
import Injection.Proofs.Hierarchy
import Injection.Proofs.Selection

/-!
# What is stored once is stored for good

A synthesized binding is stored in a step of its own, some time after nothing was found, so several
threads may come to store bindings under one key. The first one stays: a component's bindings only
grow, and whoever stores a binding goes on with the one that is under the key from then on. Thus all
who ever use a component's binding for a key use the same one, whether they found it, stored it,
came too late to store their own, or are passed on to it from another component.
-/

namespace Injection

variable {V E α β : Type}

namespace Machine

variable {m m' : Machine V E α} {i : Nat} {thread : Thread V E α} [Hashed V]

/-! ### Threads that keep rules -/

/-- What is true at all times of threads that keep the rules and settle what they are given. -/
structure Abides (C : Conduct V E) (m : Machine V E α) : Prop where
  orderly : m.Orderly
  holds : C.holds m.world.components
  follows : ∀ {i : Nat} {thread : Thread V E α}, m.threads[i]? = some thread →
    thread.task.Follows C (fun _ left => left = []) thread.making

namespace Abides

variable {C : Conduct V E}

/-- Threads that keep the rules keep them whatever move is made. -/
theorem effect (hC : C.Lawful) (h : m.Abides C) (hthread : m.threads[i]? = some thread)
    (heffect : m.Effect i thread m') : m'.Abides C := by
  obtain ⟨thread', hthread', hholds, -, hfollows, -, -⟩ :=
    heffect.mover hC hthread h.holds (fun _ => h.orderly.asking hthread) (h.follows hthread)
  refine ⟨h.orderly.effect hthread heffect, hholds, fun {j other} hother => ?_⟩
  by_cases hij : i = j
  · subst hij
    exact Option.some.inj (hthread'.symm.trans hother) ▸ hfollows
  · obtain ⟨before, hbefore, rfl | ⟨announced, -, rfl⟩⟩ := heffect.other_before hij hother
    · exact h.follows hbefore
    · rw [roused_task, roused_making]
      exact h.follows hbefore

/-- A move stores at most one binding, and only one that may be stored. -/
theorem components (h : m.Abides C) (hthread : m.threads[i]? = some thread) (heffect : m.Effect i thread m') :
    m'.world.components = m.world.components ∨
      ∃ c binding, C.stores c binding ∧ m'.world.components = (m.world.memoize c binding).components := by
  cases heffect with
  | act htask =>
    have hfollows := h.follows hthread
    rw [htask] at hfollows
    exact (hfollows _ h.holds).1.stored
  | enlisted htask hphase hstart => exact Or.inl (by simp [update])
  | _ => exact Or.inl rfl

end Abides

/-! ### Machines that grow -/

/-- The machine's components have grown from what they were in a world, by the rules of growth. -/
abbrev GrowsFrom (base : World V E) (m : Machine V E α) : Prop := m.Abides (.growing base)

omit [Hashed V] in
/-- Requests at the components of a world make them grow. -/
theorem growsFrom_racing (w : World V E) (opened : List String)
    (requests : List (ComponentId × Query V)) : (racing w opened requests).GrowsFrom w := by
  refine ⟨orderly_racing w opened requests, World.Grows.refl w, fun {i thread} hthread => ?_⟩
  simp only [racing, start, List.map_map, List.getElem?_map, Option.map_eq_some_iff] at hthread
  obtain ⟨⟨c, q⟩, -, rfl⟩ := hthread
  apply Task.Follows.bind (Task.enter_keeps c none q.key q.parameters [])
  intro reply left hleft
  exact hleft.1

namespace GrowsFrom

variable {base : World V E}

/-- A move makes the components grow further, and leaves their keys distinct. -/
theorem grows_effect (h : m.GrowsFrom base) (hthread : m.threads[i]? = some thread)
    (heffect : m.Effect i thread m') :
    m.world.Grows m'.world ∧ (m.world.Keyed → m'.world.Keyed) := by
  rcases h.components hthread heffect with hsame | ⟨c, binding, hstores, hstored⟩
  · exact ⟨.of_components hsame, fun hkeyed => hkeyed.of_components hsame⟩
  · refine ⟨World.Grows.trans ?_ (.of_components hstored), fun hkeyed => ?_⟩
    · rcases hstores with hkey | hmem
      · exact World.grows_memoize hkey
      · -- What the component was built with is there already.
        obtain ⟨added, hadded, -⟩ := h.holds.bindings c
        have hmem' : binding ∈ m.world.bindings c := by
          have hbindings : m.world.bindings c = base.bindings c ++ added := hadded
          exact hbindings ▸ List.mem_append_left _ hmem
        rw [World.memoize_of_mem hmem']
        exact .refl m.world
    · exact (hkeyed.memoize c binding).of_components hstored

/-- A run makes the components grow further, and leaves their keys distinct. -/
theorem reaches (hbase : base.FromCatalogs) (h : m.GrowsFrom base) (hreach : m.Reaches m') :
    m'.GrowsFrom base ∧ m.world.Grows m'.world ∧ (m.world.Keyed → m'.world.Keyed) := by
  induction hreach with
  | refl => exact ⟨h, .refl m.world, id⟩
  | tail _ hmove ih =>
    obtain ⟨hbetween, hgrows, hkeyed⟩ := ih
    obtain ⟨j, hmove⟩ := hmove
    obtain ⟨mover, hmover, heffect⟩ := hmove.effect
    obtain ⟨hgrows', hkeyed'⟩ := grows_effect hbetween hmover heffect
    exact ⟨hbetween.effect (Conduct.lawful_growing hbase) hmover heffect, hgrows.trans hgrows', hkeyed' ∘ hkeyed⟩

end GrowsFrom

/-! ### What threads come to -/

/-- A change of the world is made in one step of the thread. -/
theorem Returns.of_act {change : World V E → World V E} {next : World V E → Task V E β} {result : β}
    (h : m.Returns i (.act change next) result m') :
    ∃ before after, m.Reaches before ∧ before.Reaches after ∧ after.world = change before.world ∧
      after.Returns i (next before.world) result m' := by
  obtain ⟨before, after, part, hbefore, ⟨thread, hthread, rest, htask⟩, hstep, hpart, -, hafter⟩ :=
    h.first (by simp) (by simp)
  obtain rfl := Option.some.inj hpart
  refine ⟨before, after, hbefore, .single ⟨i, .step hstep⟩, ?_, hafter⟩
  simp only [step, hthread, htask, Task.bind, Option.some.injEq] at hstep
  exact hstep ▸ rfl

/-- The world is looked at in one step of the thread. -/
theorem Returns.of_read {f : World V E → Task V E β} {result : β}
    (h : m.Returns i (Task.read.bind f) result m') :
    ∃ between, m.Reaches between ∧ between.Returns i (f between.world) result m' := by
  obtain ⟨before, after, hbefore, hafter, hworld, hrest⟩ := h.of_act
  exact ⟨after, hbefore.trans hafter, hworld ▸ hrest⟩

/-- A call comes to what its body comes to. -/
theorem Returns.of_call {request : Call V} {next : Reply V → Task V E β} {result : β}
    (h : m.Returns i (.call request next) result m') :
    ∃ reply before after, m.Reaches before ∧ before.Returns i request.body reply after ∧
      after.Returns i (next reply) result m' := by
  obtain ⟨before, called, part, hbefore, -, hstep, hpart, -, hrest⟩ := h.first (by simp) (by simp)
  obtain rfl := Option.some.inj hpart
  obtain ⟨reply, after, hbody, hnext⟩ := hrest.bind
  exact ⟨reply, called, after, hbefore.tail ⟨i, .step hstep⟩, hbody, hnext⟩

/-- The definition of a binding that forwards asks the owner for what it stores, or finds that it is gone. -/
theorem Returns.of_forwarding {stored : Stored V E} {context : Context V} {outcome : Outcome V}
    (h : m.Returns i ((stored.forwarding.definition context).toTask context) outcome m') :
    (∃ reply m₁ m₂, m.Reaches m₁ ∧
      m₁.Returns i (Call.obtain stored.owner stored.binding.key { context with component := stored.owner }).body
        reply m₂ ∧ m₂.Reaches m' ∧
      outcome = (Dependency.present stored.binding.key reply).mapError .dependency) ∨
    ∃ m₁, m.Reaches m₁ ∧ m₁.world.isAlive stored.owner = false ∧ m₁.Reaches m' ∧
      outcome = .error (.dependency (.unresolved stored.binding.key)) := by
  obtain ⟨m₁, m₂, hm₁, hm₂, -, hrest⟩ := h.of_act
  split at hrest
  · obtain ⟨reply, before, after, hbefore, hbody, hnext⟩ := hrest.of_call
    refine .inl ⟨reply, before, after, hm₁.trans (hm₂.trans hbefore), hbody, hnext.reaches, ?_⟩
    cases hreply : Dependency.present stored.binding.key reply with
    | error e => exact Returns.of_done (hreply ▸ hnext)
    | ok object => exact Returns.of_done (hreply ▸ hnext)
  · next halive =>
    exact .inr ⟨m₁, hm₁, by simpa using halive, hm₂.trans hrest.reaches, hrest.of_done⟩

namespace GrowsFrom

variable {base : World V E} {resolution : Resolution} {key : Key} {c : ComponentId}
  {stored : Stored V E} (hbase : base.FromCatalogs) (h : m.GrowsFrom base)
include hbase h

/-- Whoever stores a binding goes on with the one that is under its key. -/
theorem memoize_returns {binding : Binding V E}
    (hc : ∀ w, m.world.Grows w → ∃ component, w.component? c = some component)
    (hreturns : m.Returns i (Resolution.memoize resolution c binding) stored m') :
    stored.owner = c ∧ m'.world.binding? c binding.key.identity = some stored.binding := by
  obtain ⟨before, after, hbefore, hafter, hworld, hrest⟩ := hreturns.of_act
  obtain ⟨-, hgrows, -⟩ := h.reaches hbase hbefore
  obtain ⟨hgrowsFrom, -, -⟩ := h.reaches hbase (hbefore.trans hafter)
  have hlater : after.world.Grows m'.world := (hgrowsFrom.reaches hbase hrest.reaches).2.1
  cases hfound : before.world.binding? c binding.key.identity with
  | some found =>
    rw [hfound] at hrest
    obtain ⟨between, -, hend⟩ := hrest.of_emit
    obtain rfl := hend.of_done
    refine ⟨rfl, hlater.binding? ?_⟩
    rw [hworld, World.memoize, hfound]
    exact hfound
  | none =>
    rw [hfound] at hrest
    obtain ⟨between, -, hend⟩ := hrest.of_emit
    obtain rfl := hend.of_done
    obtain ⟨component, hcomponent⟩ := hc before.world hgrows
    refine ⟨rfl, hlater.binding? ?_⟩
    rw [hworld]
    exact World.binding?_memoize hcomponent hfound

/-- Whoever asks factories goes on with what the component stores under the key. -/
theorem askFactories_returns {factories : List (Factory V E)}
    (hfactories : ∀ factory ∈ factories, factory ∈ (m.world.config c).factories)
    (hreturns : m.Returns i (Resolution.askFactories resolution key c factories) (.ok (some stored)) m') :
    stored.owner = c ∧ m'.world.binding? c key.identity = some stored.binding := by
  induction factories generalizing m with
  | nil => simpa using hreturns.of_done
  | cons factory rest ih =>
    obtain ⟨reply, between, hsynthesis, hrest⟩ := hreturns.bind
    obtain ⟨hbetween, hgrows, -⟩ := h.reaches hbase hsynthesis.reaches
    have hconfig : (between.world.config c).factories = (m.world.config c).factories := by rw [hgrows.config]
    match reply, hrest with
    | .error e, hrest => simpa using hrest.of_done
    | .ok none, hrest =>
      refine ih hbetween (fun other hother => ?_) hrest
      exact hconfig ▸ hfactories other (List.mem_cons_of_mem _ hother)
    | .ok (some binding), hrest =>
      obtain ⟨reported, hreported, hmemoize⟩ := hrest.of_emit
      obtain ⟨winner, last, hwinner, hend⟩ := hmemoize.bind
      obtain rfl : stored = winner := by simpa using hend.of_done
      obtain ⟨hreported', hgrows', -⟩ := hbetween.reaches hbase hreported
      have hc (w : World V E) (hw : reported.world.Grows w) : ∃ component, w.component? c = some component := by
        have hfactory := hfactories factory List.mem_cons_self
        rw [← hconfig, ← hgrows'.config, ← hw.config] at hfactory
        exact World.exists_component_of_factory hfactory
      obtain ⟨howner, hbinding⟩ := hreported'.memoize_returns hbase hc hwinner
      obtain ⟨hlast, -, -⟩ := hreported'.reaches hbase hwinner.reaches
      exact ⟨howner, (hlast.reaches hbase hend.reaches).2.1.binding? hbinding⟩

/-- Whoever synthesizes a key in a component goes on with what the component stores under the key. -/
theorem synthesize_returns
    (hreturns : m.Returns i (Resolution.synthesize resolution key c) (.ok (some stored)) m') :
    stored.owner = c ∧ m'.world.binding? c key.required.identity = some stored.binding := by
  obtain ⟨between, hbetween, hask⟩ := hreturns.of_read
  obtain ⟨hgrowsFrom, -, -⟩ := h.reaches hbase hbetween
  exact hgrowsFrom.askFactories_returns hbase (fun factory hfactory => List.mem_reverse.mp hfactory) hask

/-- Whoever is passed on to the owner of a scope is passed on to what the owner stores under the key. -/
theorem consult_returns {catalog : Catalog V E} {entry : CatalogEntry V E} {scope : ScopeTag} {owner : ComponentId}
    {binding : Binding V E} (hfind : catalog.find? key.type.id = some entry)
    (hsingleton : entry.descriptor.isSingleton = false) (hscope : entry.descriptor.scope = some scope)
    (hhas : m.world.hasScope c scope = false) (howner : m.world.scopeOwner? c scope = some owner)
    (hreturns : m.Returns i (Resolution.consult resolution catalog key c) (.ok (some binding)) m') :
    ∃ stored : Stored V E, binding = stored.forwarding ∧ stored.owner = owner ∧
      m'.world.binding? owner key.identity = some stored.binding := by
  unfold Resolution.consult at hreturns
  simp only [hfind, hsingleton, hscope] at hreturns
  split at hreturns
  · simpa using hreturns.of_done
  · obtain ⟨between, hbetween, hreturns⟩ := hreturns.of_read
    obtain ⟨hgrowsFrom, hgrows, -⟩ := h.reaches hbase hbetween
    rw [hgrows.hasScope, hgrows.scopeOwner?, hhas, howner] at hreturns
    obtain ⟨reported, hreported, hmemoize⟩ := Returns.of_emit hreturns
    obtain ⟨hgrowsFrom', hgrows', -⟩ := hgrowsFrom.reaches hbase hreported
    obtain ⟨stored, last, hstored, hend⟩ := hmemoize.bind
    obtain rfl : binding = stored.forwarding := by simpa using hend.of_done
    have hc (w : World V E) (hw : reported.world.Grows w) : ∃ component, w.component? owner = some component := by
      have hhas' : w.hasScope owner scope = true := by
        rw [hw.hasScope, hgrows'.hasScope, hgrows.hasScope]
        exact World.hasScope_of_scopeOwner? howner
      exact World.exists_component_of_scope hhas'
    obtain ⟨rfl, hbinding⟩ := hgrowsFrom'.memoize_returns hbase hc hstored
    obtain ⟨hlast, -, -⟩ := hgrowsFrom'.reaches hbase hstored.reaches
    exact ⟨stored, rfl, rfl, (hlast.reaches hbase hend.reaches).2.1.binding? hbinding⟩

/-- Whoever visits parents comes to what the visits come to, which is stored for good. -/
theorem searchParents_returns {visit : ComponentId → Task V E (Option (Stored V E))}
    (hvisit : ∀ {m₁ m₂ : Machine V E α} {parent : ComponentId}, m₁.GrowsFrom base →
      m₁.Returns i (visit parent) (some stored) m₂ →
        m₂.world.binding? stored.owner stored.binding.key.identity = some stored.binding)
    (parents : List ComponentId)
    (hreturns : m.Returns i (Resolution.searchParents resolution visit parents) (some stored) m') :
    m'.world.binding? stored.owner stored.binding.key.identity = some stored.binding := by
  induction parents generalizing m with
  | nil => simpa using hreturns.of_done
  | cons parent rest ih =>
    obtain ⟨between, hbetween, hreturns⟩ := hreturns.of_read
    obtain ⟨hgrowsFrom, -, -⟩ := h.reaches hbase hbetween
    split at hreturns
    · obtain ⟨found, last, hfound, hrest⟩ := Returns.bind hreturns
      obtain ⟨hlast, -, -⟩ := hgrowsFrom.reaches hbase hfound.reaches
      cases found with
      | none => exact ih hlast hrest
      | some other =>
        obtain rfl : stored = other := by simpa using hrest.of_done
        exact (hlast.reaches hbase hrest.reaches).2.1.binding? (hvisit hgrowsFrom hfound)
    · obtain ⟨reported, hreported, hrest⟩ := Returns.of_emit hreturns
      exact ih (hgrowsFrom.reaches hbase hreported).1 hrest

/-- Whoever finds a binding finds one that is stored for good. -/
theorem search_returns
    (hreturns : m.Returns i (Resolution.search resolution key c) (some stored) m') :
    m'.world.binding? stored.owner stored.binding.key.identity = some stored.binding := by
  unfold Resolution.search at hreturns
  generalize c + 1 = generations at hreturns
  induction generations generalizing c m m' with
  | zero => simpa using hreturns.of_done
  | succ generations ih =>
    obtain ⟨between, hbetween, hreturns⟩ := hreturns.of_read
    obtain ⟨hgrowsFrom, -, -⟩ := h.reaches hbase hbetween
    cases hserving : between.world.serving? c key with
    | none =>
      rw [hserving] at hreturns
      exact hgrowsFrom.searchParents_returns hbase (fun hm₁ hvisit => ih hm₁ hvisit) _ hreturns
    | some binding =>
      rw [hserving] at hreturns
      obtain ⟨reported, hreported, hend⟩ := Returns.of_emit hreturns
      obtain rfl : stored = ⟨c, binding⟩ := by simpa using hend.of_done
      have hlater := (hgrowsFrom.reaches hbase (hreported.trans hend.reaches)).2.1
      rcases World.serving?_eq_some hserving with hfound | hfound <;>
        obtain ⟨-, -, -, hkey⟩ := World.mem_of_binding? hfound <;>
        exact hlater.binding? (hkey ▸ hfound)

/-- Whoever comes to an object by resolving a key obtained it from a binding that is stored for good. -/
theorem resolve_returns {path : List Key} {parameters : Parameters V} {object : Object V}
    (hreturns : m.Returns i (Resolution.resolve c path resolution key parameters) (.ok (some object)) m') :
    ∃ (stored : Stored V E) (m₁ m₂ : Machine V E α), m.Reaches m₁ ∧
      m₁.world.binding? stored.owner stored.binding.key.identity = some stored.binding ∧
      m₁.Returns i (stored.obtain ⟨stored.owner, key, parameters, path ++ [key], resolution⟩) (.ok object) m₂ ∧
      m₂.Reaches m' := by
  obtain ⟨started, hstarted, hreturns⟩ := Returns.of_emit hreturns
  obtain ⟨hgrowsFrom, -, -⟩ := h.reaches hbase hstarted
  split at hreturns
  · obtain ⟨_, _, hend⟩ := Returns.of_emit hreturns
    simpa using hend.of_done
  · obtain ⟨located, m₁, hlocated, hrest⟩ := Returns.bind hreturns
    obtain ⟨found, between, hfound, hlocate⟩ := hlocated.bind
    obtain ⟨hbetween, -, -⟩ := hgrowsFrom.reaches hbase hfound.reaches
    have hstored (stored : Stored V E) (h : located = .ok (some stored)) :
        m₁.world.binding? stored.owner stored.binding.key.identity = some stored.binding := by
      cases found with
      | none =>
        obtain ⟨rfl, hbinding⟩ := hbetween.synthesize_returns hbase (h ▸ hlocate)
        obtain ⟨-, -, -, hkey⟩ := World.mem_of_binding? hbinding
        exact hkey ▸ hbinding
      | some other =>
        obtain rfl : other = stored := by simpa [h, eq_comm] using hlocate.of_done
        exact (hbetween.reaches hbase hlocate.reaches).2.1.binding? (hgrowsFrom.search_returns hbase hfound)
    match located, hrest with
    | .error e, hrest =>
      obtain ⟨_, _, hend⟩ := Returns.of_emit hrest
      simpa using hend.of_done
    | .ok none, hrest =>
      dsimp only at hrest
      split at hrest
      · obtain ⟨_, _, hend⟩ := Returns.of_emit hrest
        simpa using hend.of_done
      · obtain ⟨_, _, hend⟩ := Returns.of_emit hrest
        simpa using hend.of_done
    | .ok (some stored), hrest =>
      obtain ⟨result, m₂, hobtain, hend⟩ := hrest.bind
      cases result with
      | error e =>
        obtain ⟨_, _, hend⟩ := Returns.of_emit hend
        simpa using hend.of_done
      | ok other =>
        obtain rfl : object = other := by simpa using hend.of_done
        exact ⟨stored, m₁, m₂, hstarted.trans (hlocated.reaches), hstored stored rfl, hobtain, hend.reaches⟩

/-- Whoever is passed on to a component obtains the value of what the component stores. -/
theorem obtain_returns {binding : Binding V E} {context : Context V} {object : Object V}
    (hstored : m.world.binding? c key.identity = some binding)
    (hreturns : m.Returns i (Call.obtain c key context).body (.ok (some object)) m') :
    ∃ m₁ m₂, m.Reaches m₁ ∧ m₁.Returns i (Stored.obtain ⟨c, binding⟩ context) (.ok object) m₂ ∧ m₂.Reaches m' := by
  obtain ⟨between, hbetween, hreturns⟩ := hreturns.of_read
  rw [(h.reaches hbase hbetween).2.1.binding? hstored] at hreturns
  obtain ⟨result, last, hobtain, hend⟩ := Returns.bind hreturns
  cases result with
  | error e => simpa using hend.of_done
  | ok other =>
    obtain rfl : object = other := by simpa using hend.of_done
    exact ⟨between, last, hbetween, hobtain, hend.reaches⟩

end GrowsFrom

/-! ### Stored for good -/

/-- From here on, the component that stores a binding has it under a key. -/
def Stores (m : Machine V E α) (stored : Stored V E) (key : KeyId) : Prop :=
  ∀ m', m.Reaches m' → m'.world.binding? stored.owner key = some stored.binding

/-- What is stored is stored for good. -/
theorem GrowsFrom.stores {base : World V E} (hbase : base.FromCatalogs) (h : m.GrowsFrom base) {key : KeyId}
    {stored : Stored V E} (hstored : m.world.binding? stored.owner key = some stored.binding) :
    m.Stores stored key :=
  fun _ hreach => (h.reaches hbase hreach).2.1.binding? hstored

/-- However the threads of any number of requests take turns: components only grow, by bindings
under required keys; what a component stores under a key, it stores for good; whoever synthesizes a
key goes on with what is stored under the key for good, and every object that a key is resolved to
was obtained from what is stored for good; and all who are passed on to the owner of a scope are
passed on to the one binding that the owner stores for good, whose value they go on with whenever
they run what passes them on and the owner is alive. -/
theorem memoization_converges {w : World V E} (hcatalogs : w.FromCatalogs) (hkeyed : w.Keyed)
    (opened : List String) (requests : List (ComponentId × Query V)) {m : Machine V E (Reply V)}
    (hreach : (racing w opened requests).Reaches m) :
    (w.Grows m.world ∧ m.world.Keyed ∧ ∀ m', m.Reaches m' → m.world.Grows m'.world) ∧
      (∀ c key binding, m.world.binding? c key = some binding →
        binding.key.identity = key ∧ m.Stores ⟨c, binding⟩ key) ∧
      (∀ i resolution key c stored m₁,
        m.Returns i (Resolution.synthesize resolution key c) (.ok (some stored)) m₁ →
          stored.owner = c ∧ m₁.Stores stored key.required.identity) ∧
      (∀ i c path resolution key parameters object m',
        m.Returns i (Resolution.resolve c path resolution key parameters) (.ok (some object)) m' →
          ∃ (stored : Stored V E) (m₁ m₂ : Machine V E (Reply V)), m.Reaches m₁ ∧
            m₁.Stores stored stored.binding.key.identity ∧
            m₁.Returns i (stored.obtain ⟨stored.owner, key, parameters, path ++ [key], resolution⟩)
              (.ok object) m₂ ∧ m₂.Reaches m') ∧
      ∀ i resolution catalog key c entry scope owner binding m₁,
        Catalog.find? catalog key.type.id = some entry → entry.descriptor.isSingleton = false →
          entry.descriptor.scope = some scope → m.world.hasScope c scope = false →
            m.world.scopeOwner? c scope = some owner →
              m.Returns i (Resolution.consult resolution catalog key c) (.ok (some binding)) m₁ →
                ∃ stored : Stored V E, binding = stored.forwarding ∧ stored.owner = owner ∧
                  m₁.Stores stored key.identity ∧
                  (∀ j context outcome m₂ m₃, m₁.Reaches m₂ →
                    m₂.Returns j ((binding.definition context).toTask context) outcome m₃ →
                      (∃ reply m₄ m₅, m₂.Reaches m₄ ∧
                        m₄.Returns j (Call.obtain owner stored.binding.key { context with component := owner }).body
                          reply m₅ ∧ m₅.Reaches m₃ ∧
                        outcome = (Dependency.present stored.binding.key reply).mapError .dependency) ∨
                      ∃ m₄, m₂.Reaches m₄ ∧ m₄.world.isAlive owner = false ∧ m₄.Reaches m₃ ∧
                        outcome = .error (.dependency (.unresolved stored.binding.key))) ∧
                  ∀ j context object m₂ m₃, m₁.Reaches m₂ →
                    m₂.Returns j (Call.obtain owner stored.binding.key context).body (.ok (some object)) m₃ →
                      ∃ m₄ m₅, m₂.Reaches m₄ ∧ m₄.Returns j (stored.obtain context) (.ok object) m₅ ∧
                        m₅.Reaches m₃ := by
  obtain ⟨h, hgrows, hkeyed'⟩ := (growsFrom_racing w opened requests).reaches hcatalogs hreach
  refine ⟨⟨hgrows, hkeyed' hkeyed, fun m' hm' => (h.reaches hcatalogs hm').2.1⟩, ?_, ?_, ?_, ?_⟩
  · intro c key binding hbinding
    obtain ⟨-, -, -, hkey⟩ := World.mem_of_binding? hbinding
    exact ⟨hkey, h.stores hcatalogs hbinding⟩
  · intro i resolution key c stored m₁ hreturns
    obtain ⟨rfl, hstored⟩ := h.synthesize_returns hcatalogs hreturns
    exact ⟨rfl, (h.reaches hcatalogs hreturns.reaches).1.stores hcatalogs hstored⟩
  · intro i c path resolution key parameters object m' hreturns
    obtain ⟨stored, m₁, m₂, hm₁, hstored, hobtain, hm'⟩ := h.resolve_returns hcatalogs hreturns
    exact ⟨stored, m₁, m₂, hm₁, (h.reaches hcatalogs hm₁).1.stores hcatalogs hstored, hobtain, hm'⟩
  · intro i resolution catalog key c entry scope owner binding m₁ hfind hsingleton hscope hhas howner hreturns
    obtain ⟨stored, hbinding, rfl, hstored⟩ :=
      h.consult_returns hcatalogs hfind hsingleton hscope hhas howner hreturns
    have h₁ := (h.reaches hcatalogs hreturns.reaches).1
    refine ⟨stored, hbinding, rfl, h₁.stores hcatalogs hstored, ?_, ?_⟩
    · intro j context outcome m₂ m₃ hm₂ hruns
      exact (hbinding ▸ hruns).of_forwarding
    · intro j context object m₂ m₃ hm₂ hobtain
      obtain ⟨-, -, -, hkey⟩ := World.mem_of_binding? hstored
      have hstored' := h₁.stores hcatalogs hstored m₂ hm₂
      rw [← hkey] at hstored'
      exact (h₁.reaches hcatalogs hm₂).1.obtain_returns hcatalogs hstored' hobtain

/-- Two threads that ask a child for a type that belongs to a scope of its parent. -/
def siblings : Machine Unit Unit (Reply Unit) :=
  racing .family [] [(1, .get (.nth 1) []), (1, .get (.nth 1) [])]

/-- Both threads synthesize, since both search before anything is stored. The parent and the child
come to store one binding each, for good. -/
theorem memoization_converges_siblings :
    ∃ m m', siblings.Reaches m ∧ m.Reaches m' ∧
      (∀ c, m.world.bindings c = []) ∧ (m'.world.bindings 0).length = 1 ∧ (m'.world.bindings 1).length = 1 ∧
      m.world.Grows m'.world ∧ m'.world.Keyed ∧
      ∃ binding, m'.world.binding? 0 (Key.of (.nth 1)).identity = some binding ∧
        binding.key.identity = (Key.of (.nth 1)).identity ∧
        m'.Stores ⟨0, binding⟩ (Key.of (.nth 1)).identity := by
  obtain ⟨m, m', hm, hm', hnothing, hparent, hchild, binding, hbinding⟩ : ∃ m m',
      siblings.follow (List.replicate 9 [0, 1]).flatten = some m ∧
        m.follow (List.replicate 9 [1, 0]).flatten = some m' ∧
        m.world.components.map Component.bindings = [[], []] ∧
        (m'.world.bindings 0).length = 1 ∧ (m'.world.bindings 1).length = 1 ∧
        ∃ binding, m'.world.binding? 0 (Key.of (.nth 1)).identity = some binding :=
    ⟨_, _, rfl, rfl, rfl, rfl, rfl, _, rfl⟩
  have hreach : siblings.Reaches m := reaches_follow hm
  have hreach' : m.Reaches m' := reaches_follow hm'
  have hkeyed : World.family.Keyed := by
    intro c
    match c with
    | 0 | 1 | _ + 2 => exact List.nodup_nil
  obtain ⟨⟨-, -, hgrows⟩, -⟩ := memoization_converges World.fromCatalogs_family hkeyed [] _ hreach
  obtain ⟨⟨-, hkeyed', -⟩, hstores, -⟩ :=
    memoization_converges World.fromCatalogs_family hkeyed [] _ (hreach.trans hreach')
  refine ⟨m, m', hreach, hreach', fun c => ?_, hparent, hchild, hgrows m' hreach', hkeyed', binding, hbinding,
    hstores 0 _ binding hbinding⟩
  have hplace : (m.world.components.map Component.bindings)[c]?.getD [] = [] := by
    rw [hnothing]
    match c with
    | 0 | 1 | _ + 2 => rfl
  rw [List.getElem?_map] at hplace
  exact hplace

end Machine

end Injection
