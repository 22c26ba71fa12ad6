import Injection.Proofs.Confinement
import Injection.Proofs.Fallback
import Injection.Proofs.Transparency
import Injection.Proofs.Upkeep

/-!
# Where forwarding leads

If components fall back on catalogs only, a binding that forwards leads to a component that stores a binding under
the same key, in whatever state requests, builds and drops leave the world, and in the midst of requests as well.
So a request for the key comes to what it comes to there for as long as that component is alive; and since what is
dropped stays dropped, it fails from then on.
-/

namespace Injection

variable {V E : Type}

section Definitions

/-- What an entry makes anew is not made by passing a request on: only components do that. -/
def Catalog.Direct (catalog : Catalog V E) : Prop :=
  ∀ entry ∈ catalog.entries, ∀ key context owner other next,
    entry.definition key context ≠ .forward owner other next

/-- If the binding forwards, it does so under its own key, to a component that stores a binding under it. -/
def World.Connects (w : World V E) (binding : Binding V E) : Prop :=
  ∀ stored, binding.Forwards stored → stored.binding.key.identity = binding.key.identity ∧
    ∃ other, w.binding? stored.owner binding.key.identity = some other

/-- Components fall back on catalogs, and whatever forwards leads to some binding. -/
structure World.Connected (w : World V E) : Prop where
  connects : ∀ c, ∀ binding ∈ w.bindings c, w.Connects binding
  factories : ∀ c, ∀ factory ∈ (w.config c).factories,
    ∃ catalog : Catalog V E, catalog.Direct ∧ factory = catalog.factory

/-- The component has been dropped. -/
def World.Dropped (w : World V E) (c : ComponentId) : Prop :=
  ∃ component, w.component? c = some component ∧ component.alive = false

/-- The second world is a later state of the first: what was stored is stored, and what was dropped is dropped. -/
structure World.Later (w w' : World V E) : Prop where
  accrues : w.Accrues w'
  dropped : ∀ c, w.Dropped c → w'.Dropped c

/-- A component is to be built that falls back on catalogs. If a binding that it is given forwards, which none does
that is made outside of components, it leads to some binding, too. -/
structure ComponentBuilder.Connected (b : ComponentBuilder V E) (w : World V E) : Prop where
  modules : ∀ source ∈ b.modules, ∀ binding ∈ source.bindings, w.Connects binding
  bindings : ∀ binding ∈ b.bindings, w.Connects binding
  factories : ∀ factory ∈ b.config.factories, ∃ catalog : Catalog V E, catalog.Direct ∧ factory = catalog.factory

/-- A state that is reached from another. Components are built and dropped, catalogs are consulted, top-level requests
are made, and anything may happen outside of the container. The states in which the calls within a request are taken
up are reached, too. -/
inductive World.Reaches [Hashed V] (start : World V E) : World V E → Prop
  | refl : Reaches start start
  | built {w w' : World V E} {b : ComponentBuilder V E} {c : ComponentId} :
      Reaches start w → b.Connected w → w.build b = .ok (c, w') → Reaches start w'
  | dropped {w : World V E} (c : ComponentId) : Reaches start w → Reaches start (w.drop c)
  | consulted {w w' : World V E} {catalog : Catalog V E} {resolution : Resolution} {key : Key} {c : ComponentId}
      {reply : SynthesisReply V E} : Reaches start w → catalog.Direct →
        catalog.factory.Replies resolution key c w reply w' → Reaches start w'
  | moved {w w' : World V E} : Reaches start w → w'.components = w.components → Reaches start w'
  | answered {w w' : World V E} {q : Query V} {c : ComponentId} {depth : Nat} {reply : Reply V} :
      Reaches start w → w.run depth (q.task c) = .ok (reply, w') → Reaches start w'
  | within {w v : World V E} {q : Query V} {c : ComponentId} {depth : Nat} {request : Call V} :
      Reaches start w → .called request v ∈ w.journal depth (q.task c) → Reaches start v

end Definitions

/-! ### What forwards -/

section Bindings

variable {w w' : World V E} {c : ComponentId} {binding : Binding V E}

/-- A binding forwards to one component, under one key. -/
theorem Binding.Forwards.unique {stored stored' : Stored V E} (h : binding.Forwards stored)
    (h' : binding.Forwards stored') : stored'.owner = stored.owner ∧ stored'.binding.key = stored.binding.key := by
  have hsame := congrFun (h'.2.symm.trans h.2) ⟨0, binding.key, [], [], ⟨0, none⟩⟩
  obtain ⟨howner, hkey, -⟩ := Program.forward.inj hsame
  exact ⟨howner, hkey⟩

namespace World

/-- What led to some binding goes on leading there while nothing stored is lost. -/
theorem Connects.of_accrues (h : w.Connects binding) (hw : w.Accrues w') : w'.Connects binding := by
  intro stored hforwards
  obtain ⟨hkey, other, hother⟩ := h stored hforwards
  exact ⟨hkey, other, hw hother⟩

/-- What is kept for a component does not forward. -/
theorem connects_of_single (w : World V E) (h : binding.kind = .single) : w.Connects binding := by
  intro stored hforwards
  cases h.symm.trans hforwards.1

/-- Nor does what a catalog's entry makes anew. -/
theorem connects_of_direct {catalog : Catalog V E} (hdirect : catalog.Direct) {entry : CatalogEntry V E}
    (hentry : entry ∈ catalog.entries) {key : Key} (hdefinition : binding.definition = entry.definition key)
    (w : World V E) : w.Connects binding := by
  intro stored hforwards
  have hforward := congrFun (hdefinition.symm.trans hforwards.2) ⟨0, key, [], [], ⟨0, none⟩⟩
  exact absurd hforward (hdirect entry hentry _ _ _ _ _)

/-- What forwards to a binding that is stored leads there. -/
theorem connects_of_stored {stored : Stored V E} (hdefinition : binding.definition = stored.forwarding.definition)
    (hkey : stored.binding.key.identity = binding.key.identity)
    (hstored : w.binding? stored.owner binding.key.identity = some stored.binding) : w.Connects binding := by
  intro other hforwards
  obtain ⟨howner, hsame⟩ := Binding.Forwards.unique ⟨hforwards.1, hdefinition⟩ hforwards
  exact ⟨hsame ▸ hkey, stored.binding, howner ▸ hstored⟩

/-- Nothing changes about it where the components stay as they are. -/
theorem Connected.of_components (h : w.Connected) (hsame : w'.components = w.components) : w'.Connected where
  connects c binding hbinding := by
    rw [bindings_of_components hsame] at hbinding
    exact (h.connects c binding hbinding).of_accrues (.of_components hsame)
  factories c factory hfactory := by
    rw [(Grows.of_components hsame).config] at hfactory
    exact h.factories c factory hfactory

/-- It stays so if what is stored leads to some binding, in case it forwards. -/
theorem Connected.memoize (h : w.Connected) (hbinding : w.Connects binding) : (w.memoize c binding).Connected where
  connects d other hother := by
    refine Connects.of_accrues ?_ (w.accrues_memoize c binding)
    rcases w.bindings_memoize c d binding with hsame | ⟨-, -, hadded⟩
    · exact h.connects d other (hsame ▸ hother)
    · rcases List.mem_append.mp (hadded ▸ hother) with hmem | hmem
      · exact h.connects d other hmem
      · exact List.mem_singleton.mp hmem ▸ hbinding
  factories d factory hfactory := h.factories d factory (w.config_memoize c d binding ▸ hfactory)

/-- A dropped component still stores what was forwarded to. -/
theorem Connected.drop (h : w.Connected) (c : ComponentId) : (w.drop c).Connected where
  connects d binding hbinding := by
    rw [bindings_drop] at hbinding
    exact (h.connects d binding hbinding).of_accrues (w.accrues_drop c)
  factories d factory hfactory := h.factories d factory (w.config_drop c d ▸ hfactory)

/-- It stays so if a component is built from parts of which it is true. -/
theorem Connected.build (h : w.Connected) {b : ComponentBuilder V E} (hb : b.Connected w)
    (hbuild : w.build b = .ok (c, w')) : w'.Connected := by
  have haccrues := accrues_build hbuild
  obtain ⟨m, hregistry, rfl⟩ := build_eq_ok hbuild
  refine ⟨fun d binding hbinding => ?_, fun d factory hfactory => ?_⟩
  · refine Connects.of_accrues ?_ haccrues
    simp only [World.bindings, component?_addComponent] at hbinding
    split at hbinding
    · exact ComponentBuilder.forall_registry hb.modules hb.bindings hregistry binding hbinding
    · exact h.connects d binding hbinding
  · simp only [World.config, component?_addComponent] at hfactory
    split at hfactory
    · exact hb.factories factory hfactory
    · exact h.factories d factory hfactory

end World

end Bindings

/-! ### What happens later -/

namespace World

variable {w w' w'' : World V E} {c : ComponentId}

/-- A dropped component is not alive. -/
theorem Dropped.isAlive_eq (h : w.Dropped c) : w.isAlive c = false := by
  obtain ⟨component, hcomponent, hdropped⟩ := h
  simp [isAlive, hcomponent, hdropped]

/-- A component is dropped by being dropped. -/
theorem dropped_drop {component : Component V E} (h : w.component? c = some component) : (w.drop c).Dropped c := by
  unfold Dropped World.drop
  rw [component?_modifyComponent, h]
  exact ⟨{ component with alive := false }, by simp, rfl⟩

/-- Every world comes after itself. -/
theorem Later.refl (w : World V E) : w.Later w := ⟨.refl w, fun _ => id⟩

/-- What comes after a later world comes later. -/
theorem Later.trans (h : w.Later w') (h' : w'.Later w'') : w.Later w'' :=
  ⟨h.accrues.trans h'.accrues, fun c hc => h'.dropped c (h.dropped c hc)⟩

/-- A world with the same components comes later. -/
theorem Later.of_components (h : w'.components = w.components) : w.Later w' := by
  refine ⟨.of_components h, fun c hc => ?_⟩
  unfold Dropped component?
  rwa [h]

/-- Nothing that changes the components one by one brings one back, if it brings none back itself. -/
theorem dropped_of_map {f : Component V E → Component V E}
    (hf : ∀ component, component.alive = false → (f component).alive = false)
    (h : w'.component? c = (w.component? c).map f) (hdropped : w.Dropped c) : w'.Dropped c := by
  obtain ⟨component, hcomponent, halive⟩ := hdropped
  exact ⟨f component, by rw [h, hcomponent, Option.map_some], hf component halive⟩

/-- Storing a binding brings no component back, and loses nothing stored. -/
theorem later_memoize (w : World V E) (c : ComponentId) (binding : Binding V E) : w.Later (w.memoize c binding) := by
  refine ⟨w.accrues_memoize c binding, fun d => dropped_of_map ?_ (component?_memoize w c d binding)⟩
  intro component halive
  split <;> exact halive

/-- Nor does dropping a component. -/
theorem later_drop (w : World V E) (c : ComponentId) : w.Later (w.drop c) := by
  refine ⟨w.accrues_drop c, fun d => dropped_of_map ?_ (component?_modifyComponent w c d _)⟩
  intro component halive
  split
  · rfl
  · exact halive

/-- Nor does building one. -/
theorem later_build {b : ComponentBuilder V E} (h : w.build b = .ok (c, w')) : w.Later w' := by
  refine ⟨accrues_build h, fun d hd => ?_⟩
  obtain ⟨component, hcomponent, halive⟩ := hd
  obtain ⟨m, -, rfl⟩ := build_eq_ok h
  have hlt : d < w.components.length := (List.getElem?_eq_some_iff.mp hcomponent).1
  exact ⟨component, by rw [component?_addComponent, if_neg (Nat.ne_of_lt hlt), hcomponent], halive⟩

end World

/-! ### Catalogs connect -/

section Catalogs

variable {key : Key} {c : ComponentId} {w w' : World V E} {reply : SynthesisReply V E}

/-- What a catalog has for a key leads somewhere, and so does what it stores. -/
theorem Catalog.Gives.connected {catalog : Catalog V E} (hdirect : catalog.Direct) (h : catalog.Gives key c w w' reply)
    (hw : w.Connected) : w'.Connected ∧ w.Later w' ∧
      ∀ binding, reply = .ok (some binding) → w'.Connects (binding.withKey key) := by
  cases h with
  | nothing hreply hsame =>
    exact ⟨hw.of_components hsame, .of_components hsame, fun binding hbinding => absurd hbinding (hreply binding)⟩
  | kept hkind hsame =>
    refine ⟨hw.of_components hsame, .of_components hsame, fun binding hbinding => ?_⟩
    obtain rfl := Option.some.inj (Except.ok.inj hbinding)
    exact w'.connects_of_single hkind
  | made hentry hsame =>
    refine ⟨hw.of_components hsame, .of_components hsame, fun binding hbinding => ?_⟩
    obtain rfl := Option.some.inj (Except.ok.inj hbinding)
    exact World.connects_of_direct hdirect hentry rfl w'
  | @forwarded owner component added _ hcomponent hkey hkind hstored =>
    refine ⟨(hw.memoize (w.connects_of_single hkind)).of_components hstored,
      (w.later_memoize owner added).trans (.of_components hstored), fun binding hbinding => ?_⟩
    obtain rfl := Option.some.inj (Except.ok.inj hbinding)
    have hmemoized := World.binding?_memoize_getD hcomponent added
    rw [hkey] at hmemoized
    obtain ⟨-, -, -, hidentity⟩ := World.mem_of_binding? hmemoized
    exact World.connects_of_stored rfl hidentity ((World.binding?_of_components hstored _).trans hmemoized)

/-- An inquiry of catalogs leaves all that forwards leading to some binding, its own answer included. -/
theorem Inquiry.connected {resolution : Resolution} {factories asked : List (Factory V E)}
    (h : Inquiry resolution key c factories w asked reply w')
    (hfactories : ∀ factory ∈ factories, ∃ catalog : Catalog V E, catalog.Direct ∧ factory = catalog.factory)
    (hw : w.Connected) : w'.Connected ∧ w.Later w' ∧
      ∀ binding, reply = .ok (some binding) → w'.Connects (binding.withKey key) := by
  induction h with
  | exhausted w => exact ⟨hw, .refl w, by simp⟩
  | declined hdeclined _ ih =>
    obtain ⟨⟨catalog, hdirect, rfl⟩, hrest⟩ := List.forall_mem_cons.mp hfactories
    obtain ⟨hbetween, hlater, -⟩ := (Catalog.gives_of_replies hdeclined).connected hdirect hw
    obtain ⟨hw', hlater', hconnects⟩ := ih hrest hbetween
    exact ⟨hw', hlater.trans hlater', hconnects⟩
  | settled hsettled _ =>
    obtain ⟨catalog, hdirect, rfl⟩ := hfactories _ List.mem_cons_self
    exact (Catalog.gives_of_replies hsettled).connected hdirect hw

/-- To locate a key connects what is stored for it. -/
theorem Resolution.Locates.connected {resolution : Resolution} {asked : List (Factory V E)}
    {located : Except ResolveError (Option (Stored V E))} (h : Locates resolution key c w asked located w')
    (hw : w.Connected) : w'.Connected ∧ w.Later w' := by
  cases h with
  | found _ hw' => exact ⟨hw.of_components hw'.components, .of_components hw'.components⟩
  | @inquired _ reply u _ _ hinquiry hw' =>
    obtain ⟨hu, hlater, hconnects⟩ := hinquiry.connected
      (fun factory hfactory => hw.factories c factory (List.mem_reverse.mp hfactory)) hw
    have hkeep : (SynthesisReply.keep key.required c reply u).Connected ∧
        u.Later (SynthesisReply.keep key.required c reply u) := by
      match reply, hconnects with
      | .error e, _ => exact ⟨hu, .refl u⟩
      | .ok none, _ => exact ⟨hu, .refl u⟩
      | .ok (some binding), hconnects =>
        exact ⟨hu.memoize (hconnects binding rfl), u.later_memoize c _⟩
    exact ⟨hkeep.1.of_components hw'.components, (hlater.trans hkeep.2).trans (.of_components hw'.components)⟩

/-- So whatever forwards goes on leading somewhere while requests are answered, and nothing is undone meanwhile. -/
theorem World.steady_connected (start : World V E) : World.Steady fun w => w.Connected ∧ start.Later w where
  of_components h hsame := ⟨h.1.of_components hsame, h.2.trans (.of_components hsame)⟩
  locate h hrun := by
    obtain ⟨asked, hlocates⟩ := Resolution.Locates.of_run hrun
    obtain ⟨hconnected, hlater⟩ := hlocates.connected h.1
    exact ⟨hconnected, h.2.trans hlater⟩

end Catalogs

/-! ### The states that are reached -/

section States

variable [Hashed V] {start w : World V E}

/-- So it is in every world that requests, new components and drops lead to. -/
theorem World.Reaches.connected (h : start.Reaches w) (hstart : start.Connected) : w.Connected ∧ start.Later w := by
  induction h with
  | refl => exact ⟨hstart, .refl start⟩
  | built _ hb hbuild ih => exact ⟨ih.1.build hb hbuild, ih.2.trans (later_build hbuild)⟩
  | dropped c _ ih => exact ⟨ih.1.drop c, ih.2.trans (later_drop _ c)⟩
  | consulted _ hdirect hreplies ih =>
    obtain ⟨hconnected, hlater, -⟩ := (Catalog.gives_of_replies hreplies).connected hdirect ih.1
    exact ⟨hconnected, ih.2.trans hlater⟩
  | moved _ hsame ih => exact (steady_connected start).of_components ih hsame
  | answered _ hrun ih => exact Query.run_steady (steady_connected start) ih hrun
  | within _ hcalled ih => exact Query.steady_of_called (steady_connected start) ih hcalled

omit [Hashed V] in
/-- Nothing forwards in the world before anything is built. -/
theorem World.connected_initial (surroundings : E) : (initial surroundings : World V E).Connected where
  connects c binding hbinding := by simp [initial, World.bindings, component?] at hbinding
  factories c factory hfactory := by simp [initial, World.config, component?, ComponentConfig.default] at hfactory

/-- In whatever state it is that components and their requests have led to, with catalogs to fall back on: if a
component stores under a required key a binding that forwards to another component, a request there comes to what
it comes to at the other component as long as that one is alive. Once that one is dropped, every request there
fails, whatever happens after. -/
theorem World.Reaches.forwarding_transparent {surroundings : E} (hw : (World.initial surroundings).Reaches w)
    {c : ComponentId} {key : Key} {forwarder : Binding V E} {stored : Stored V E} (hrequired : key.nullable = false)
    (hstored : w.binding? c key.identity = some forwarder) (hforwards : forwarder.Forwards stored) :
    (w.isAlive stored.owner = true → w.Transparent c stored.owner key forwarder) ∧
      ∀ w', (w.drop stored.owner).Reaches w' → w'.CutOff c key forwarder := by
  obtain ⟨hconnected, -⟩ := hw.connected (connected_initial surroundings)
  obtain ⟨component, hcomponent, hmem, hidentity⟩ := mem_of_binding? hstored
  have hbindings : forwarder ∈ w.bindings c := by
    simpa [World.bindings, component?, hcomponent] using hmem
  obtain ⟨hkey, binding, hbinding⟩ := hconnected.connects c forwarder hbindings stored hforwards
  rw [hidentity] at hkey hbinding
  refine ⟨fun halive => World.transparent hrequired hstored hforwards hkey hbinding halive, fun w' hw' => ?_⟩
  obtain ⟨-, hlater⟩ := hw'.connected (hconnected.drop stored.owner)
  obtain ⟨owner, howner, -⟩ := mem_of_binding? hbinding
  have hdropped := (hlater.dropped _ (dropped_drop howner)).isAlive_eq
  exact World.cutOff hrequired (hlater.accrues (w.accrues_drop _ hstored)) hforwards hkey hdropped

/-- Catalogs of the types that small worlds are about make what they have themselves. -/
theorem Catalog.direct_nth {entries : List (CatalogEntry Unit Unit)}
    (h : ∀ entry ∈ entries, ∃ n scope, entry = .nth n scope) : (Catalog.mk entries).Direct := by
  intro entry hentry key context owner other next heq
  obtain ⟨n, scope, rfl⟩ := h entry hentry
  cases heq

/-- A parent and its child arise from nothing. -/
theorem World.reaches_family : (World.initial () : World Unit Unit).Reaches .family := by
  let config : ComponentConfig Unit Unit :=
    ⟨none, [Catalog.factory ⟨[.nth 0 none, .nth 1 (some DefaultScope.app.tag)]⟩]⟩
  have hparts (w : World Unit Unit) (scopes : List ScopeTag) (parents : List ComponentId) :
      (⟨scopes, parents, [], [], config⟩ : ComponentBuilder Unit Unit).Connected w := by
    refine ⟨by simp, by simp, fun factory hfactory => ⟨_, ?_, List.mem_singleton.mp hfactory⟩⟩
    exact Catalog.direct_nth (by simp)
  obtain ⟨w, hparent, hchild⟩ : ∃ w,
      (World.initial () : World Unit Unit).build ⟨[DefaultScope.app.tag], [], [], [], config⟩ = .ok (0, w) ∧
        w.build ⟨[], [0], [], [], config⟩ = .ok (1, .family) := ⟨_, rfl, rfl⟩
  exact (Reaches.refl.built (hparts _ _ _) hparent).built (hparts _ _ _) hchild

/-- The child of the family forwards the second type to its parent, where the value is kept. Once the parent is
dropped, the child does not come by that value any more. -/
theorem World.Reaches.forwarding_transparent_family :
    ∃ (w : World Unit Unit) (forwarder : Binding Unit Unit) (object : Object Unit),
      (World.initial () : World Unit Unit).Reaches w ∧ w.binding? 1 (Key.of (.nth 1)).identity = some forwarder ∧
        w.cells (.single 0 (Key.of (.nth 1)).identity) = .ready object ∧
          w.Transparent 1 0 (.of (.nth 1)) forwarder ∧ (w.drop 0).CutOff 1 (.of (.nth 1)) forwarder := by
  obtain ⟨w, reply, forwarder, stored, object, hrun, hforwarder, hforwards, howner, hcell, halive⟩ :
      ∃ (w : World Unit Unit) (reply : Reply Unit) (forwarder : Binding Unit Unit) (stored : Stored Unit Unit)
        (object : Object Unit), World.family.run 3 ((Query.get (.nth 1) []).task 1) = .ok (reply, w) ∧
          w.binding? 1 (Key.of (.nth 1)).identity = some forwarder ∧ forwarder.Forwards stored ∧ stored.owner = 0 ∧
            w.cells (.single 0 (Key.of (.nth 1)).identity) = .ready object ∧ w.isAlive 0 = true :=
    ⟨_, _, _, ⟨0, .new (.of (.nth 1)) .single ((CatalogEntry.nth 1 (some DefaultScope.app.tag)).definition _)⟩,
      _, rfl, rfl, ⟨rfl, rfl⟩, rfl, rfl, rfl⟩
  have hreaches := reaches_family.answered hrun
  obtain ⟨htransparent, hcutOff⟩ := World.Reaches.forwarding_transparent hreaches rfl hforwarder hforwards
  rw [howner] at htransparent hcutOff
  exact ⟨w, forwarder, object, hreaches, hforwarder, hcell, htransparent halive, hcutOff _ .refl⟩

end States

end Injection
