import Injection.Proofs.Conduct

/-!
# Requests that descend

A ranking says which requests are below which others. A definition descends if it makes its
requests through its context, and only below what it is the definition for; bindings synthesized by
factories are included. If everything is below everything, only the first half is left: definitions
never start a top-level request of their own.

While a resolution is making values, whatever it asks for is below all of them. This is the conduct
of every top-level request in a world whose definitions descend.
-/

namespace Injection

variable {V E ρ : Type}

/-- Ranks of what is requested and of what is shared, and which ranks are below which. -/
structure Ranking (ρ : Type) where
  site : Site → ρ
  entry : EntryId → ρ
  below : ρ → ρ → Prop
  trans : ∀ {a b c}, below a b → below b c → below a c

namespace Ranking

/-- The rank of what a cell keeps the value of. -/
def slot (R : Ranking ρ) : Slot → ρ
  | .single _ key | .multi _ key _ => R.site key.site
  | .shared entry => R.entry entry

/-- Everything is below everything. -/
def flat : Ranking Unit := ⟨fun _ => (), fun _ => (), fun _ _ => True, fun _ _ => trivial⟩

end Ranking

/-! ### Definitions that descend -/

/-- The program makes requests only through its context and only below a rank, apart from sites at
which it may pass a request on. -/
def Program.Descends (R : Ranking ρ) (bound : ρ) (passes : Site → Prop) : Program V E → Prop
  | .done _ => True
  | .request key _ next =>
    R.below (R.site key.site) bound ∧ ∀ reply, (next reply).Descends R bound passes
  | .start _ _ _ _ => False
  | .forward _ key next =>
    (R.below (R.site key.site) bound ∨ passes key.site) ∧
      ∀ reply, (next reply).Descends R bound passes
  | .share entry body next =>
    R.below (R.entry entry) bound ∧ body.Descends R (R.entry entry) (fun _ => False) ∧
      ∀ reply, (next reply).Descends R bound passes
  | .make _ _ next => ∀ object, (next object).Descends R bound passes
  | .touch _ next => ∀ before, (next before).Descends R bound passes
  | .report _ next => next.Descends R bound passes
  | .meet _ next => next.Descends R bound passes

/-- The definition of the binding requests only what is below the binding's site. A binding that
keeps no value may pass the request on to another component. -/
def Binding.Descends (R : Ranking ρ) (binding : Binding V E) : Prop :=
  ∀ context, (binding.definition context).Descends R (R.site binding.key.site)
    fun site => binding.kind = .factory ∧ site = binding.key.site

/-- The entry, asked for a key, is made from what is below the key's site. A shared value is below
the site, and made from what is below itself. -/
def CatalogEntry.Descends (R : Ranking ρ) (entry : CatalogEntry V E) (key : Key) : Prop :=
  if entry.descriptor.isSingleton then
    R.below (R.entry entry.number) (R.site key.site) ∧
      ∀ context, (entry.definition key context).Descends R (R.entry entry.number) fun _ => False
  else
    ∀ context, (entry.definition key context).Descends R (R.site key.site) fun _ => False

/-- The entry that a catalog has for a key, if any, descends. -/
def Catalog.Descends (R : Ranking ρ) (catalog : Catalog V E) (key : Key) : Prop :=
  ∀ entry, catalog.find? key.type.id = some entry →
    entry.descriptor.qualifier.map Qualifier.identity = key.site.qualifier → entry.Descends R key

/-- The binding that a factory comes to for a key descends, as long as catalogs answer with
bindings that do. -/
def Synthesis.Descends (R : Ranking ρ) (key : Key) : Synthesis V E → Prop
  | .answer reply => ∀ binding, reply = .ok (some binding) → (binding.withKey key).Descends R
  | .consult catalog asked _ next =>
    catalog.Descends R asked ∧ ∀ reply,
      (∀ binding, reply = .ok (some binding) →
        binding.Descends R ∧ binding.key.site = asked.site) → (next reply).Descends R key
  | .touch _ next => ∀ before, (next before).Descends R key

/-- All bindings that the component stores descend, and so does what its factories come to. -/
def Component.Descends (R : Ranking ρ) (component : Component V E) : Prop :=
  (∀ binding ∈ component.bindings, binding.Descends R) ∧
    ∀ factory ∈ component.config.factories, ∀ key c, (factory key c).Descends R key

/-- All components descend. -/
def World.Descends (R : Ranking ρ) (w : World V E) : Prop :=
  ∀ component ∈ w.components, component.Descends R

/-- Definitions make their requests only through their context. -/
abbrev World.Contextual (w : World V E) : Prop := w.Descends .flat

variable {R : Ranking ρ} {making : List Slot}

/-- A program may be allowed to pass on more. -/
theorem Program.Descends.mono {bound : ρ} {passes passes' : Site → Prop} {program : Program V E}
    (h : program.Descends R bound passes) (hpasses : ∀ site, passes site → passes' site) :
    program.Descends R bound passes' := by
  induction program with
  | done outcome => trivial
  | request key parameters next ih => exact ⟨h.1, fun reply => ih reply (h.2 reply)⟩
  | start component key parameters next ih => exact h
  | forward owner key next ih => exact ⟨h.1.imp_right (hpasses _), fun reply => ih reply (h.2 reply)⟩
  | share entry body next ihbody ih => exact ⟨h.1, h.2.1, fun reply => ih reply (h.2.2 reply)⟩
  | make type value next ih => exact fun object => ih object (h object)
  | touch change next ih => exact fun before => ih before (h before)
  | report event next ih => exact ih h
  | meet gate next ih => exact ih h

/-- A binding that passes requests on descends. -/
theorem Stored.forwarding_descends (stored : Stored V E) : stored.forwarding.Descends R := by
  intro context
  refine ⟨Or.inr ⟨rfl, rfl⟩, fun reply => ?_⟩
  cases reply <;> trivial

/-- A catalog, as a factory, comes to what it answers itself. -/
theorem Catalog.factory_descends {catalog : Catalog V E} {key : Key} (h : catalog.Descends R key)
    (c : ComponentId) : (catalog.factory key c).Descends R key := by
  refine ⟨h, fun reply hreply binding hbinding context => ?_⟩
  obtain ⟨hdescends, hsite⟩ := hreply binding hbinding
  have hcontext := hdescends context
  rwa [hsite] at hcontext

/-! ### Providers that descend -/

section Dependency

variable {α β : Type} {bound : ρ} {passes : Site → Prop}

/-- The action requests only what is below a rank, and leaves the rest to what comes after it. -/
def Action.Descends (R : Ranking ρ) (bound : ρ) (passes : Site → Prop) (action : Action V E α) : Prop :=
  ∀ next, (∀ a, (next a).Descends R bound passes) → (action next).Descends R bound passes

/-- Actions one after the other descend if each of them does. -/
theorem Action.Descends.bind {action : Action V E α} {f : α → Action V E β}
    (h : action.Descends R bound passes) (hf : ∀ a, (f a).Descends R bound passes) :
    (action >>= f).Descends R bound passes :=
  fun next hnext => h _ fun a => hf a next hnext

/-- Yielding something requests nothing, so it descends. -/
theorem Action.descends_pure (a : α) : (pure a : Action V E α).Descends R bound passes :=
  fun _ hnext => hnext a

/-- Whatever is made of an answer makes no requests. -/
theorem Query.receive_descends (q : Query V) (reply : Reply V) :
    (q.receive reply : Action V E (Reply V)).Descends R bound passes := by
  intro next hnext
  unfold Query.receive
  generalize q.accept reply = accepted
  rcases reply with e | _ | object <;> cases accepted <;> exact hnext _

/-- An injected object is requested by its type. -/
theorem Dependency.inject_descends {type : TypeInfo} (h : R.below (R.site (Key.of type).site) bound)
    (context : Context V) :
    (Dependency.inject type context : Action V E _).Descends R bound passes :=
  fun _ hnext => ⟨h, fun reply => Query.receive_descends _ reply _ fun _ => hnext _⟩

/-- Several dependencies request what each of them requests. -/
theorem Dependency.all_descends {dependencies : List (Dependency V E α)} {context : Context V}
    (h : ∀ dependency ∈ dependencies, (dependency context).Descends R bound passes) :
    (Dependency.all dependencies context).Descends R bound passes := by
  induction dependencies with
  | nil => exact Action.descends_pure _
  | cons dependency rest ih =>
    have hrest := ih fun other hother => h other (List.mem_cons_of_mem _ hother)
    refine Action.Descends.bind ?_ fun _ => Action.descends_pure _
    apply Action.Descends.bind (h dependency List.mem_cons_self)
    intro result
    cases result with
    | error e => exact Action.descends_pure _
    | ok first => exact hrest.bind fun _ => Action.descends_pure _

/-- The binding of a provider that makes no requests of its own requests its dependencies. -/
theorem Binding.ofProvider_descends {type : TypeInfo} {kind : Kind} {dependencies : Dependency V E α}
    {provider : α → Action V E (Except String V)}
    (hdependencies : ∀ context, (dependencies context).Descends R (R.site (Key.of type).site)
      fun site => kind = .factory ∧ site = (Key.of type).site)
    (hprovider : ∀ a, (provider a).Descends R (R.site (Key.of type).site)
      fun site => kind = .factory ∧ site = (Key.of type).site) :
    (Binding.ofProvider type kind dependencies provider).Descends R := by
  refine fun context => hdependencies context _ fun result => ?_
  cases result with
  | error e => trivial
  | ok a =>
    apply hprovider a _
    intro outcome
    cases outcome with
    | error message => trivial
    | ok value => exact fun object => trivial

end Dependency

/-! ### The conduct of a descending resolution -/

/-- What a resolution of a number may do: everything that it asks for is below all values that it is
making. -/
def Conduct.descending (R : Ranking ρ) (number : Nat) : Conduct V E where
  holds components := ∀ component ∈ components, component.Descends R
  stores _ binding := binding.Descends R
  asks making resolution slot :=
    resolution.number = number ∧ ∀ made ∈ making, R.below (R.slot slot) (R.slot made)
  calls making request :=
    request.resolution.number = number ∧ ∀ made ∈ making, R.below (R.site request.site) (R.slot made)

/-- Descending programs keep the rules while values are being made that everything below their bound
is below of. -/
theorem Program.Descends.fits {bound : ρ} {passes : Site → Prop} {program : Program V E}
    (h : program.Descends R bound passes) {context : Context V} {number : Nat}
    (hnumber : context.resolution.number = number)
    (hbound : ∀ made ∈ making, ∀ a, R.below a bound → R.below a (R.slot made))
    (hpasses : ∀ site, passes site → ∀ made ∈ making, R.below (R.site site) (R.slot made)) :
    program.Fits (.descending R number) context making := by
  induction program generalizing bound passes making with
  | done outcome => trivial
  | request key parameters next ih =>
    exact ⟨⟨hnumber, fun made hmade => hbound made hmade _ h.1⟩,
      fun reply => ih reply (h.2 reply) hbound hpasses⟩
  | start component key parameters next ih => exact h.elim
  | forward owner key next ih =>
    refine ⟨⟨hnumber, fun made hmade => ?_⟩, fun reply => ih reply (h.2 reply) hbound hpasses⟩
    rcases h.1 with hbelow | hpass
    · exact hbound made hmade _ hbelow
    · exact hpasses _ hpass made hmade
  | share entry body next ihbody ih =>
    obtain ⟨hentry, hbody, hnext⟩ := h
    refine ⟨⟨hnumber, fun made hmade => hbound made hmade _ hentry⟩, ?_,
      fun reply => ih reply (hnext reply) hbound hpasses⟩
    refine ihbody hbody (fun made hmade a ha => ?_) (fun site hsite => hsite.elim)
    rcases List.mem_cons.mp hmade with rfl | hmade
    · exact ha
    · exact hbound made hmade a (R.trans ha hentry)
  | make type value next ih => exact fun object => ih object (h object) hbound hpasses
  | touch change next ih => exact fun before => ih before (h before) hbound hpasses
  | report event next ih => exact ih h hbound hpasses
  | meet gate next ih => exact ih h hbound hpasses

/-- What a descending catalog answers with descends. -/
theorem Catalog.Descends.supplies {catalog : Catalog V E} {asked : Key}
    (h : catalog.Descends R asked) (c : ComponentId) (number : Nat) :
    catalog.Supplies (.descending R number) asked c
      fun binding => binding.Descends R ∧ binding.key.site = asked.site := by
  intro entry hfind hqualifier
  have hentry := h entry hfind hqualifier
  unfold CatalogEntry.Descends at hentry
  split
  · next hsingleton =>
    rw [if_pos hsingleton] at hentry
    refine ⟨fun context => ⟨hentry.1, hentry.2 context, fun reply => ?_⟩, rfl⟩
    cases reply <;> trivial
  · next hsingleton =>
    rw [if_neg hsingleton] at hentry
    have hnew (kind : Kind) : (Binding.new asked kind (entry.definition asked)).Descends R :=
      fun context => (hentry context).mono fun _ hfalse => hfalse.elim
    split
    · exact ⟨hnew .factory, rfl⟩
    · intro w _
      split
      · exact ⟨hnew .single, rfl⟩
      · exact fun owner _ => ⟨hnew .single,
          fun binding _ hkey => ⟨Stored.forwarding_descends _, congrArg KeyId.site hkey⟩⟩

/-- What a descending factory comes to may be stored. -/
theorem Synthesis.Descends.supplies {key : Key} {program : Synthesis V E}
    (h : program.Descends R key) (c : ComponentId) (number : Nat) :
    program.Supplies (.descending R number) key c := by
  induction program with
  | answer reply => exact h
  | consult catalog asked component next ih =>
    exact ⟨_, h.1.supplies component number, fun reply hreply => ih reply (h.2 reply hreply)⟩
  | touch change next ih => exact fun before => ih before (h before)

/-- Storing a binding that descends leaves all components descending. -/
theorem World.Descends.memoize {w : World V E} (h : w.Descends R) {c : ComponentId}
    {binding : Binding V E} (hbinding : binding.Descends R) : (w.memoize c binding).Descends R := by
  unfold World.memoize
  split
  · exact h
  · intro component hcomponent
    obtain ⟨i, hi⟩ := List.mem_iff_getElem?.mp hcomponent
    simp only [World.modifyComponent, List.getElem?_modify, Option.map_eq_map,
      Option.map_eq_some_iff] at hi
    obtain ⟨before, hbefore, hmodified⟩ := hi
    have hdescends := h before (List.mem_of_getElem? hbefore)
    split at hmodified
    · subst hmodified
      refine ⟨fun other hother => ?_, hdescends.2⟩
      rcases List.mem_append.mp hother with hother | hother
      · exact hdescends.1 other hother
      · exact List.mem_singleton.mp hother ▸ hbinding
    · exact hmodified ▸ hdescends

/-- The calls of a descending resolution lead to nothing that it may not do. -/
theorem Conduct.lawful_descending [Hashed V] (R : Ranking ρ) (number : Nat) :
    (Conduct.descending R number : Conduct V E).Lawful where
  stored hholds hcomponent hbinding := (hholds _ (List.mem_of_getElem? hcomponent)).1 _ hbinding
  memoized hholds hbinding := World.Descends.memoize hholds hbinding
  supplied hholds hcomponent hfactory :=
    ((hholds _ (List.mem_of_getElem? hcomponent)).2 _ hfactory _ _).supplies _ _
  admitted {owner binding making request context} hstores hcall hsite hresolution := by
    obtain ⟨hnumber, hbelow⟩ := hcall
    have hcontext : context.resolution.number = number := hresolution ▸ hnumber
    rw [← hsite] at hbelow
    have hdescends : binding.Descends R := hstores
    have hfits (making : List Slot)
        (hbound : ∀ made ∈ making, ∀ a, R.below a (R.site binding.key.site) → R.below a (R.slot made))
        (hkind : binding.kind = .factory →
          ∀ made ∈ making, R.below (R.site binding.key.site) (R.slot made)) :
        (binding.definition context).Fits (.descending R number) context making :=
      (hdescends context).fits hcontext hbound fun site hsite => hsite.2 ▸ hkind hsite.1
    -- A value that is kept is itself among the values that the definition's requests are below.
    have hkeeps (slot : Slot) (hslot : R.slot slot = R.site binding.key.site)
        (hkind : binding.kind ≠ .factory) :
        (binding.definition context).Fits (.descending R number) context (slot :: making) := by
      refine hfits _ (fun made hmade a ha => ?_) fun hfactory => absurd hfactory hkind
      rcases List.mem_cons.mp hmade with rfl | hmade
      · exact hslot ▸ ha
      · exact R.trans ha (hbelow made hmade)
    unfold Stored.Admitted Stored.slot?
    cases hkind : binding.kind with
    | factory => exact hfits making (fun made hmade a ha => R.trans ha (hbelow made hmade)) fun _ => hbelow
    | single => exact ⟨⟨hcontext, hbelow⟩, hkeeps _ rfl (by simp [hkind])⟩
    | multi => exact ⟨⟨hcontext, hbelow⟩, hkeeps _ rfl (by simp [hkind])⟩

end Injection
