import Injection.Proofs.Journal
import Injection.Proofs.Ownership
import Injection.Proofs.Realm

/-!
# Values that components share

Some components fall back on one catalog, in which an entry makes values that are shared, and nothing is
registered for the entry. Whatever such a component stores for the entry then is a single binding whose
definition asks for the shared value, so what its cell keeps is the shared value. This is an invariant of
all requests among these components, however they are nested and whichever of them fail.
-/

namespace Injection

variable {V E α : Type}

/-! ### Components that share -/

/-- The program starts requests at some components only, and passes requests on only to them. What it shares
as the value of an entry, the entry makes. -/
def Program.Within (members : ComponentId → Prop) (entry : CatalogEntry V E) (context : Context V) :
    Program V E → Prop
  | .done _ => True
  | .request _ _ next => ∀ reply, (next reply).Within members entry context
  | .start c _ _ next => members c ∧ ∀ reply, (next reply).Within members entry context
  | .forward owner _ next => members owner ∧ ∀ reply, (next reply).Within members entry context
  | .share other body next =>
    (other = entry.number → ∃ key, body = entry.definition key context) ∧ body.Within members entry context ∧
      ∀ reply, (next reply).Within members entry context
  | .make _ _ next => ∀ object, (next object).Within members entry context
  | .touch _ next => ∀ before, (next before).Within members entry context
  | .report _ next => next.Within members entry context
  | .meet _ next => next.Within members entry context

section Definitions

variable (members : ComponentId → Prop) (catalog : Catalog V E) (entry : CatalogEntry V E)

/-- The definition of the binding stays among the components. -/
def Binding.Within (binding : Binding V E) : Prop :=
  ∀ context, (binding.definition context).Within members entry context

/-- The binding stays among the components, and asks for the shared value if it is for the entry. -/
structure Binding.Joins (binding : Binding V E) : Prop where
  within : binding.Within members entry
  shares : binding.key.site = entry.site →
    binding.key.nullable = false ∧ binding.kind = .single ∧ ∃ key, binding.definition = entry.sharedDefinition key

/-- The component has its parents among the components, and falls back on nothing but the catalog. -/
structure Component.Joins (component : Component V E) : Prop where
  parents : ∀ parent ∈ component.parents, members parent
  factories : component.config.factories = [catalog.factory]
  bindings : ∀ binding ∈ component.bindings, binding.Joins members entry

/-- The catalog offers the entry, whose values are shared, and nothing of it leads away from the components. -/
structure Catalog.Offers : Prop where
  listed : catalog.find? entry.descriptor.target.id = some entry
  isShared : entry.descriptor.isSingleton = true
  distinct : ∀ other ∈ catalog.entries, other.number = entry.number → other = entry
  within : ∀ other ∈ catalog.entries, ∀ key context, (other.definition key context).Within members entry context

/-- Some components join in sharing the values of an entry. -/
def Conduct.sharing : Conduct V E :=
  .free (fun components => ∀ c component, members c → components[c]? = some component →
      component.Joins members catalog entry)
    fun c binding => members c → binding.Joins members entry

end Definitions

section Offers

variable {members : ComponentId → Prop} {catalog : Catalog V E} {entry other : CatalogEntry V E} {key : Key}
  {w : World V E} {c d : ComponentId}

/-- A binding that passes requests on to one of the components stays among them. -/
theorem Stored.forwarding_within {stored : Stored V E} (h : members stored.owner) :
    stored.forwarding.Within members entry := by
  refine fun context => ⟨h, fun reply => ?_⟩
  cases reply <;> trivial

namespace Catalog.Offers

variable (h : catalog.Offers members entry)
include h

/-- A key of the entry's site is described by the entry. -/
theorem eq_of_site (hfind : catalog.find? key.type.id = some other) (hsite : key.site = entry.site) :
    other = entry := by
  rw [show key.type.id = entry.descriptor.target.id from congrArg Site.type hsite, h.listed] at hfind
  exact (Option.some.inj hfind).symm

/-- What a catalog makes for users of its own stays among the components, and is not for the entry. -/
theorem joins_definition (hfind : catalog.find? key.type.id = some other)
    (hplural : other.descriptor.isSingleton = false) (kind : Kind) :
    (Binding.new key kind (other.definition key)).Joins members entry where
  within context := h.within other (List.mem_of_find?_eq_some hfind) key context
  shares hsite := by
    rw [h.eq_of_site hfind hsite, h.isShared] at hplural
    cases hplural

/-- What a catalog makes to be shared stays among the components. -/
theorem joins_sharedDefinition (hfind : catalog.find? key.type.id = some other) (hkey : key.nullable = false) :
    (Binding.new key .single (other.sharedDefinition key)).Joins members entry where
  within context := by
    have hmem := List.mem_of_find?_eq_some hfind
    refine ⟨fun hnumber => ⟨key, ?_⟩, h.within other hmem key context, fun reply => ?_⟩
    · rw [h.distinct other hmem hnumber]
    · cases reply <;> trivial
  shares hsite := ⟨hkey, rfl, key, by rw [← h.eq_of_site hfind hsite]; rfl⟩

end Catalog.Offers

/-- The owners above one of the components are among them. -/
theorem World.members_of_above (hw : (Conduct.sharing members catalog entry).holds w.components)
    (habove : w.Above c d) (hc : members c) : members d := by
  induction habove with
  | refl => exact hc
  | @tail between parent _ hparent ih =>
    have hmem : parent ∈ w.parents between := List.mem_of_mem_filter hparent
    unfold World.parents at hmem
    cases hcomponent : w.component? between with
    | none => simp [hcomponent] at hmem
    | some component =>
      rw [hcomponent] at hmem
      exact (hw between component ih hcomponent).parents parent hmem

/-- What the components store stays as it is, and they store nothing else. -/
theorem Conduct.stable_sharing : (Conduct.sharing members catalog entry).Stable where
  stored hholds hcomponent hmem hc := (hholds _ _ hc hcomponent).bindings _ hmem
  memoized {w c binding} hholds hbinding := by
    intro d component hd hcomponent
    change (w.memoize c binding).component? d = some component at hcomponent
    rw [World.component?_memoize, Option.map_eq_some_iff] at hcomponent
    obtain ⟨before, hbefore, rfl⟩ := hcomponent
    have hjoins := hholds d before hd hbefore
    split
    · next hstored =>
      obtain ⟨rfl, -⟩ := hstored
      refine ⟨hjoins.parents, hjoins.factories, fun other hother => ?_⟩
      rcases List.mem_append.mp hother with hother | hother
      · exact hjoins.bindings other hother
      · exact List.mem_singleton.mp hother ▸ hbinding hd
    · exact hjoins

/-- What the components fall back on may be stored in them. -/
theorem Catalog.Offers.suppliedAt (h : catalog.Offers members entry) (hc : members c) (key : Key) :
    (Conduct.sharing members catalog entry).SuppliedAt c key := by
  intro components component factory hholds hcomponent hfactory
  rw [(hholds c component hc hcomponent).factories] at hfactory
  obtain rfl := List.mem_singleton.mp hfactory
  refine ⟨fun binding => (binding.withKey key.required).Joins members entry, fun other hfind _ => ?_,
    fun reply hreply binding hbinding _ => hreply binding hbinding⟩
  split
  · exact h.joins_sharedDefinition hfind rfl
  · next hplural =>
    rw [Bool.not_eq_true] at hplural
    split
    · exact h.joins_definition hfind hplural _
    · intro w hw
      split
      · exact h.joins_definition hfind hplural _
      · intro owner howner
        refine ⟨fun _ => h.joins_definition hfind hplural _, fun binding _ _ => ⟨?_, fun hsite => ?_⟩⟩
        · exact Stored.forwarding_within (World.members_of_above hw (World.above_of_scopeOwner? howner) hc)
        · rw [h.eq_of_site hfind hsite, h.isShared] at hplural
          cases hplural

end Offers

/-! ### The shared value -/

/-- Whatever is not empty stays as it is. -/
def World.Maintains (w w' : World V E) : Prop := ∀ slot, w.cells slot ≠ .empty → w'.cells slot = w.cells slot

/-- The call is made among the components, in the context of the one that it is made at. -/
def Call.Among (members : ComponentId → Prop) : Call V → Prop
  | .resolve c _ _ _ _ => members c
  | .obtain owner _ context => members owner ∧ context.component = owner

section Definitions

variable (members : ComponentId → Prop) (catalog : Catalog V E) (entry : CatalogEntry V E)

/-- Each of the components keeps nothing for the entry but the shared value. -/
structure World.Joined (w : World V E) : Prop where
  components : (Conduct.sharing members catalog entry).holds w.components
  kept : ∀ {c object}, members c → w.cells (entry.slot c) = .ready object →
    w.cells (.shared entry.number) = .ready object

/-- Among the components, a call for the entry yields the shared value. -/
def Contract.sharing : Contract V E where
  asks request w := w.Joined members catalog entry ∧ request.Among members
  halts _ _ _ := True
  answers request w reply w' := w'.Joined members catalog entry ∧ w.Maintains w' ∧
    ∀ object, reply = .ok (some object) → request.site = entry.site → w'.cells (.shared entry.number) = .ready object

end Definitions

section Invariant

variable {members : ComponentId → Prop} {catalog : Catalog V E} {entry : CatalogEntry V E}
  {w w' w'' : World V E}

/-- Every world maintains what it has. -/
theorem World.Maintains.refl (w : World V E) : w.Maintains w := fun _ _ => rfl

/-- What is maintained twice is maintained. -/
theorem World.Maintains.trans (h : w.Maintains w') (h' : w'.Maintains w'') : w.Maintains w'' := by
  intro slot hslot
  have hsame := h slot hslot
  exact (h' slot (hsame ▸ hslot)).trans hsame

/-- Worlds that are alike maintain everything. -/
theorem World.Alike.maintains (h : w.Alike w') : w.Maintains w' := fun slot _ => congrFun h.cells slot

/-- Members stay joined where the cells stay as they are and only what may be stored is stored. -/
theorem World.Joined.of_cells (h : w.Joined members catalog entry)
    (hcomponents : (Conduct.sharing members catalog entry).holds w'.components) (hcells : w'.cells = w.cells) :
    w'.Joined members catalog entry where
  components := hcomponents
  kept hc hready := hcells ▸ h.kept hc (hcells ▸ hready)

/-- Members stay joined in a world that is alike. -/
theorem World.Joined.alike (h : w.Joined members catalog entry) (halike : w.Alike w') :
    w'.Joined members catalog entry := h.of_cells (halike.components ▸ h.components) halike.cells

/-- The shared value may be set if there is none yet, and nothing else may be kept for the entry. -/
theorem World.Joined.setCell (h : w.Joined members catalog entry) {slot : Slot} {cell : Cell V}
    (hshared : slot = .shared entry.number → ∀ object, w.cells (.shared entry.number) ≠ .ready object)
    (hslot : ∀ c object, members c → slot = entry.slot c → cell = .ready object →
      w.cells (.shared entry.number) = .ready object) : (w.setCell slot cell).Joined members catalog entry where
  components := h.components
  kept {c object} hc hready := by
    by_cases hsame : entry.slot c = slot
    · rw [← hsame, setCell_self] at hready
      rw [setCell_ne (by rw [← hsame]; exact Slot.noConfusion)]
      exact hslot c object hc hsame.symm hready
    · rw [setCell_ne hsame] at hready
      have hbefore := h.kept hc hready
      by_cases heq : Slot.shared entry.number = slot
      · exact absurd hbefore (hshared heq.symm object)
      · rwa [setCell_ne heq]

variable {answer : Call V → World V E → Run V E (Reply V)} {halts : Halt → Prop} (hstuck : halts .stuck)
include hstuck

/-- A value that is kept leaves the shared value what it is, if it is not kept for the entry or is the shared
value itself. -/
theorem World.Joined.keep_meets (h : w.Joined members catalog entry) {slot : Slot} {context : Context V}
    {create : Task V E (Except ResolveError (Object V))}
    (hcreate : ∀ w', w'.Joined members catalog entry →
      (create.run answer w').Meets halts fun result made =>
        made.Joined members catalog entry ∧ w'.Maintains made ∧ ∀ object, result = .ok object →
          ∀ c, members c → slot = entry.slot c → made.cells (.shared entry.number) = .ready object) :
    ((Task.keep slot context create).run answer w).Meets halts fun result w' =>
      w'.Joined members catalog entry ∧ w.Maintains w' ∧
        ∀ object, result = .ok object → w'.cells slot = .ready object := by
  apply Task.keep_meets
  · rintro object w' hready halike
    refine ⟨h.alike halike, halike.maintains, ?_⟩
    rintro other ⟨⟩
    rw [halike.cells]
    exact hready
  · exact fun w' _ halike => ⟨h.alike halike, halike.maintains, by simp⟩
  · exact fun _ _ _ => hstuck
  · intro hempty w' halike
    have hbegun : (w.setCell slot (.creating context.resolution.number)).Joined members catalog entry :=
      h.setCell (fun hslot => by simp [← hslot, hempty]) (by simp)
    refine (hcreate w' (hbegun.alike halike)).mono (fun _ => id) fun result made hmade => ?_
    obtain ⟨hjoined, hmaintains, hobject⟩ := hmade
    -- The cell is still being made, so if it is the shared one nothing is kept for the entry.
    have hcreating : made.cells slot = .creating context.resolution.number := by
      have hbefore : w'.cells slot = .creating context.resolution.number := by rw [halike.cells, setCell_self]
      exact (hmaintains slot (by simp [hbefore])).trans hbefore
    have hsettled (cell : Cell V) : w.Maintains (made.setCell slot cell) := by
      intro other hother
      have hne : other ≠ slot := by
        rintro rfl
        exact hother hempty
      have hsame : w'.cells other = w.cells other := by rw [halike.cells, setCell_ne hne]
      rw [setCell_ne hne]
      exact (hmaintains other (hsame ▸ hother)).trans hsame
    cases result with
    | ok object =>
      intro w'' hlast
      have hkept : (made.setCell slot (.ready object)).Joined members catalog entry := by
        refine hjoined.setCell (fun hslot => by simp [← hslot, hcreating]) ?_
        rintro c other hc hslot ⟨⟩
        exact hobject object rfl c hc hslot
      refine ⟨hkept.alike hlast, (hsettled _).trans hlast.maintains, ?_⟩
      rintro other ⟨⟩
      rw [hlast.cells, setCell_self]
    | error e =>
      exact ⟨hjoined.setCell (fun hslot => by simp [← hslot, hcreating]) (by simp), hsettled _, by simp⟩

end Invariant

/-! ### What calls lead to -/

section Walk

variable {members : ComponentId → Prop} {catalog : Catalog V E} {entry : CatalogEntry V E}
  {answer : Call V → World V E → Run V E (Reply V)} {halts : Halt → Prop} {w : World V E} {context : Context V}
  (hkept : (Contract.sharing members catalog entry).KeptBy answer halts) (hstuck : halts .stuck)
include hkept hstuck

omit hkept in
/-- A value that is shared is what its body makes. -/
theorem World.Joined.share_meets (h : w.Joined members catalog entry) {shared : EntryId} {body : Program V E}
    (hbody : ∀ {w' : World V E}, w'.Joined members catalog entry →
      ((body.toTask context).run answer w').Meets halts fun _ made =>
        made.Joined members catalog entry ∧ w'.Maintains made) :
    ((Task.keep (.shared shared) context
        ((body.toTask context).bind fun outcome => .done (outcome.mapError DefinitionError.toResolveError))).run
      answer w).Meets halts fun result w' =>
        w'.Joined members catalog entry ∧ w.Maintains w' ∧
          ∀ object, result = .ok object → w'.cells (.shared shared) = .ready object := by
  refine h.keep_meets hstuck fun w' hw' => Task.meets_bind (hbody hw') fun outcome made hmade => ?_
  exact ⟨hmade.1, hmade.2, fun _ _ _ _ hslot => nomatch hslot⟩

/-- Whatever a program does among the components leaves them sharing. -/
theorem Program.toTask_joined {program : Program V E} (hwithin : program.Within members entry context)
    (hcontext : members context.component) (h : w.Joined members catalog entry) :
    ((program.toTask context).run answer w).Meets halts fun _ w' =>
      w'.Joined members catalog entry ∧ w.Maintains w' := by
  induction program generalizing w with
  | done outcome => exact ⟨h, .refl w⟩
  | request key parameters next ih =>
    refine Task.meets_call (hkept _ w ⟨h, hcontext⟩) fun reply w' hreply => ?_
    exact (ih reply (hwithin reply) hreply.1).mono (fun _ => id) fun _ _ hend => ⟨hend.1, hreply.2.1.trans hend.2⟩
  | start c key parameters next ih =>
    have hentered := w.alike_entered
    refine Task.meets_call (hkept _ w.entered ⟨h.alike hentered, hwithin.1⟩) fun reply w' hreply => ?_
    exact (ih reply (hwithin.2 reply) hreply.1).mono (fun _ => id) fun _ _ hend =>
      ⟨hend.1, (hentered.maintains.trans hreply.2.1).trans hend.2⟩
  | forward owner key next ih =>
    unfold toTask Task.run
    dsimp only [id]
    split
    · refine Task.meets_call (hkept _ w ⟨h, hwithin.1, rfl⟩) fun reply w' hreply => ?_
      exact (ih _ (hwithin.2 _) hreply.1).mono (fun _ => id) fun _ _ hend => ⟨hend.1, hreply.2.1.trans hend.2⟩
    · exact ih _ (hwithin.2 _) h
  | share other body next ihbody ih =>
    obtain ⟨-, hwithin, hnext⟩ := hwithin
    refine Task.meets_bind (h.share_meets hstuck (ihbody hwithin)) fun result w' hresult => ?_
    exact (ih result (hnext result) hresult.1).mono (fun _ => id) fun _ _ hend => ⟨hend.1, hresult.2.1.trans hend.2⟩
  | make type value next ih =>
    have halike : w.Alike (w.allocate type value).2 := ⟨rfl, rfl, Nat.le_succ _⟩
    exact Run.Meets.mono (ih _ (hwithin _) (h.alike halike)) (fun _ => id) fun _ _ hend =>
      ⟨hend.1, halike.maintains.trans hend.2⟩
  | touch change next ih =>
    have halike : w.Alike { w with surroundings := change w.surroundings } := ⟨rfl, rfl, Nat.le_refl _⟩
    exact Run.Meets.mono (ih _ (hwithin _) (h.alike halike)) (fun _ => id) fun _ _ hend =>
      ⟨hend.1, halike.maintains.trans hend.2⟩
  | report event next ih =>
    have halike := w.alike_emit context.resolution.logger event
    exact Run.Meets.mono (ih hwithin (h.alike halike)) (fun _ => id) fun _ _ hend =>
      ⟨hend.1, halike.maintains.trans hend.2⟩
  | meet gate next ih => exact ih hwithin h

/-- What a stored binding for the entry makes is the shared value. -/
theorem Stored.create_joined {stored : Stored V E} (hbinding : stored.binding.Joins members entry)
    (hcontext : members context.component) (h : w.Joined members catalog entry) :
    ((stored.create context).run answer w).Meets halts fun result w' =>
      w'.Joined members catalog entry ∧ w.Maintains w' ∧
        (stored.binding.key.site = entry.site → ∀ object, result = .ok object →
          w'.cells (.shared entry.number) = .ready object) := by
  have hwithin := hbinding.within context
  by_cases hsite : stored.binding.key.site = entry.site
  · obtain ⟨-, -, key, hdefinition⟩ := hbinding.shares hsite
    rw [hdefinition] at hwithin
    have hshared : (((entry.sharedDefinition key context).toTask context).run answer w).Meets halts fun outcome w' =>
        w'.Joined members catalog entry ∧ w.Maintains w' ∧
          ∀ object, outcome = .ok object → w'.cells (.shared entry.number) = .ready object := by
      refine Task.meets_bind (h.share_meets hstuck (Program.toTask_joined hkept hstuck hwithin.2.1 hcontext))
        fun result w' hresult => ?_
      cases result with
      | error e => exact ⟨hresult.1, hresult.2.1, by simp⟩
      | ok object =>
        refine ⟨hresult.1, hresult.2.1, ?_⟩
        rintro other ⟨⟩
        exact hresult.2.2 object rfl
    unfold create
    rw [hdefinition]
    refine Task.meets_bind hshared fun outcome w' houtcome => ⟨houtcome.1, houtcome.2.1, fun _ object hobject => ?_⟩
    cases outcome with
    | error cause => cases hobject
    | ok other =>
      obtain rfl := Except.ok.inj hobject
      exact houtcome.2.2 other rfl
  · refine Task.meets_bind (Program.toTask_joined hkept hstuck hwithin hcontext h) fun outcome w' houtcome => ?_
    exact ⟨houtcome.1, houtcome.2, fun hother => absurd hother hsite⟩

variable [Hashed V]

/-- What a stored binding for the entry yields is the shared value. -/
theorem Stored.obtain_joined {stored : Stored V E} (howner : members stored.owner)
    (hbinding : stored.binding.Joins members entry) (hcontext : context.component = stored.owner)
    (h : w.Joined members catalog entry) :
    ((stored.obtain context).run answer w).Meets halts fun result w' =>
      w'.Joined members catalog entry ∧ w.Maintains w' ∧
        (stored.binding.key.site = entry.site → ∀ object, result = .ok object →
          w'.cells (.shared entry.number) = .ready object) := by
  have hcreate (w' : World V E) (hw' : w'.Joined members catalog entry) :=
    create_joined hkept hstuck hbinding (hcontext ▸ howner) hw'
  apply obtain_meets
  · exact fun _ => hcreate w h
  · exact fun _ => ⟨h, .refl w, fun _ => by simp⟩
  · intro slot w' hslot halike
    refine ((h.alike halike).keep_meets hstuck fun made hmade => ?_).mono (fun _ => id) fun result w'' hresult => ?_
    · refine (hcreate made hmade).mono (fun _ => id) fun result after hafter => ⟨hafter.1, hafter.2.1, ?_⟩
      rintro object rfl
      intro c _ hentry
      obtain ⟨-, hidentity⟩ := eq_of_slot?_entry (hentry ▸ hslot)
      exact hafter.2.2 (congrArg KeyId.site hidentity) object rfl
    · refine ⟨hresult.1, halike.maintains.trans hresult.2.1, fun hsite object hobject => ?_⟩
      obtain ⟨hrequired, hkind, -⟩ := hbinding.shares hsite
      have hentry : slot = entry.slot stored.owner := by
        have hidentity : stored.binding.key.identity = entry.keyId := by
          simp [Key.identity, CatalogEntry.keyId, hsite, hrequired]
        simpa [slot?, hkind, hidentity, CatalogEntry.slot] using hslot.symm
      exact hresult.1.kept howner (hentry ▸ hresult.2.2 object hobject)

end Walk

section Calls

variable {members : ComponentId → Prop} {catalog : Catalog V E} {entry : CatalogEntry V E}
  {w : World V E} (hoffers : catalog.Offers members entry)
include hoffers

/-- A key is located at what one of the components stores for it. -/
theorem Resolution.locate_joined {c : ComponentId} (hc : members c) (h : w.Joined members catalog entry)
    (resolution : Resolution) (key : Key) (answer : Call V → World V E → Run V E (Reply V)) (halts : Halt → Prop) :
    ((locate resolution key c).run answer w).Meets halts fun reply w' =>
      w'.Joined members catalog entry ∧ w'.cells = w.cells ∧ ∀ stored, reply = .ok (some stored) →
        members stored.owner ∧ stored.binding.Joins members entry ∧ stored.binding.key.site = key.site := by
  have hstable : (Conduct.sharing members catalog entry).Stable := Conduct.stable_sharing
  have hsearch : (search resolution key c).Yields (.sharing members catalog entry) _ [] := search_yields hstable c
  refine Task.meets_bind (hsearch.meets (search_acts c) h.components answer halts).with_run
    fun found between hbetween => ?_
  obtain ⟨⟨hserves, hholds, hcells, -⟩, hrun⟩ := hbetween
  have hjoined : between.Joined members catalog entry := h.of_cells hholds hcells
  cases found with
  | none =>
    have hsynthesize : (synthesize resolution key c).Yields (.sharing members catalog entry) _ [] :=
      synthesize_yields hstable (hoffers.suppliedAt hc key)
    refine Run.Meets.mono (hsynthesize.meets (synthesize_acts c) hholds answer halts) (fun _ => id)
      fun reply w' hreply => ?_
    obtain ⟨hstored, hholds', hcells', -⟩ := hreply
    refine ⟨hjoined.of_cells hholds' hcells', hcells'.trans hcells, fun stored hreply => ?_⟩
    obtain ⟨rfl, hstores, hsite⟩ := hstored stored hreply
    exact ⟨hc, hstores hc, hsite⟩
  | some stored =>
    obtain ⟨other, hother, -⟩ := search_run answer resolution c key w
    have hfound : some stored = w.found? key c := (Prod.mk.inj (Except.ok.inj (hrun.symm.trans hother))).1
    have howner := World.members_of_above h.components (World.found?_above (.refl w) hfound.symm).1 hc
    obtain ⟨hstores, hsite⟩ := hserves stored rfl
    refine ⟨hjoined, hcells, ?_⟩
    rintro _ ⟨⟩
    exact ⟨howner, hstores howner, hsite⟩

variable [Hashed V] {answer : Call V → World V E → Run V E (Reply V)} {halts : Halt → Prop}

/-- Calls among the components lead to no others, and keep the promises. -/
theorem Call.body_joined (hkept : (Contract.sharing members catalog entry).KeptBy answer halts)
    (hstuck : halts .stuck) {request : Call V}
    (hasks : (Contract.sharing members catalog entry).asks request w) :
    (request.body.run answer w).Meets halts ((Contract.sharing members catalog entry).answers request w) := by
  obtain ⟨h, hamong⟩ := hasks
  cases request with
  | resolve c path resolution key parameters =>
    apply Resolution.resolve_meets fun reply between =>
      between.Joined members catalog entry ∧ w.Maintains between ∧ ∀ stored, reply = .ok (some stored) →
        members stored.owner ∧ stored.binding.Joins members entry ∧ stored.binding.key.site = key.site
    · exact fun visited w' _ _ halike => ⟨h.alike halike, halike.maintains, by rintro object ⟨⟩⟩
    · intro w' _ halike
      refine (Resolution.locate_joined hoffers hamong (h.alike halike) _ _ _ _).mono (fun _ => id)
        fun reply between hlocated => ⟨hlocated.1, fun slot _ => ?_, hlocated.2.2⟩
      rw [hlocated.2.1, halike.cells]
    · exact fun e between w' hlocated halike =>
        ⟨hlocated.1.alike halike, hlocated.2.1.trans halike.maintains, by rintro object ⟨⟩⟩
    · exact fun between w' hlocated halike =>
        ⟨hlocated.1.alike halike, hlocated.2.1.trans halike.maintains, by split <;> rintro object ⟨⟩⟩
    · intro stored between _ hlocated
      obtain ⟨hjoined, hmaintains, hstored⟩ := hlocated
      obtain ⟨howner, hbinding, hsite⟩ := hstored stored rfl
      refine (Stored.obtain_joined hkept hstuck howner hbinding rfl hjoined).mono (fun _ => id)
        fun result made hresult w' halike => ?_
      refine ⟨hresult.1.alike halike, (hmaintains.trans hresult.2.1).trans halike.maintains, fun object hobject hkey => ?_⟩
      cases result with
      | error e => cases hobject
      | ok made =>
        obtain rfl := Option.some.inj (Except.ok.inj hobject)
        rw [halike.cells]
        exact hresult.2.2 (hsite.trans hkey) made rfl
  | obtain owner key context =>
    obtain ⟨howner, hcontext⟩ := hamong
    unfold body
    rw [Task.run_read]
    cases hfound : w.binding? owner key.identity with
    | none => exact ⟨h, .refl w, by rintro object ⟨⟩⟩
    | some binding =>
      obtain ⟨component, hcomponent, hmem, hkey⟩ := World.mem_of_binding? hfound
      let stored : Stored V E := ⟨owner, binding⟩
      have hstored : members stored.owner := howner
      have hbinding := (h.components owner component howner hcomponent).bindings binding hmem
      refine Task.meets_bind (Stored.obtain_joined hkept hstuck hstored hbinding hcontext h)
        fun result w' hresult => ?_
      cases result with
      | error e => exact ⟨hresult.1, hresult.2.1, by rintro object ⟨⟩⟩
      | ok object =>
        refine ⟨hresult.1, hresult.2.1, ?_⟩
        rintro _ ⟨⟩ hrequest
        exact hresult.2.2 ((congrArg KeyId.site hkey).trans hrequest) object rfl

/-- What a call among the components runs is the definition of a binding that joins them. -/
theorem Call.visit_joins (h : w.Joined members catalog entry) {request : Call V} (hamong : request.Among members)
    {visit : Visit V E} (hvisit : request.visit? w = some visit) : visit.stored.binding.Joins members entry := by
  cases Visit.answers_of_visit? hvisit with
  | @located c path resolution key parameters found _ hlocate _ _ =>
    have hemitted := h.alike (w.alike_emit resolution.logger (.lookup key))
    have hlocated := (Resolution.locate_joined hoffers hamong hemitted resolution key (Call.answer 0)
      fun _ => True).of_ok hlocate
    obtain ⟨-, hbinding, -⟩ := hlocated.2.2 visit.stored rfl
    exact hbinding
  | named hfound hstored _ _ =>
    obtain ⟨component, hcomponent, hmem, -⟩ := World.mem_of_binding? hfound
    rw [hstored]
    exact (h.components _ component hamong.1 hcomponent).bindings _ hmem

/-- Calls among the components keep the promises, however deep they go. -/
theorem Contract.sharing_kept (depth : Nat) :
    (Contract.sharing members catalog entry).KeptBy (Call.answer depth) fun _ => True := by
  induction depth with
  | zero => exact fun _ _ _ => trivial
  | succ depth ih => exact fun request w hasks => Call.body_joined hoffers ih trivial hasks

/-- All calls that are taken up within a call among the components are among them. -/
theorem Call.among_of_called {depth : Nat} {outer request : Call V} {u v : World V E}
    (hu : u.Joined members catalog entry) (houter : outer.Among members)
    (hcalled : .called request v ∈ Call.journal depth outer u) :
    v.Joined members catalog entry ∧ request.Among members :=
  Contract.asks_of_called (Contract.sharing_kept hoffers)
    (fun _ _ _ hasks hkept => Call.body_joined hoffers hkept rfl hasks) ⟨hu, houter⟩ hcalled

end Calls

end Injection
