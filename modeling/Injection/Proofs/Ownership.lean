import Injection.Proofs.Allotment
import Injection.Proofs.Attempts
import Injection.Proofs.Lifespan

/-!
# Scoped values belong to the owner of their scope

The values of a scoped type are kept in the cells of the components that own the scope, whoever asks
for them. They are made in the owner's context, and making the object is the last thing that a
definition does, so an object that is kept is younger than all that were kept before. The promises
of calls carry this through everything else that definitions may do in between.
-/

namespace Injection

variable {V E α : Type}

/-- Values that were kept are still kept, and object numbers are not given twice. -/
structure World.Retains (w w' : World V E) : Prop where
  nextObject : w.nextObject ≤ w'.nextObject
  ready : ∀ slot object, w.cells slot = .ready object → w'.cells slot = .ready object

namespace World

variable {w w' w'' : World V E}

/-- Every world keeps what it has. -/
theorem Retains.refl (w : World V E) : w.Retains w := ⟨Nat.le_refl _, fun _ _ => id⟩

/-- What is kept from one world to the next and on to another is kept throughout. -/
theorem Retains.trans (h : w.Retains w') (h' : w'.Retains w'') : w.Retains w'' :=
  ⟨Nat.le_trans h.nextObject h'.nextObject, fun slot object hready => h'.ready slot object (h.ready slot object hready)⟩

/-- Where the cells stay as they are and numbers only go up, values are kept. -/
theorem Retains.of_cells (hcells : w'.cells = w.cells) (hobject : w.nextObject ≤ w'.nextObject) : w.Retains w' :=
  ⟨hobject, fun _ _ hready => hcells ▸ hready⟩

/-- Values are kept between worlds that are alike. -/
theorem Alike.retains (h : w.Alike w') : w.Retains w' := .of_cells h.cells h.nextObject

/-- Only a value is lost that was in the cell. -/
theorem retains_setCell {slot : Slot} (h : ∀ object, w.cells slot ≠ .ready object) (cell : Cell V) :
    w.Retains (w.setCell slot cell) := by
  refine ⟨Nat.le_refl _, fun other object hready => ?_⟩
  by_cases hslot : other = slot
  · exact absurd (hslot ▸ hready) (h object)
  · rw [setCell_ne hslot]
    exact hready

end World

/-! ### Custody -/

section Custody

variable (base : World V E) (entry : CatalogEntry V E) (scope : ScopeTag)

/-- The cell that a component keeps its value of an entry in. -/
def CatalogEntry.slot (entry : CatalogEntry V E) (owner : ComponentId) : Slot := .single owner entry.keyId

/-- An object is younger than all values of an entry that are kept. -/
def World.Youngest (w : World V E) (entry : CatalogEntry V E) (object : Object V) : Prop :=
  object.number < w.nextObject ∧
    ∀ owner other, w.cells (entry.slot owner) = .ready other → other.number < object.number

/-- Components store what is allotted to them, and keep values of the entry that are their own, not the
same as those of other components. -/
structure World.Custody (w : World V E) : Prop where
  components : (Conduct.allotting base entry scope).holds w.components
  numbered : ∀ owner object, w.cells (entry.slot owner) = .ready object → object.number < w.nextObject
  distinct : ∀ owner owner' object object', w.cells (entry.slot owner) = .ready object →
    w.cells (entry.slot owner') = .ready object' → owner ≠ owner' → object.number ≠ object'.number

/-- What a request at a component comes to: an object of the entry is the one that the owner of the
scope keeps. -/
def World.Delivers (w : World V E) (c : ComponentId) (site : Site) (object : Object V) : Prop :=
  site = entry.site → ∃ owner, base.scopeOwner? c scope = some owner ∧ w.cells (entry.slot owner) = .ready object

/-- The component that a call is made at. -/
def Call.component : Call V → ComponentId
  | .resolve c _ _ _ _ => c
  | .obtain owner _ _ => owner

/-- Calls leave values in the custody of their owners, and yield objects of the entry from there.
Whoever is passed on to a component has its context. -/
def Contract.custody : Contract V E where
  asks request w := base.Custody entry scope w ∧
    match request with
    | .resolve _ _ _ _ _ => True
    | .obtain owner _ context => context.component = owner
  halts _ _ _ := True
  answers request w reply w' := base.Custody entry scope w' ∧ w.Retains w' ∧
    ∀ object, reply = .ok (some object) → base.Delivers entry scope w' request.component request.site object

variable {base entry scope} {w w' : World V E}

/-- Custody goes on where the cells stay as they are, numbers only go up and components store what is allotted to
them. -/
theorem World.Custody.of_cells (h : base.Custody entry scope w)
    (hcomponents : (Conduct.allotting base entry scope).holds w'.components)
    (hcells : w'.cells = w.cells) (hobject : w.nextObject ≤ w'.nextObject) : base.Custody entry scope w' where
  components := hcomponents
  numbered owner object hready := Nat.lt_of_lt_of_le (h.numbered owner object (hcells ▸ hready)) hobject
  distinct owner owner' object object' hready hready' :=
    h.distinct owner owner' object object' (hcells ▸ hready) (hcells ▸ hready')

/-- Custody goes on in a world that is alike. -/
theorem World.Custody.alike (h : base.Custody entry scope w) (halike : w.Alike w') : base.Custody entry scope w' :=
  h.of_cells (halike.components ▸ h.components) halike.cells halike.nextObject

/-- A value may be kept for a component that is younger than all others. -/
theorem World.Custody.setCell (h : base.Custody entry scope w) {slot : Slot} {cell : Cell V}
    (hcell : ∀ owner object, slot = entry.slot owner → cell = .ready object → w.Youngest entry object) :
    base.Custody entry scope (w.setCell slot cell) := by
  have hcases (owner : ComponentId) (object : Object V)
      (hready : (w.setCell slot cell).cells (entry.slot owner) = .ready object) :
      (slot = entry.slot owner ∧ w.Youngest entry object) ∨
        slot ≠ entry.slot owner ∧ w.cells (entry.slot owner) = .ready object := by
    by_cases hslot : slot = entry.slot owner
    · subst hslot
      rw [setCell_self] at hready
      exact Or.inl ⟨rfl, hcell owner object rfl hready⟩
    · rw [setCell_ne (Ne.symm hslot)] at hready
      exact Or.inr ⟨hslot, hready⟩
  refine ⟨h.components, fun owner object hready => ?_, ?_⟩
  · rcases hcases owner object hready with ⟨-, hyoung⟩ | ⟨-, hbefore⟩
    · exact hyoung.1
    · exact h.numbered owner object hbefore
  · intro owner owner' object object' hready hready' hne
    rcases hcases owner object hready with ⟨hslot, hyoung⟩ | ⟨-, hbefore⟩ <;>
      rcases hcases owner' object' hready' with ⟨hslot', hyoung'⟩ | ⟨-, hbefore'⟩
    · exact absurd (Slot.single.inj (hslot.symm.trans hslot')).1 hne
    · exact Nat.ne_of_gt (hyoung.2 owner' object' hbefore')
    · exact Nat.ne_of_lt (hyoung'.2 owner object hbefore)
    · exact h.distinct owner owner' object object' hbefore hbefore' hne

/-- A value that is kept stays in custody, if making it leaves custody as it is and an object of the
entry is made at last. -/
theorem World.Custody.keep_meets {answer : Call V → World V E → Run V E (Reply V)} {halts : Halt → Prop}
    (hstuck : halts .stuck) (h : base.Custody entry scope w) {slot : Slot} {context : Context V}
    {create : Task V E (Except ResolveError (Object V))}
    (hcreate : ∀ w', base.Custody entry scope w' →
      (create.run answer w').Meets halts fun result made =>
        base.Custody entry scope made ∧ w'.Retains made ∧ ∀ owner object, slot = entry.slot owner →
          result = .ok object → made.Youngest entry object) :
    ((Task.keep slot context create).run answer w).Meets halts fun result w' =>
      base.Custody entry scope w' ∧ w.Retains w' ∧ ∀ object, result = .ok object → w'.cells slot = .ready object := by
  apply Task.keep_meets
  · rintro object w' hready halike
    refine ⟨h.alike halike, halike.retains, ?_⟩
    rintro other ⟨⟩
    rw [halike.cells]
    exact hready
  · intro w' _ halike
    exact ⟨h.alike halike, halike.retains, by simp⟩
  · exact fun _ _ _ => hstuck
  · intro hempty w' halike
    have hbegun : base.Custody entry scope (w.setCell slot (.creating context.resolution.number)) :=
      h.setCell (by simp)
    have hretains : w.Retains w' :=
      (World.retains_setCell (by simp [hempty]) _).trans halike.retains
    refine (hcreate w' (hbegun.alike halike)).mono (fun _ => id) fun result made hmade => ?_
    obtain ⟨hcustody, hretains', hobject⟩ := hmade
    -- The cell was empty, so whatever it holds by now was not kept before.
    have hsettled (cell : Cell V) : w.Retains (made.setCell slot cell) := by
      refine ⟨(hretains.trans hretains').nextObject, fun other object hready => ?_⟩
      have hne : other ≠ slot := by
        rintro rfl
        simp [hempty] at hready
      rw [World.setCell_ne hne]
      exact (hretains.trans hretains').ready other object hready
    cases result with
    | ok object =>
      intro w'' hlast
      have hkept : base.Custody entry scope (made.setCell slot (.ready object)) :=
        hcustody.setCell fun owner other hslot hother => by
          obtain rfl := Cell.ready.inj hother
          exact hobject owner object hslot rfl
      refine ⟨hkept.alike hlast, (hsettled _).trans hlast.retains, ?_⟩
      rintro other ⟨⟩
      rw [hlast.cells, World.setCell_self]
    | error e => exact ⟨hcustody.setCell (by simp), hsettled _, by simp⟩

/-- Whatever is kept in a cell of an entry has the owner and the identity of the cell. -/
theorem Stored.eq_of_slot?_entry [Hashed V] {stored : Stored V E} {context : Context V} {owner : ComponentId}
    (h : stored.slot? context = some (entry.slot owner)) :
    stored.owner = owner ∧ stored.binding.key.identity = entry.keyId := by
  unfold slot? at h
  split at h
  · cases h
  · exact Slot.single.inj (Option.some.inj h)
  · simp [CatalogEntry.slot] at h

/-- An object that a query accepts is the one that it was answered with. -/
theorem Query.eq_of_accept {q : Query V} {reply : Reply V} {object : Object V}
    (h : q.accept reply = .ok (some object)) : reply = .ok (some object) := by
  unfold accept at h
  split at h
  · simp at h
  · split at h <;> simp at h
  · split at h
    · exact h
    all_goals
      split at h
      · exact h
      · simp at h

/-! ### What calls lead to -/

variable (base entry scope) in
/-- A program leaves values in custody when it ends with an outcome; and an object that it makes at
last is younger than all that are kept. -/
structure Program.Leaves (program : Program V E) (w : World V E) (outcome : Outcome V) (w' : World V E) : Prop where
  custody : base.Custody entry scope w'
  retains : w.Retains w'
  youngest : program.MakesLast → ∀ object, outcome = .ok object →
    w.nextObject ≤ object.number ∧ w'.Youngest entry object

/-- What is done before the last part of a program only adds to what the part does. -/
theorem Program.Leaves.after {program part : Program V E} {between : World V E} {outcome : Outcome V}
    (h : part.Leaves base entry scope between outcome w') (hbetween : w.Retains between)
    (hpart : program.MakesLast → part.MakesLast) : program.Leaves base entry scope w outcome w' where
  custody := h.custody
  retains := hbetween.trans h.retains
  youngest hmakes object hobject := by
    obtain ⟨hnumber, hyoungest⟩ := h.youngest (hpart hmakes) object hobject
    exact ⟨Nat.le_trans hbetween.nextObject hnumber, hyoungest⟩

section Walk

variable {answer : Call V → World V E → Run V E (Reply V)} {halts : Halt → Prop}
  (hkept : (Contract.custody base entry scope).KeptBy answer halts) (hstuck : halts .stuck)
include hkept hstuck

/-- Whatever a program does leaves values in custody. -/
theorem Program.toTask_custody {context : Context V} {program : Program V E}
    (h : base.Custody entry scope w) :
    ((program.toTask context).run answer w).Meets halts
      (program.Leaves base entry scope w) := by
  induction program generalizing w with
  | done outcome => exact ⟨h, .refl w, fun hmakes object hobject => absurd hobject (hmakes object)⟩
  | request key parameters next ih =>
    refine Task.meets_call (hkept _ w ⟨h, trivial⟩) fun reply w' hreply => ?_
    exact (ih reply hreply.1).mono (fun _ => id) fun outcome w'' hleaves =>
      hleaves.after hreply.2.1 fun hmakes => hmakes reply
  | start component key parameters next ih =>
    let entered : World V E := { w with nextResolution := w.nextResolution + 1 }
    have hentered : w.Alike entered := ⟨rfl, rfl, Nat.le_refl _⟩
    refine Task.meets_call (hkept _ entered ⟨h.alike hentered, trivial⟩) fun reply w' hreply => ?_
    exact (ih reply hreply.1).mono (fun _ => id) fun outcome w'' hleaves =>
      hleaves.after (hentered.retains.trans hreply.2.1) fun hmakes => hmakes reply
  | forward owner key next ih =>
    unfold toTask Task.run
    dsimp only [id]
    split
    · refine Task.meets_call (hkept _ w ⟨h, rfl⟩) fun reply w' hreply => ?_
      exact (ih _ hreply.1).mono (fun _ => id) fun outcome w'' hleaves =>
        hleaves.after hreply.2.1 fun hmakes => hmakes _
    · exact (ih _ h).mono (fun _ => id) fun outcome w'' hleaves => hleaves.after (.refl w) fun hmakes => hmakes _
  | share shared body next ihbody ih =>
    refine Task.meets_bind (h.keep_meets hstuck fun w' hw' => ?_) fun result w' hresult => ?_
    · refine Task.meets_bind (ihbody hw') fun outcome made hleaves => ?_
      exact ⟨hleaves.custody, hleaves.retains, fun _ _ hslot => by simp [CatalogEntry.slot] at hslot⟩
    exact (ih result hresult.1).mono (fun _ => id) fun outcome w'' hleaves =>
      hleaves.after hresult.2.1 fun hmakes => hmakes result
  | make type value next ih =>
    have hmade : w.Alike (w.allocate type value).2 := ⟨rfl, rfl, Nat.le_succ _⟩
    by_cases hlast : ∀ object, next object = .done (.ok object)
    · unfold toTask Task.run
      dsimp only
      rw [hlast]
      refine ⟨h.alike hmade, hmade.retains, ?_⟩
      rintro - object ⟨⟩
      exact ⟨Nat.le_refl _, Nat.lt_succ_self _, fun owner other hready => h.numbered owner other hready⟩
    · exact Run.Meets.mono (ih (w.allocate type value).1 (h.alike hmade)) (fun _ => id)
        fun outcome w' hleaves => hleaves.after hmade.retains fun hmakes => hmakes.resolve_left hlast _
  | touch change next ih =>
    have halike : w.Alike { w with surroundings := change w.surroundings } := ⟨rfl, rfl, Nat.le_refl _⟩
    exact Run.Meets.mono (ih w.surroundings (h.alike halike)) (fun _ => id) fun outcome w' hleaves =>
      hleaves.after halike.retains fun hmakes => hmakes _
  | report event next ih =>
    have halike := w.alike_emit context.resolution.logger event
    exact Run.Meets.mono (ih (h.alike halike)) (fun _ => id) fun outcome w' hleaves =>
      hleaves.after halike.retains id
  | meet gate next ih => exact (ih h).mono (fun _ => id) fun outcome w' hleaves => hleaves.after (.refl w) id

omit hstuck in
/-- Whoever is passed on to the owner of the scope yields the owner's value. -/
theorem Stored.forwarding_custody {stored : Stored V E} {context : Context V} {owner : ComponentId}
    {other : Binding V E} (h : base.Custody entry scope w) (howner : base.scopeOwner? stored.owner scope = some owner)
    (hother : other.key.identity = entry.keyId)
    (hdefinition : stored.binding.definition = (Stored.forwarding ⟨owner, other⟩).definition) (site : Site) :
    ((stored.create context).run answer w).Meets halts fun result w' =>
      base.Custody entry scope w' ∧ w.Retains w' ∧
        ∀ object, result = .ok object → base.Delivers entry scope w' stored.owner site object := by
  unfold Stored.create
  rw [hdefinition]
  change Run.Meets (Task.run _ (Task.bind (if w.isAlive owner then _ else _) _) w) _ _
  split
  · refine Task.meets_call (hkept _ w ⟨h, rfl⟩) fun reply w' hreply => ?_
    obtain ⟨hcustody, hretains, hdelivers⟩ := hreply
    match reply, hdelivers with
    | .error e, _ => exact ⟨hcustody, hretains, by rintro object ⟨⟩⟩
    | .ok none, _ => exact ⟨hcustody, hretains, by rintro object ⟨⟩⟩
    | .ok (some given), hdelivers =>
      refine ⟨hcustody, hretains, ?_⟩
      rintro _ ⟨⟩ -
      obtain ⟨keeper, hkeeper, hready⟩ := hdelivers given rfl (congrArg KeyId.site hother)
      have howns := World.scopeOwner?_of_hasScope (World.hasScope_of_scopeOwner? howner)
      obtain rfl : keeper = owner := Option.some.inj (hkeeper.symm.trans howns)
      exact ⟨keeper, howner, hready⟩
  · exact ⟨h, .refl w, by rintro object ⟨⟩⟩

variable [Hashed V]

/-- What is made for the cell of an entry is younger than all values that are kept. -/
theorem Stored.create_custody {stored : Stored V E} {context : Context V} (h : base.Custody entry scope w)
    (hconstructs : ∀ args, (entry.construct args).MakesLast)
    (hdefinition : ∀ owner, stored.slot? context = some (entry.slot owner) →
      stored.binding.definition = entry.definition stored.binding.key) :
    ((stored.create context).run answer w).Meets halts fun result made =>
      base.Custody entry scope made ∧ w.Retains made ∧ ∀ owner object,
        stored.slot? context = some (entry.slot owner) → result = .ok object → made.Youngest entry object := by
  refine Task.meets_bind (Program.toTask_custody hkept hstuck h) fun outcome made hleaves => ?_
  refine ⟨hleaves.custody, hleaves.retains, fun owner object hslot hobject => ?_⟩
  cases outcome with
  | error e => simp [Except.mapError] at hobject
  | ok given =>
    obtain rfl := Except.ok.inj hobject
    rw [hdefinition owner hslot] at hleaves
    have hlast := CatalogEntry.definition_makesLast hconstructs stored.binding.key context
    exact (hleaves.youngest hlast given rfl).2

/-- What is stored yields the value of the scope's owner. -/
theorem Stored.obtain_custody {stored : Stored V E} {context : Context V} (h : base.Custody entry scope w)
    (hconstructs : ∀ args, (entry.construct args).MakesLast)
    (hstores : (Conduct.allotting base entry scope).stores stored.owner stored.binding) :
    ((stored.obtain context).run answer w).Meets halts fun result w' =>
      base.Custody entry scope w' ∧ w.Retains w' ∧ ∀ object, result = .ok object →
        base.Delivers entry scope w' stored.owner stored.binding.key.site object := by
  -- Of what is stored for the entry, only the owner's own binding has a cell.
  have hallotted (slot : Slot) (hslot : stored.slot? context = some slot)
      (hsite : stored.binding.key.site = entry.site) :
      slot = entry.slot stored.owner ∧ base.hasScope stored.owner scope = true ∧
        stored.binding.definition = entry.definition stored.binding.key := by
    have hallotment := hstores.2 hsite
    rcases hallotment.cases with ⟨hhas, hsingle, hdefinition⟩ | ⟨owner, other, -, -, hfactory, -⟩
    · simp only [slot?, hsingle, hallotment.1, Option.some.injEq] at hslot
      exact ⟨hslot.symm, hhas, hdefinition⟩
    · simp [slot?, hfactory] at hslot
  have hdefinition (owner : ComponentId) (hslot : stored.slot? context = some (entry.slot owner)) :
      stored.binding.definition = entry.definition stored.binding.key :=
    (hallotted _ hslot (congrArg KeyId.site (eq_of_slot?_entry hslot).2)).2.2
  have hcreate (w : World V E) (h : base.Custody entry scope w) :=
    Stored.create_custody hkept hstuck h hconstructs hdefinition
  apply Stored.obtain_meets
  · intro hslot
    by_cases hsite : stored.binding.key.site = entry.site
    · rcases (hstores.2 hsite).cases with ⟨-, hsingle, -⟩ | ⟨owner, other, howner, hother, -, hforwards⟩
      · simp [slot?, hsingle] at hslot
      · exact Stored.forwarding_custody hkept h howner hother hforwards _
    · exact (hcreate w h).mono (fun _ => id) fun result w' hresult =>
        ⟨hresult.1, hresult.2.1, fun object _ heq => absurd heq hsite⟩
  · exact fun _ => ⟨h, .refl w, by rintro object ⟨⟩⟩
  · intro slot w' hslot halike
    simp only [hslot, Option.some.injEq] at hcreate
    refine ((h.alike halike).keep_meets hstuck hcreate).mono (fun _ => id) fun result w'' hresult => ?_
    obtain ⟨hcustody, hretains, hready⟩ := hresult
    refine ⟨hcustody, halike.retains.trans hretains, fun object hobject hsite => ?_⟩
    obtain ⟨rfl, hhas, -⟩ := hallotted slot hslot hsite
    exact ⟨stored.owner, World.scopeOwner?_of_hasScope hhas, hready object hobject⟩

end Walk

section Calls

variable [Hashed V] {catalog : Catalog V E} {c : ComponentId} {key : Key} {resolution : Resolution}
  (hallots : base.Allots catalog entry scope)
include hallots

/-- A key is located at what is stored for it in the component or above. -/
theorem Resolution.locate_custody (h : base.Custody entry scope w) (answer : Call V → World V E → Run V E (Reply V))
    (halts : Halt → Prop) :
    ((locate resolution key c).run answer w).Meets halts fun reply w' =>
      base.Custody entry scope w' ∧ w.Retains w' ∧ ∀ stored, reply = .ok (some stored) →
        (Conduct.allotting base entry scope).stores stored.owner stored.binding ∧
          stored.binding.key.site = key.site ∧ base.Above c stored.owner := by
  have hsearch : (search resolution key c).Yields (.allotting base entry scope) _ [] :=
    search_yields hallots.lawful.toStable c
  refine Task.meets_bind (hsearch.meets (search_acts c) h.components answer _).with_run
    fun found between hbetween => ?_
  obtain ⟨⟨hserves, hholds, hcells, hobjects⟩, hrun⟩ := hbetween
  have hcustody : base.Custody entry scope between := h.of_cells hholds hcells hobjects
  have hretains : w.Retains between := .of_cells hcells hobjects
  cases found with
  | none =>
    have hsynthesize : (synthesize resolution key c).Yields (.allotting base entry scope) _ [] :=
      synthesize_yields hallots.lawful.toStable hallots.lawful.supplied
    refine Run.Meets.mono (hsynthesize.meets (synthesize_acts c) hcustody.components answer _) (fun _ => id)
      fun reply w' hreply => ?_
    obtain ⟨hstored, hholds', hcells', hobjects'⟩ := hreply
    refine ⟨hcustody.of_cells hholds' hcells' hobjects', hretains.trans (.of_cells hcells' hobjects'), ?_⟩
    intro stored hreply
    obtain ⟨rfl, hstores, hsite⟩ := hstored stored hreply
    exact ⟨hstores, hsite, .refl⟩
  | some stored =>
    obtain ⟨other, hother, -⟩ := search_run answer resolution c key w
    have hfound : some stored = w.found? key c := (Prod.mk.inj (Except.ok.inj (hrun.symm.trans hother))).1
    have hgrows : base.Grows w := World.Grows.trans h.components.1 (.of_components rfl)
    obtain ⟨hstores, hsite⟩ := hserves stored rfl
    refine ⟨hcustody, hretains, ?_⟩
    rintro _ ⟨⟩
    exact ⟨hstores, hsite, (World.found?_above hgrows hfound.symm).1⟩

variable (hpristine : base.Pristine)
include hpristine

/-- Resolving a key leaves values in custody, and yields objects of the entry from there. -/
theorem Resolution.resolve_custody {answer : Call V → World V E → Run V E (Reply V)} {halts : Halt → Prop}
    (hkept : (Contract.custody base entry scope).KeptBy answer halts) (hstuck : halts .stuck)
    (h : base.Custody entry scope w) (path : List Key) (parameters : Parameters V) :
    ((resolve c path resolution key parameters).run answer w).Meets halts fun reply w' =>
      base.Custody entry scope w' ∧ w.Retains w' ∧
        ∀ object, reply = .ok (some object) → base.Delivers entry scope w' c key.site object := by
  apply Resolution.resolve_meets fun reply between =>
    base.Custody entry scope between ∧ w.Retains between ∧ ∀ stored, reply = .ok (some stored) →
      (Conduct.allotting base entry scope).stores stored.owner stored.binding ∧
        stored.binding.key.site = key.site ∧ base.Above c stored.owner
  · intro visited w' _ _ halike
    exact ⟨h.alike halike, halike.retains, by rintro object ⟨⟩⟩
  · intro w' _ halike
    refine (locate_custody hallots (h.alike halike) _ _).mono (fun _ => id) fun reply between hlocated => ?_
    exact ⟨hlocated.1, halike.retains.trans hlocated.2.1, hlocated.2.2⟩
  · intro e between w' hlocated halike
    exact ⟨hlocated.1.alike halike, hlocated.2.1.trans halike.retains, by rintro object ⟨⟩⟩
  · intro between w' hlocated halike
    exact ⟨hlocated.1.alike halike, hlocated.2.1.trans halike.retains, by split <;> rintro object ⟨⟩⟩
  · intro stored between _ hlocated
    obtain ⟨hbetween, hretains, hstored⟩ := hlocated
    obtain ⟨hstores, hsite, habove⟩ := hstored stored rfl
    refine (Stored.obtain_custody hkept hstuck hbetween hallots.constructs hstores).mono (fun _ => id)
      fun result made hresult w' halike => ?_
    obtain ⟨hcustody, hretains', hdelivers⟩ := hresult
    refine ⟨hcustody.alike halike, (hretains.trans hretains').trans halike.retains, fun object hobject hkey => ?_⟩
    cases result with
    | error e => cases hobject
    | ok made =>
      obtain rfl := Option.some.inj (Except.ok.inj hobject)
      obtain ⟨owner, howner, hready⟩ := hdelivers made rfl (hsite.trans hkey)
      have habove' := habove.trans (World.above_of_scopeOwner? howner)
      have hscope := World.hasScope_of_scopeOwner? howner
      exact ⟨owner, hallots.scopeOwner?_of_above hpristine habove' hscope, halike.cells ▸ hready⟩

/-- Calls lead to no others than may be made, and keep the promises. -/
theorem Call.body_custody {answer : Call V → World V E → Run V E (Reply V)} {halts : Halt → Prop}
    (hkept : (Contract.custody base entry scope).KeptBy answer halts) (hstuck : halts .stuck) {request : Call V}
    (hasks : (Contract.custody base entry scope).asks request w) :
    (request.body.run answer w).Meets halts ((Contract.custody base entry scope).answers request w) := by
  obtain ⟨h, hcontext⟩ := hasks
  cases request with
  | resolve c path resolution key parameters =>
    exact Resolution.resolve_custody hallots hpristine hkept hstuck h path parameters
  | obtain owner key context =>
    unfold Call.body
    rw [Task.run_read]
    cases hfound : w.binding? owner key.identity with
    | none => exact ⟨h, .refl w, by rintro object ⟨⟩⟩
    | some binding =>
      obtain ⟨component, hcomponent, hmem, hkey⟩ := World.mem_of_binding? hfound
      let stored : Stored V E := ⟨owner, binding⟩
      have hstores : (Conduct.allotting base entry scope).stores stored.owner stored.binding :=
        hallots.lawful.stored h.components hcomponent hmem
      refine Task.meets_bind (Stored.obtain_custody hkept hstuck h hallots.constructs hstores)
        fun result w' hresult => ?_
      obtain ⟨hcustody, hretains, hdelivers⟩ := hresult
      cases result with
      | error e => exact ⟨hcustody, hretains, by rintro object ⟨⟩⟩
      | ok object =>
        refine ⟨hcustody, hretains, ?_⟩
        rintro _ ⟨⟩ hrequest
        have hsite : binding.key.site = key.site := congrArg KeyId.site hkey
        exact hdelivers object rfl (hsite.trans hrequest)

/-- Calls leave values in custody, however deep they go. -/
theorem Contract.custody_kept (depth : Nat) :
    (Contract.custody base entry scope).KeptBy (Call.answer depth) fun _ => True := by
  induction depth with
  | zero => exact fun _ _ _ => trivial
  | succ depth ih => exact fun request w hasks => Call.body_custody hallots hpristine ih trivial hasks

/-- All calls that are taken up within a call are made where values are in custody, and whoever is passed on to a
component has its context. -/
theorem Call.custody_of_called {depth : Nat} {outer request : Call V} {u v : World V E}
    (houter : (Contract.custody base entry scope).asks outer u)
    (hcalled : .called request v ∈ Call.journal depth outer u) :
    (Contract.custody base entry scope).asks request v :=
  Contract.asks_of_called (Contract.custody_kept hallots hpristine)
    (fun _ _ _ hasks hkept => Call.body_custody hallots hpristine hkept rfl hasks) houter hcalled

/-- A top-level request leaves values in custody and yields objects of the entry from there. -/
theorem Query.task_custody {q : Query V} {depth : Nat} {reply : Reply V} (h : base.Custody entry scope w)
    (hrun : w.run depth (q.task c) = .ok (reply, w')) :
    base.Custody entry scope w' ∧ w.Retains w' ∧
      ∀ object, reply = .ok (some object) → base.Delivers entry scope w' c q.key.site object := by
  suffices hmeets : Run.Meets (w.run depth (q.task c)) (fun _ => True) fun reply w' =>
      base.Custody entry scope w' ∧ w.Retains w' ∧
        ∀ object, reply = .ok (some object) → base.Delivers entry scope w' c q.key.site object from hmeets.of_ok hrun
  let entered : World V E := { w with nextResolution := w.nextResolution + 1 }
  have hentered : w.Alike entered := ⟨rfl, rfl, Nat.le_refl _⟩
  have hkept := Contract.custody_kept hallots hpristine depth
  refine Task.meets_call (hkept _ entered ⟨h.alike hentered, trivial⟩) fun answered w' hanswered => ?_
  obtain ⟨hcustody, hretains, hdelivers⟩ := hanswered
  exact ⟨hcustody, hentered.retains.trans hretains, fun object hobject => hdelivers object (q.eq_of_accept hobject)⟩

/-- Top-level requests leave values in custody, and keep what was kept. -/
theorem World.History.custody (h : base.Custody entry scope w) (hhistory : w.History w') :
    base.Custody entry scope w' ∧ w.Retains w' := by
  induction hhistory with
  | refl => exact ⟨h, .refl w⟩
  | tail _ hanswers ih =>
    obtain ⟨depth, c, q, reply, hrun⟩ := hanswers
    obtain ⟨hcustody, hretains, -⟩ := Query.task_custody hallots hpristine ih.1 hrun
    exact ⟨hcustody, ih.2.trans hretains⟩

omit [Hashed V] in
/-- To begin with, nothing is kept. -/
theorem World.Allots.custody : base.Custody entry scope base where
  components := hallots.holds
  numbered owner object hready := by simp [hpristine.unused] at hready
  distinct owner owner' object object' hready := by simp [hpristine.unused] at hready

omit hallots hpristine [Hashed V] in
/-- Without an owner of the scope, nothing is found for the entry. -/
theorem World.Custody.found?_eq_none (h : base.Custody entry scope w) (hsite : key.site = entry.site)
    (hnone : ∀ owner, base.Above c owner → base.hasScope owner scope = false) : w.found? key c = none := by
  cases hfound : w.found? key c with
  | none => rfl
  | some stored =>
    have hgrows : base.Grows w := Grows.trans h.components.1 (.of_components rfl)
    obtain ⟨habove, hserving⟩ := found?_above hgrows hfound
    obtain ⟨hmem, hstored⟩ := mem_of_serving? hserving
    rcases (h.components.2 stored.owner stored.binding hmem (hstored.trans hsite)).cases with
      ⟨hhas, -, -⟩ | ⟨owner, other, howner, -⟩
    · simp [hnone stored.owner habove] at hhas
    · have hscope := hasScope_of_scopeOwner? howner
      simp [hnone owner (habove.trans (above_of_scopeOwner? howner))] at hscope

omit hpristine in
/-- Without an owner of the scope, a request for the entry is refused. -/
theorem Query.refused {q : Query V} {component : Component V E} (h : base.Custody entry scope w)
    (hc : base.component? c = some component) (hsite : q.key.site = entry.site)
    (hnone : ∀ owner, base.Above c owner → base.hasScope owner scope = false) (depth : Nat) :
    ∃ w', w.run (depth + 1) (q.task c) = .ok (.error (.scopeMismatch q.key.required scope), w') := by
  let resolution : Resolution := ⟨w.nextResolution, (w.config c).logger <|> none⟩
  let entered : World V E := { w with nextResolution := w.nextResolution + 1 }
  let started := entered.emit resolution.logger (.lookup q.key)
  have hentered : w.Alike entered := ⟨rfl, rfl, Nat.le_refl _⟩
  have hstarted : base.Custody entry scope started := h.alike (hentered.trans (entered.alike_emit _ _))
  obtain ⟨searched, hsearch, hcomponents⟩ :=
    Resolution.search_run (Call.answer depth) resolution c q.key started
  rw [hstarted.found?_eq_none hsite hnone] at hsearch
  have hgrows : base.Grows searched :=
    (World.Grows.trans hstarted.components.1 (.of_components rfl)).trans (.of_components hcomponents)
  have hfactories : (searched.config c).factories = [catalog.factory] := by
    rw [hgrows.config, World.config, hc]
    exact hallots.factories c component hc
  have hrequired : q.key.required.site = entry.site := hsite
  obtain ⟨hfind, hqualifier⟩ := hallots.find? hrequired
  have hhas : searched.hasScope c scope = false := (hgrows.hasScope c scope).trans (hnone c .refl)
  have howner : searched.scopeOwner? c scope = none := by
    rw [hgrows.scopeOwner?, Option.eq_none_iff_forall_ne_some]
    intro owner howner
    have hscope := World.hasScope_of_scopeOwner? howner
    simp [hnone owner (World.above_of_scopeOwner? howner)] at hscope
  have hsynthesize : (Resolution.synthesize resolution q.key c).run (Call.answer depth) searched =
      .ok (.error (.scopeMismatch q.key.required scope), searched) := by
    rw [Resolution.synthesize, Task.run_read, hfactories]
    have hconsult : (Resolution.consult resolution catalog q.key.required c).run (Call.answer depth) searched =
        .ok (.error (.scopeMismatch q.key.required scope), searched) := by
      simp [Resolution.consult, hfind, hqualifier, hallots.plural, hallots.inScope, hhas, howner]
    exact (Task.run_bind_of_ok ((Task.run_bind_of_ok hconsult).trans rfl)).trans rfl
  have hlocate : (Resolution.locate resolution q.key c).run (Call.answer depth) started =
      .ok (.error (.scopeMismatch q.key.required scope), searched) :=
    (Task.run_bind_of_ok hsearch).trans hsynthesize
  rw [Query.run_task, Resolution.resolve, Task.run_emit, if_neg (by simp)]
  exact ⟨_, congrArg _ ((Task.run_bind_of_ok hlocate).trans rfl)⟩

/-! ### The definitions that make values -/

omit hallots [Hashed V] hpristine in
/-- A value that begins to be made leaves all others in custody. -/
theorem World.Custody.opened (h : base.Custody entry scope w) (slot : Slot) (context : Context V) :
    base.Custody entry scope (w.opened slot context) :=
  (h.setCell (by simp)).alike (World.alike_emit _ _ _)

omit hallots hpristine in
/-- Values are in custody when a definition is called to make one. -/
theorem Stored.visit?_custody {stored : Stored V E} {context : Context V} {visit : Visit V E}
    (h : base.Custody entry scope w) (hvisit : stored.visit? context w = some visit) :
    base.Custody entry scope visit.world := by
  have hopening {slot : Slot} {v : World V E} (hv : base.Custody entry scope v)
      (hopening : stored.opening? context slot v = some visit) : base.Custody entry scope visit.world := by
    obtain ⟨-, rfl⟩ := opening?_eq_some hopening
    exact hv.opened slot context
  unfold visit? at hvisit
  split at hvisit
  · exact Option.some.inj hvisit ▸ h
  · exact hopening h hvisit
  · split at hvisit
    · cases hvisit
    · exact hopening (h.alike (w.alike_emit _ _)) hvisit

omit hpristine in
/-- What a call runs is the definition of what is allotted to a component, in the component's context. -/
theorem Call.visit?_custody {request : Call V} {visit : Visit V E}
    (hasks : (Contract.custody base entry scope).asks request w) (hvisit : request.visit? w = some visit) :
    base.Custody entry scope visit.world ∧ (Conduct.allotting base entry scope).stores visit.stored.owner
      visit.stored.binding ∧ visit.context.component = visit.stored.owner := by
  obtain ⟨h, hcontext⟩ := hasks
  cases request with
  | resolve c path resolution key parameters =>
    simp only [Call.visit?] at hvisit
    split at hvisit
    · cases hvisit
    · split at hvisit
      · next stored found hlocate =>
        have hasked := h.alike (w.alike_emit resolution.logger (.lookup key))
        obtain ⟨hfound, -, hstored⟩ :=
          (Resolution.locate_custody hallots hasked (Call.answer 0) fun _ => True).of_ok hlocate
        obtain ⟨rfl, hhanded, -⟩ := Stored.visit?_eq_some hvisit
        exact ⟨Stored.visit?_custody hfound hvisit, (hstored _ rfl).1, hhanded ▸ rfl⟩
      · cases hvisit
  | obtain owner key context =>
    obtain ⟨binding, hbinding, hvisit⟩ := Option.bind_eq_some_iff.mp hvisit
    obtain ⟨component, hcomponent, hmem, -⟩ := World.mem_of_binding? hbinding
    obtain ⟨hstored, hhanded, -⟩ := Stored.visit?_eq_some hvisit
    refine ⟨Stored.visit?_custody h hvisit, ?_, ?_⟩
    · rw [hstored]
      exact hallots.lawful.stored h.components hcomponent hmem
    · rw [hstored, hhanded]
      exact hcontext

/-- The definition of an entry is run for the cell of a component, with this as the context's component, and comes to
an object that has not been there before. -/
structure Visit.Yields (visit : Visit V E) (entry : CatalogEntry V E) (owner : ComponentId) (object : Object V) :
    Prop where
  cell : visit.stored.slot? visit.context = some (entry.slot owner)
  stores : visit.stored.owner = owner
  component : visit.context.component = owner
  definition : visit.stored.binding.definition = entry.definition visit.stored.binding.key
  makes : ∃ depth made,
    visit.world.run depth ((visit.stored.binding.definition visit.context).toTask visit.context) =
        .ok (.ok object, made) ∧
      visit.world.nextObject ≤ object.number ∧ object.number < made.nextObject

/-- What is made for the cell of a component is made by the definition of the entry in the component's context. -/
theorem Call.visit_yields {request : Call V} {visit : Visit V E} {owner : ComponentId} {object : Object V}
    {depth : Nat} {made : World V E} (hasks : (Contract.custody base entry scope).asks request w)
    (hvisit : request.visit? w = some visit) (hslot : visit.stored.slot? visit.context = some (entry.slot owner))
    (hcreated : (visit.stored.create visit.context).run (Call.answer depth) visit.world = .ok (.ok object, made)) :
    visit.Yields entry owner object := by
  obtain ⟨hcustody, hstores, hcontext⟩ := Call.visit?_custody hallots hasks hvisit
  obtain ⟨howner, hidentity⟩ := Stored.eq_of_slot?_entry hslot
  have hdefinition : visit.stored.binding.definition = entry.definition visit.stored.binding.key := by
    rcases (hstores.2 (congrArg KeyId.site hidentity)).cases with ⟨-, -, hdefinition⟩ | ⟨_, _, -, -, hfactory, -⟩
    · exact hdefinition
    · simp [Stored.slot?, hfactory] at hslot
  refine ⟨hslot, howner, hcontext.trans howner, hdefinition, ?_⟩
  have hrun := Stored.create_run_ok.mp hcreated
  have hlast : (visit.stored.binding.definition visit.context).MakesLast := by
    rw [hdefinition]
    exact CatalogEntry.definition_makesLast hallots.constructs _ _
  have hkept := Contract.custody_kept hallots hpristine depth
  obtain ⟨hnumber, hyoungest⟩ :=
    ((Program.toTask_custody hkept trivial hcustody).of_ok hrun).youngest hlast object rfl
  exact ⟨depth, made, hrun, hnumber, hyoungest.1⟩

end Calls

section Histories

variable [Hashed V] {journal : List (Moment V E)} {catalog : Catalog V E}

/-- Top-level requests are made and answered one after the other, from one world on, and a journal tells what happens
meanwhile. -/
inductive World.Records (base : World V E) : World V E → List (Moment V E) → Prop
  | start : Records base base []
  | requested {w w' : World V E} {journal : List (Moment V E)} {q : Query V} {c : ComponentId} {depth : Nat}
      {reply : Reply V} : Records base w journal → w.run depth (q.task c) = .ok (reply, w') →
        Records base w' (journal ++ w.journal depth (q.task c))

/-- Each of them is one of the history. -/
theorem World.Records.history (h : base.Records w journal) : base.History w := by
  induction h with
  | start => exact .refl
  | requested _ hrun ih => exact .tail ih ⟨_, _, _, _, hrun⟩

/-- Every history has a journal. -/
theorem World.History.exists_records (h : base.History w) : ∃ journal, base.Records w journal := by
  induction h with
  | refl => exact ⟨[], .start⟩
  | tail _ hanswers ih =>
    obtain ⟨depth, c, q, reply, hrun⟩ := hanswers
    obtain ⟨journal, hrecords⟩ := ih
    exact ⟨_, hrecords.requested hrun⟩

/-- From a pristine world on no value is left being made, and cells change as the journal tells. -/
theorem World.Records.turns (hpristine : base.Pristine) (h : base.Records w journal) :
    (∀ slot creator, w.cells slot ≠ .creating creator) ∧ ∀ slot, Cell.Turns slot .empty journal (w.cells slot) := by
  induction h with
  | start => exact ⟨fun slot => by simp [hpristine.unused], fun slot => hpristine.unused slot ▸ .nil _⟩
  | requested _ hrun ih =>
    obtain ⟨hidle, hrequest⟩ := Query.settles ih.1 hrun
    exact ⟨hidle, fun slot => (ih.2 slot).append (hrequest slot)⟩

variable (hpristine : base.Pristine) (hallots : base.Allots catalog entry scope)
include hpristine hallots

/-- What is kept for the owner of a scope has been made by a definition in the journal. -/
theorem World.Records.exists_visit (h : base.Records w journal) {owner : ComponentId} {object : Object V}
    (hended : .ended (entry.slot owner) (.ready object) ∈ journal) :
    ∃ request v visit, .called request v ∈ journal ∧ request.visit? v = some visit ∧
      visit.Yields entry owner object := by
  induction h with
  | start => cases hended
  | @requested w _ journal q c depth _ hrecords _ ih =>
    rcases List.mem_append.mp hended with hbefore | hnow
    · obtain ⟨request, v, visit, hcalled, hyields⟩ := ih hbefore
      exact ⟨request, v, visit, List.mem_append_left _ hcalled, hyields⟩
    · rw [q.journal_task] at hnow ⊢
      obtain ⟨request, v, visit, hcalled, hvisit, hslot, hmade⟩ :=
        Call.exists_visit_of_ended (by simp [CatalogEntry.slot]) hnow
      obtain ⟨depth', made, hcreated⟩ := hmade object rfl
      obtain ⟨hcustody, -⟩ := hrecords.history.custody hallots hpristine (hallots.custody hpristine)
      have hasks := Call.custody_of_called hallots hpristine ⟨hcustody.alike w.alike_entered, trivial⟩ hcalled
      exact ⟨request, v, visit, List.mem_append_right _ hcalled, hvisit,
        Call.visit_yields hallots hpristine hasks hvisit hslot hcreated⟩

/-- Scoped values belong to the owner of their scope, whatever is requested anywhere and in whichever
order. Without an owner above it, a component refuses requests for the type. All components below
one owner come to one object, which a definition in the journal has made in the owner's context, and
components below different owners come to different objects. -/
theorem World.scoped_values_owned :
    (∀ {w : World V E} {c : ComponentId} {component} {q : Query V} (depth : Nat), base.History w →
      base.component? c = some component → q.key.site = entry.site →
        (∀ owner, base.Above c owner → base.hasScope owner scope = false) →
          ∃ w', w.run (depth + 1) (q.task c) = .ok (.error (.scopeMismatch q.key.required scope), w')) ∧
      ∀ {w w' : World V E} {journal : List (Moment V E)} {c owner : ComponentId} {q : Query V} {depth : Nat}
          {object : Object V},
        base.Records w journal → base.Above c owner → base.hasScope owner scope = true → q.key.site = entry.site →
          w.run depth (q.task c) = .ok (.ok (some object), w') →
            (∃ request v visit, .called request v ∈ journal ++ w.journal depth (q.task c) ∧
              request.visit? v = some visit ∧ visit.Yields entry owner object) ∧
              ∀ {w₁ w₂ : World V E} {c' owner' : ComponentId} {q' : Query V} {depth' : Nat} {object' : Object V},
                w'.History w₁ → base.Above c' owner' → base.hasScope owner' scope = true →
                  q'.key.site = entry.site → w₁.run depth' (q'.task c') = .ok (.ok (some object'), w₂) →
                    (owner' = owner → object' = object) ∧
                      (owner' ≠ owner → object'.number ≠ object.number) := by
  refine ⟨fun depth hhistory hc hsite hnone => ?_, ?_⟩
  · obtain ⟨hcustody, -⟩ := hhistory.custody hallots hpristine (hallots.custody hpristine)
    exact Query.refused hallots hcustody hc hsite hnone depth
  · intro w w' journal c owner q depth object hrecords habove hscope hsite hrun
    obtain ⟨hcustody, -⟩ := hrecords.history.custody hallots hpristine (hallots.custody hpristine)
    obtain ⟨hcustody', -, hdelivers⟩ := Query.task_custody hallots hpristine hcustody hrun
    obtain ⟨keeper, hkeeper, hready⟩ := hdelivers object rfl hsite
    have howner := hallots.scopeOwner?_of_above hpristine habove hscope
    obtain rfl : keeper = owner := Option.some.inj (hkeeper.symm.trans howner)
    have hrecorded := hrecords.requested hrun
    have hended := (((hrecorded.turns hpristine).2 _).ready_iff (by simp)).mp hready
    refine ⟨hrecorded.exists_visit hpristine hallots hended, ?_⟩
    intro w₁ w₂ c' owner' q' depth' object' hlater habove' hscope' hsite' hrun'
    obtain ⟨hcustody₁, hretains₁⟩ := hlater.custody hallots hpristine hcustody'
    obtain ⟨hcustody₂, hretains₂, hdelivers'⟩ := Query.task_custody hallots hpristine hcustody₁ hrun'
    obtain ⟨keeper', hkeeper', hready'⟩ := hdelivers' object' rfl hsite'
    have howner' := hallots.scopeOwner?_of_above hpristine habove' hscope'
    obtain rfl : keeper' = owner' := Option.some.inj (hkeeper'.symm.trans howner')
    -- What the first request came to is still kept when the second ends.
    have hkept : w₂.cells (entry.slot keeper) = .ready object := (hretains₁.trans hretains₂).ready _ _ hready
    refine ⟨?_, fun hne => hcustody₂.distinct keeper' keeper object' object hready' hkept hne⟩
    rintro rfl
    exact Cell.ready.inj (hready'.symm.trans hkept)

end Histories

end Custody

/-- A component, two children of it that declare a scope each, and a child of the first of these. All
fall back on a catalog with a type that belongs to the scope. -/
def World.estate : World Unit Unit :=
  let config : ComponentConfig Unit Unit :=
    ⟨none, [Catalog.factory ⟨[.nth 0 (some DefaultScope.session.tag)]⟩]⟩
  { World.initial () with
    components := [⟨[], [], [], config, true⟩, ⟨[DefaultScope.session.tag], [0], [], config, true⟩,
      ⟨[DefaultScope.session.tag], [0], [], config, true⟩, ⟨[], [1], [], config, true⟩] }

/-- Nothing has been made in the estate yet. -/
theorem World.pristine_estate : World.estate.Pristine := .of_components () (by decide) (by decide)

/-- Above a component of the estate are the component itself, the first one and, for the last one, the second. -/
theorem World.above_estate {c owner : ComponentId} (h : World.estate.Above c owner) :
    c = owner ∨ owner = 0 ∨ c = 3 ∧ owner = 1 := by
  induction h with
  | refl => exact .inl rfl
  | @tail between parent _ hparent ih =>
    match between, hparent with
    | 1, hparent | 2, hparent =>
      obtain rfl := List.mem_singleton.mp hparent
      exact .inr (.inl rfl)
    | 3, hparent =>
      obtain rfl := List.mem_singleton.mp hparent
      refine .inr (.inr ⟨?_, rfl⟩)
      rcases ih with rfl | h | ⟨-, h⟩
      · rfl
      · contradiction
      · contradiction

/-- The estate's catalog allots the session scope to its entry. -/
theorem World.allots_estate :
    World.estate.Allots ⟨[.nth 0 (some DefaultScope.session.tag)]⟩ (.nth 0 (some DefaultScope.session.tag))
      DefaultScope.session.tag where
  factories c component hc := by
    match c, hc with
    | 0, hc | 1, hc | 2, hc | 3, hc => exact Option.some.inj hc ▸ rfl
  listed := rfl
  inScope := rfl
  plural := rfl
  constructs _ := Action.makesLast_pure _
  unbound c binding hbinding := by
    match c, hbinding with
    | 0, hbinding | 1, hbinding | 2, hbinding | 3, hbinding | _ + 4, hbinding => cases hbinding
  unique c owner owner' habove habove' hscope hscope' := by
    have hroot : World.estate.hasScope 0 DefaultScope.session.tag = false := rfl
    have hlast : World.estate.hasScope 3 DefaultScope.session.tag = false := rfl
    rcases above_estate habove with h | h | ⟨h, howner⟩ <;>
      rcases above_estate habove' with h' | h' | ⟨h', howner'⟩ <;> simp_all

/-- The component without an owner of the scope above it refuses. A request at the last component
comes to an object that its parent's definition has made, with the parent as its context, and so does a
later request there; a request at the other child comes to another object. -/
theorem World.scoped_values_owned_estate :
    (∃ w', World.estate.run 1 ((Query.get (.nth 0) []).task 0) =
      .ok (.error (.scopeMismatch (.of (.nth 0)) DefaultScope.session.tag), w')) ∧
      ∃ (object other : Object Unit) (w w₁ w₂ : World Unit Unit),
        World.estate.run 4 ((Query.get (.nth 0) []).task 3) = .ok (.ok (some object), w) ∧
          (∃ request v visit, .called request v ∈ World.estate.journal 4 ((Query.get (.nth 0) []).task 3) ∧
            request.visit? v = some visit ∧
              visit.Yields (.nth 0 (some DefaultScope.session.tag)) 1 object) ∧
          w.run 4 ((Query.get (.nth 0) []).task 1) = .ok (.ok (some object), w₁) ∧
          w.run 4 ((Query.get (.nth 0) []).task 2) = .ok (.ok (some other), w₂) ∧
          other.number ≠ object.number := by
  have hscope : World.estate.hasScope 1 DefaultScope.session.tag = true := rfl
  have hscope' : World.estate.hasScope 2 DefaultScope.session.tag = true := rfl
  obtain ⟨hrefused, howned⟩ := scoped_values_owned pristine_estate allots_estate
  constructor
  · refine hrefused 0 .refl rfl rfl fun owner habove => ?_
    rcases above_estate habove with rfl | rfl | ⟨h, -⟩
    · rfl
    · rfl
    · contradiction
  · obtain ⟨object, same, other, w, w₁, w₂, hrun, hsame, hother⟩ : ∃ object same other w w₁ w₂,
        World.estate.run 4 ((Query.get (.nth 0) []).task 3) = .ok (.ok (some object), w) ∧
          w.run 4 ((Query.get (.nth 0) []).task 1) = .ok (.ok (some same), w₁) ∧
          w.run 4 ((Query.get (.nth 0) []).task 2) = .ok (.ok (some other), w₂) :=
      ⟨_, _, _, _, _, _, rfl, rfl, rfl⟩
    have habove : World.estate.Above 3 1 := .single (List.mem_singleton.mpr rfl)
    obtain ⟨hmade, hlater⟩ := howned .start habove hscope rfl hrun
    obtain rfl : same = object := (hlater .refl .refl hscope rfl hsame).1 rfl
    exact ⟨same, other, w, w₁, w₂, hrun, hmade, hsame, hother, (hlater .refl .refl hscope' rfl hother).2 (by decide)⟩

end Injection
