import Injection.Proofs.Dependence
import Injection.Proofs.Needs
import Injection.Proofs.Outcomes

/-!
# Answers and their reasons

Without factories, every value and every error that a request comes to has a reason in the graph of
dependencies. What counts as a reason is left open: a judgement says which objects are good values of
a stored binding and which errors are justified, and explains a request if definitions that are
replied to accordingly end accordingly. Nothing else is then ever kept or answered, whatever the
order of requests; and no run goes deeper than there are stored bindings.
-/

namespace Injection

variable {V E : Type}

/-- Without factories, a key is located at what is found for it. -/
theorem Resolution.locate_explicit [Hashed V] {w v : World V E} (hexplicit : w.Explicit)
    (hv : v.components = w.components) (answer : Call V → World V E → Run V E (Reply V)) (resolution : Resolution)
    (c : ComponentId) (key : Key) :
    ∃ v', (locate resolution key c).run answer v = .ok (.ok (w.found? key c), v') ∧ v.Alike v' := by
  obtain ⟨between, hsearch, hcomponents⟩ := search_run answer resolution c key v
  have hyields : (search resolution key c : Task V E _).Yields .lax _ [] := search_yields Conduct.lawful_lax.toStable c
  obtain ⟨-, -, hcells, hobjects⟩ :=
    (hyields.meets (search_acts c) trivial answer fun _ => False).of_ok hsearch
  rw [World.found?, World.foundWithin?_of_components hv] at hsearch
  refine ⟨between, ?_, hcomponents, hcells, hobjects⟩
  refine (Task.run_bind_of_ok hsearch).trans ?_
  cases hfound : w.foundWithin? key (c + 1) c with
  | some stored => rw [World.found?, hfound]; rfl
  | none =>
    have hfactories : (between.config c).factories = [] := by
      rw [(World.Grows.of_components (hcomponents.trans hv)).config]
      exact hexplicit c
    dsimp only
    rw [synthesize, Task.run_read, hfactories, World.found?, hfound]
    rfl

/-- Which objects are good values of a stored binding, and which errors are justified. -/
structure Judgement (V E : Type) where
  good : Stored V E → Object V → Prop
  bad : ResolveError → Prop

namespace Judgement

variable (J : Judgement V E)

/-- What obtaining the value of a stored binding may come to. -/
def Obtained (stored : Stored V E) : Except ResolveError (Object V) → Prop
  | .ok object => J.good stored object
  | .error e => J.bad e

/-- What a request for a key at a component may be answered with. -/
def Answered (w : World V E) (c : ComponentId) (key : Key) : Reply V → Prop
  | .ok (some object) => ∃ stored, w.found? key c = some stored ∧ J.good stored object
  | .ok none => key.nullable = true ∧ w.found? key c = none
  | .error e => J.bad e

/-- All that may come of a request has its reason: for every request that is made in its course, a
site that is on the path already, a key that nothing is found for, parameters that are missing, and
the outcome of the definition that is found, given replies that have their reasons. -/
structure Explains (w : World V E) (asks : Stored V E → Key → Prop) (c₀ : ComponentId) (k₀ : Key) : Prop where
  looped : ∀ path c key visited, w.Trail asks c₀ k₀ path c key → visited ∈ path → visited.site = key.site →
    J.bad (.cyclicDependency (path ++ [key]))
  missing : ∀ path c key, w.Trail asks c₀ k₀ path c key → w.found? key c = none → key.nullable = false →
    J.bad (.unresolved key)
  bare : ∀ path c key stored, w.Trail asks c₀ k₀ path c key → w.found? key c = some stored →
    stored.binding.kind = .multi → J.bad (.missingParameters stored.binding.key)
  made : ∀ path c key stored context, w.Trail asks c₀ k₀ path c key → w.found? key c = some stored →
    context.component = stored.owner →
      (stored.binding.definition context).Honors (asks stored) (J.Answered w stored.owner)
        fun outcome => J.Obtained stored (outcome.mapError DefinitionError.toResolveError)

end Judgement

namespace World

variable {w v v' v'' : World V E}

/-- No value is being made that was not being made before. -/
def Rests (v v' : World V E) : Prop :=
  ∀ slot number, v'.cells slot = .creating number → v.cells slot = .creating number

/-- Nothing comes to be made where nothing happens. -/
theorem Rests.refl (v : World V E) : v.Rests v := fun _ _ => id

/-- Nothing comes to be made over two stretches if nothing does over either. -/
theorem Rests.trans (h : v.Rests v') (h' : v'.Rests v'') : v.Rests v'' :=
  fun slot number hcreating => h slot number (h' slot number hcreating)

/-- Nothing comes to be made between worlds that are alike. -/
theorem Alike.rests (h : v.Alike v') : v.Rests v' := fun _ _ hcreating => h.cells ▸ hcreating

variable [Hashed V]

/-- Components are as they were to begin with, only good values are kept, and only values of bindings
whose sites are on the path are being made. -/
structure Tracks (w : World V E) (good : Stored V E → Object V → Prop) (path : List Key) (v : World V E) :
    Prop where
  components : v.components = w.components
  ready : ∀ (stored : Stored V E) context slot object, stored.binding ∈ w.bindings stored.owner →
    stored.slot? context = some slot → v.cells slot = .ready object → good stored object
  creating : ∀ (stored : Stored V E) context slot number, stored.binding ∈ w.bindings stored.owner →
    stored.slot? context = some slot → v.cells slot = .creating number →
      ∃ visited ∈ path, visited.site = stored.binding.key.site

/-- Stored bindings with distinct keys do not share cells. -/
theorem Keyed.eq_of_slot? (h : w.Keyed) {stored other : Stored V E} {context context' : Context V} {slot : Slot}
    (hstored : stored.binding ∈ w.bindings stored.owner) (hother : other.binding ∈ w.bindings other.owner)
    (hslot : stored.slot? context = some slot) (hslot' : other.slot? context' = some slot) : stored = other := by
  unfold Stored.slot? at hslot hslot'
  cases hkind : stored.binding.kind <;> cases hkind' : other.binding.kind <;>
    simp only [hkind, hkind', Option.some.injEq, reduceCtorEq] at hslot hslot' <;> subst hslot
  · obtain ⟨howner, hidentity⟩ := Slot.single.inj hslot'
    exact h.eq_of_identity hstored hother howner.symm hidentity.symm
  · cases hslot'
  · cases hslot'
  · obtain ⟨howner, hidentity, -⟩ := Slot.multi.inj hslot'
    exact h.eq_of_identity hstored hother howner.symm hidentity.symm

section Tracks

variable {good : Stored V E → Object V → Prop} {path path' : List Key} {key : Key}

/-- Worlds that are alike are tracked alike. -/
theorem Tracks.alike (h : w.Tracks good path v) (halike : v.Alike v') : w.Tracks good path v' where
  components := halike.components.trans h.components
  ready stored context slot object hstored hslot hready :=
    h.ready stored context slot object hstored hslot (halike.cells ▸ hready)
  creating stored context slot number hstored hslot hcreating :=
    h.creating stored context slot number hstored hslot (halike.cells ▸ hcreating)

/-- A longer path covers what a shorter one does. -/
theorem Tracks.concat (h : w.Tracks good path v) (key : Key) : w.Tracks good (path ++ [key]) v := by
  refine ⟨h.components, h.ready, fun stored context slot number hstored hslot hcreating => ?_⟩
  obtain ⟨visited, hvisited, hsite⟩ := h.creating stored context slot number hstored hslot hcreating
  exact ⟨visited, List.mem_append_left _ hvisited, hsite⟩

/-- The path covers what it did, if nothing else is being made. -/
theorem Tracks.of_rests (h : w.Tracks good path v) (hrests : v.Rests v') (h' : w.Tracks good path' v') :
    w.Tracks good path v' :=
  ⟨h'.components, h'.ready, fun stored context slot number hstored hslot hcreating =>
    h.creating stored context slot number hstored hslot (hrests slot number hcreating)⟩

/-- The cell of a stored binding may be set to a good value, and while its site is on the path its
value may be made. -/
theorem Tracks.setCell (h : w.Tracks good path v) (hkeyed : w.Keyed) {stored : Stored V E} {context : Context V}
    {slot : Slot} (hstored : stored.binding ∈ w.bindings stored.owner) (hslot : stored.slot? context = some slot)
    {cell : Cell V} (hready : ∀ object, cell = .ready object → good stored object)
    (hcreating : ∀ number, cell = .creating number → ∃ visited ∈ path, visited.site = stored.binding.key.site) :
    w.Tracks good path (v.setCell slot cell) := by
  refine ⟨h.components, fun other context' slot' object hother hslot' hcell => ?_,
    fun other context' slot' number hother hslot' hcell => ?_⟩
  · by_cases heq : slot' = slot
    · subst heq
      obtain rfl := hkeyed.eq_of_slot? hstored hother hslot hslot'
      exact hready object (by simpa using hcell)
    · rw [setCell_ne heq] at hcell
      exact h.ready other context' slot' object hother hslot' hcell
  · by_cases heq : slot' = slot
    · subst heq
      obtain rfl := hkeyed.eq_of_slot? hstored hother hslot hslot'
      exact hcreating number (by simpa using hcell)
    · rw [setCell_ne heq] at hcell
      exact h.creating other context' slot' number hother hslot' hcell

/-- Settling a cell ends what was begun with it: whatever else was begun in between has been settled. -/
theorem Tracks.settle (h : w.Tracks good path v) (hkeyed : w.Keyed) {stored : Stored V E} {context : Context V}
    {slot : Slot} (hstored : stored.binding ∈ w.bindings stored.owner) (hslot : stored.slot? context = some slot)
    {number : Nat} {begun made : World V E} (hbegun : (v.setCell slot (.creating number)).Alike begun)
    (hmade : w.Tracks good path' made) (hrests : begun.Rests made) {cell : Cell V}
    (hready : ∀ object, cell = .ready object → good stored object) (hcell : ∀ number, cell ≠ .creating number) :
    w.Tracks good path (made.setCell slot cell) ∧ v.Rests (made.setCell slot cell) := by
  have hrests' : v.Rests (made.setCell slot cell) := by
    intro other number hcreating
    by_cases heq : other = slot
    · subst heq
      exact absurd (by simpa using hcreating) (hcell number)
    · rw [setCell_ne heq] at hcreating
      have hbefore := hrests other number hcreating
      rwa [hbegun.cells, setCell_ne heq] at hbefore
  have hsettled := hmade.setCell hkeyed hstored hslot hready fun number heq => absurd heq (hcell number)
  exact ⟨h.of_rests hrests' hsettled, hrests'⟩

/-- A value that is kept is good, if making it comes to a good one. -/
theorem Tracks.keep_meets {J : Judgement V E} (h : w.Tracks J.good path v) (hkeyed : w.Keyed)
    {stored : Stored V E} {context : Context V} {slot : Slot}
    (hstored : stored.binding ∈ w.bindings stored.owner) (hslot : stored.slot? context = some slot)
    (hfresh : ∀ visited ∈ path, visited.site ≠ stored.binding.key.site)
    (hkey : key.site = stored.binding.key.site) {create : Task V E (Except ResolveError (Object V))}
    {answer : Call V → World V E → Run V E (Reply V)} {halts : Halt → Prop}
    (hcreate : ∀ v, w.Tracks J.good (path ++ [key]) v →
      (create.run answer v).Meets halts fun result made =>
        w.Tracks J.good (path ++ [key]) made ∧ v.Rests made ∧ J.Obtained stored result) :
    ((Task.keep slot context create).run answer v).Meets halts fun result v' =>
      w.Tracks J.good path v' ∧ v.Rests v' ∧ J.Obtained stored result := by
  have hidle (number : Nat) : v.cells slot ≠ .creating number := by
    intro hcreating
    obtain ⟨visited, hvisited, hsite⟩ := h.creating stored context slot number hstored hslot hcreating
    exact hfresh visited hvisited hsite
  apply Task.keep_meets
  · intro object v' hready halike
    exact ⟨h.alike halike, halike.rests, h.ready stored context slot object hstored hslot hready⟩
  · exact fun v' hcreating => absurd hcreating (hidle _)
  · exact fun creator hcreating => absurd hcreating (hidle creator)
  · intro _ begun halike
    have hon : ∃ visited ∈ path ++ [key], visited.site = stored.binding.key.site :=
      ⟨key, List.mem_append_right _ (List.mem_singleton.mpr rfl), hkey⟩
    have hbegun : w.Tracks J.good (path ++ [key]) begun :=
      ((h.concat key).setCell hkeyed hstored hslot (by simp) fun _ _ => hon).alike halike
    refine (hcreate begun hbegun).mono (fun _ => id) fun result made hmade => ?_
    obtain ⟨htracks, hrests, hresult⟩ := hmade
    cases result with
    | ok object =>
      intro v'' hlast
      have hready (other : Object V) (heq : Cell.ready object = .ready other) : J.good stored other :=
        Cell.ready.inj heq ▸ hresult
      obtain ⟨htracked, hrested⟩ := h.settle hkeyed hstored hslot halike htracks hrests hready (by simp)
      exact ⟨htracked.alike hlast, hrested.trans hlast.rests, hresult⟩
    | error e =>
      obtain ⟨htracked, hrested⟩ :=
        h.settle hkeyed hstored hslot halike htracks hrests (by simp) (by simp : ∀ number, Cell.empty ≠ .creating number)
      exact ⟨htracked, hrested, hresult⟩

end Tracks

end World

/-! ### What calls lead to -/

section Calls

variable [Hashed V]

/-- Requests that are made in the course of an explained one are answered as the judgement says, and
do not go deeper than there are stored bindings. -/
def Judgement.contract (J : Judgement V E) (w : World V E) (asks : Stored V E → Key → Prop) (c₀ : ComponentId)
    (k₀ : Key) : Contract V E where
  asks request v :=
    match request with
    | .resolve c path _ key _ =>
      w.Trail asks c₀ k₀ path c key ∧ (path.map Key.site).Nodup ∧ w.Tracks J.good path v
    | .obtain _ _ _ => False
  halts depth request halt :=
    match request with
    | .resolve _ path _ _ _ => halt = .tooDeep ∧ depth + path.length ≤ w.boundSites.length
    | .obtain _ _ _ => True
  answers request v reply v' :=
    match request with
    | .resolve c path _ key _ => w.Tracks J.good path v' ∧ v.Rests v' ∧ J.Answered w c key reply
    | .obtain _ _ _ => True

namespace Judgement

variable {J : Judgement V E} {w v : World V E} {asks : Stored V E → Key → Prop} {path : List Key}
  {c c₀ : ComponentId} {key k₀ : Key}

/-- What a definition does is answered for by the calls that it makes. -/
theorem toTask_meets {depth : Nat} (hkept : (J.contract w asks c₀ k₀).Kept depth) {context : Context V}
    {wanted : Key → Prop} {ends : Outcome V → Prop} {program : Program V E}
    (hhonors : program.Honors wanted (J.Answered w context.component) ends)
    (htrail : ∀ key, wanted key → w.Trail asks c₀ k₀ context.path context.component key)
    (hnodup : (context.path.map Key.site).Nodup) (h : w.Tracks J.good context.path v) :
    ((program.toTask context).run (Call.answer depth) v).Meets
      (fun halt => halt = .tooDeep ∧ depth + context.path.length ≤ w.boundSites.length)
      fun outcome v' => w.Tracks J.good context.path v' ∧ v.Rests v' ∧ ends outcome := by
  induction program generalizing v with
  | done outcome => exact ⟨h, .refl v, hhonors⟩
  | request key parameters next ih =>
    obtain ⟨hkey, hnext⟩ := hhonors
    refine Task.meets_call (hkept _ v ⟨htrail key hkey, hnodup, h⟩) fun reply v' hreply => ?_
    obtain ⟨htracks, hrests, hanswered⟩ := hreply
    refine (ih reply (hnext reply hanswered) htracks).mono (fun _ => id) fun outcome v'' hend => ?_
    exact ⟨hend.1, hrests.trans hend.2.1, hend.2.2⟩
  | start component key parameters next ih => exact hhonors.elim
  | forward owner key next ih => exact hhonors.elim
  | share entry body next ihbody ih => exact hhonors.elim
  | make type value next ih =>
    have halike : v.Alike (v.allocate type value).2 := ⟨rfl, rfl, Nat.le_succ _⟩
    exact ih _ (hhonors _ rfl) (h.alike halike)
  | touch change next ih =>
    have halike : v.Alike { v with surroundings := change v.surroundings } := ⟨rfl, rfl, Nat.le_refl _⟩
    exact ih _ (hhonors _) (h.alike halike)
  | report event next ih =>
    have halike := v.alike_emit context.resolution.logger event
    refine Run.Meets.mono (ih hhonors (h.alike halike)) (fun _ => id) fun outcome v' hend => ?_
    exact ⟨hend.1, halike.rests.trans hend.2.1, hend.2.2⟩
  | meet gate next ih => exact ih hhonors h

/-- Obtaining the value of a stored binding comes to a good value or a justified error. -/
theorem obtain_meets {depth : Nat} (hkept : (J.contract w asks c₀ k₀).Kept depth) (hkeyed : w.Keyed)
    (hexplains : J.Explains w asks c₀ k₀) {stored : Stored V E} (htrail : w.Trail asks c₀ k₀ path c key)
    (hfound : w.found? key c = some stored) (hfresh : ∀ visited ∈ path, visited.site ≠ key.site)
    (hnodup : (path.map Key.site).Nodup) (h : w.Tracks J.good path v) (context : Context V)
    (hcomponent : context.component = stored.owner) (hpath : context.path = path ++ [key]) :
    ((stored.obtain context).run (Call.answer depth) v).Meets
      (fun halt => halt = .tooDeep ∧ depth + (path.length + 1) ≤ w.boundSites.length)
      fun result v' => w.Tracks J.good path v' ∧ v.Rests v' ∧ J.Obtained stored result := by
  obtain ⟨hstored, hsite⟩ := World.mem_of_found? hfound
  have hfresh' : ∀ visited ∈ path, visited.site ≠ stored.binding.key.site := hsite ▸ hfresh
  have hnodup' : (context.path.map Key.site).Nodup := by
    rw [hpath]
    exact nodup_map_concat hnodup hfresh
  have hcreate (v : World V E) (h : w.Tracks J.good (path ++ [key]) v) :
      ((stored.create context).run (Call.answer depth) v).Meets
        (fun halt => halt = .tooDeep ∧ depth + (path.length + 1) ≤ w.boundSites.length)
        fun result v' => w.Tracks J.good (path ++ [key]) v' ∧ v.Rests v' ∧ J.Obtained stored result := by
    have hhonors := hexplains.made path c key stored context htrail hfound hcomponent
    rw [← hcomponent] at hhonors
    have hnext (wanted : Key) (hwanted : asks stored wanted) :
        w.Trail asks c₀ k₀ context.path context.component wanted := by
      rw [hpath, hcomponent]
      exact htrail.next hfound hwanted
    have hmeets := toTask_meets hkept hhonors hnext hnodup' (hpath ▸ h)
    rw [hpath, List.length_append, List.length_singleton] at hmeets
    exact Task.meets_bind hmeets fun outcome v' hend => hend
  apply Stored.obtain_meets
  · intro _
    refine (hcreate v (h.concat key)).mono (fun _ => id) fun result v' hend => ?_
    exact ⟨h.of_rests hend.2.1 hend.1, hend.2⟩
  · exact fun hkind => ⟨h, .refl v, hexplains.bare path c key stored htrail hfound hkind⟩
  · intro slot v' hslot halike
    have hkeep := (h.alike halike).keep_meets hkeyed hstored hslot hfresh' hsite.symm hcreate
    refine hkeep.mono (fun _ => id) fun result v'' hend => ?_
    exact ⟨hend.1, halike.rests.trans hend.2.1, hend.2.2⟩

/-- Resolving a key comes to what the judgement says of the path, of what is found, or of its value. -/
theorem resolve_meets {depth : Nat} (hkept : (J.contract w asks c₀ k₀).Kept depth) (hkeyed : w.Keyed)
    (hexplicit : w.Explicit) (hexplains : J.Explains w asks c₀ k₀) (htrail : w.Trail asks c₀ k₀ path c key)
    (hnodup : (path.map Key.site).Nodup) (h : w.Tracks J.good path v) (resolution : Resolution)
    (parameters : Parameters V) :
    ((Resolution.resolve c path resolution key parameters).run (Call.answer depth) v).Meets
      (fun halt => halt = .tooDeep ∧ depth + (path.length + 1) ≤ w.boundSites.length)
      fun reply v' => w.Tracks J.good path v' ∧ v.Rests v' ∧ J.Answered w c key reply := by
  refine Resolution.resolve_meets (fun reply v' => reply = .ok (w.found? key c) ∧ v.Alike v') ?_ ?_ ?_ ?_ ?_
  · intro visited v' hvisited hsite halike
    exact ⟨h.alike halike, halike.rests, hexplains.looped path c key visited htrail hvisited hsite⟩
  · intro v' _ halike
    obtain ⟨between, hlocate, hbetween⟩ := Resolution.locate_explicit hexplicit
      (halike.components.trans h.components) (Call.answer depth) resolution c key
    rw [hlocate]
    exact ⟨rfl, halike.trans hbetween⟩
  · intro e between v' hlocated
    cases hlocated.1
  · intro between v' hlocated halike
    obtain ⟨hfound, hbetween⟩ := hlocated
    have hfound := (Except.ok.inj hfound).symm
    have halike' := hbetween.trans halike
    split
    · next hnullable => exact ⟨h.alike halike', halike'.rests, hnullable, hfound⟩
    · next hnullable =>
      have hbad := hexplains.missing path c key htrail hfound (by simpa using hnullable)
      exact ⟨h.alike halike', halike'.rests, hbad⟩
  · intro stored between hfresh hlocated
    obtain ⟨hfound, hbetween⟩ := hlocated
    have hfound := (Except.ok.inj hfound).symm
    have hobtain := obtain_meets hkept hkeyed hexplains htrail hfound hfresh hnodup (h.alike hbetween)
      { component := stored.owner, key, parameters, path := path ++ [key], resolution } rfl rfl
    refine hobtain.mono (fun _ => id) fun result made hmade v' halike => ?_
    obtain ⟨htracks, hrests, hobtained⟩ := hmade
    refine ⟨htracks.alike halike, (hbetween.rests.trans hrests).trans halike.rests, ?_⟩
    cases result with
    | ok object => exact ⟨stored, hfound, hobtained⟩
    | error e => exact hobtained

/-- Requests that are made in the course of an explained one keep to the judgement. -/
theorem contract_kept (hkeyed : w.Keyed) (hexplicit : w.Explicit) (hexplains : J.Explains w asks c₀ k₀)
    (depth : Nat) : (J.contract w asks c₀ k₀).Kept depth := by
  refine Contract.kept (fun request v hasks => ?_) (fun depth request v hkept hasks => ?_) depth
  · cases request with
    | obtain owner key context => trivial
    | resolve c path resolution key parameters =>
      obtain ⟨htrail, hnodup, -⟩ := hasks
      have hlength := htrail.length_le hnodup
      exact ⟨rfl, by omega⟩
  · cases request with
    | obtain owner key context => exact hasks.elim
    | resolve c path resolution key parameters =>
      obtain ⟨htrail, hnodup, h⟩ := hasks
      refine (resolve_meets hkept hkeyed hexplicit hexplains htrail hnodup h resolution parameters).mono ?_
        fun _ _ => id
      exact fun halt hhalt => ⟨hhalt.1, by omega⟩

/-- A top-level request is answered as the judgement says, if it is explained. -/
theorem task_meets (hkeyed : w.Keyed) (hexplicit : w.Explicit) {q : Query V} (hexplains : J.Explains w asks c q.key)
    (h : w.Tracks J.good [] v) (depth : Nat) :
    (v.run depth (q.task c)).Meets (fun halt => halt = .tooDeep ∧ depth ≤ w.boundSites.length) fun reply v' =>
      w.Tracks J.good [] v' ∧ ∃ answered, reply = q.accept answered ∧ J.Answered w c q.key answered := by
  let entered : World V E := { v with nextResolution := v.nextResolution + 1 }
  have hentered : v.Alike entered := ⟨rfl, rfl, Nat.le_refl _⟩
  refine Task.meets_call (contract_kept hkeyed hexplicit hexplains depth _ entered
    ⟨.top, List.nodup_nil, h.alike hentered⟩) fun answered v' hanswered => ?_
  exact ⟨hanswered.1, answered, rfl, hanswered.2.2⟩

/-- In an unused world, nothing is kept. -/
theorem tracks_of_unused {good : Stored V E → Object V → Prop} (h : ∀ slot, w.cells slot = .empty) :
    w.Tracks good [] w :=
  ⟨rfl, fun _ _ slot object _ _ hready => by simp [h slot] at hready,
    fun _ _ slot number _ _ hcreating => by simp [h slot] at hcreating⟩

end Judgement

/-- After any number of top-level requests only good values are kept, if all requests can be explained
by good values. -/
theorem World.History.tracks {good : Stored V E → Object V → Prop} {w v : World V E} (hpristine : w.Pristine)
    (hexplicit : w.Explicit) (hexplains : ∀ c key, ∃ bad asks, Judgement.Explains ⟨good, bad⟩ w asks c key)
    (hhistory : w.History v) : w.Tracks good [] v := by
  induction hhistory with
  | refl => exact Judgement.tracks_of_unused hpristine.unused
  | @tail between after _ hanswers ih =>
    obtain ⟨depth, c, q, reply, hrun⟩ := hanswers
    obtain ⟨bad, asks, hexplained⟩ := hexplains c q.key
    exact ((Judgement.task_meets hpristine.keyed hexplicit hexplained ih depth).of_ok hrun).1

end Calls

end Injection
