import Injection.Proofs.Accrual
import Injection.Proofs.Allotment
import Injection.Proofs.Propagation

/-!
# Different values are different objects

A provider function is called for every value anew, and what it provides becomes a new object at the very end.
So when a value of a multi binding is kept, its object is newer than those of all values of the binding that are
kept already: no two lists of parameters are ever given one object. That is true whatever the provider's
dependencies request, values of the same binding included, and whatever other definitions do.
-/

namespace Injection

variable {V E α : Type}

/-! ### Provider functions -/

namespace Dependency

variable {β : Type} {context : Context V}

/-- What is made of a dependency's value leaves the object to what comes after it. -/
theorem map_makesLast {dependency : Dependency V E α} (h : (dependency context).MakesLast) (f : α → β) :
    (dependency.map f context).MakesLast := h.bind fun _ => Action.makesLast_pure _

/-- Two dependencies leave the object to what comes after them if each of them does. -/
theorem both_makesLast {first : Dependency V E α} {second : Dependency V E β} (h : (first context).MakesLast)
    (h' : (second context).MakesLast) : (first.both second context).MakesLast := by
  refine h.bind fun result => ?_
  cases result with
  | error e => exact Action.makesLast_pure _
  | ok a => exact h'.bind fun _ => Action.makesLast_pure _

/-- A list of dependencies leaves the object to what comes after it if each of them does. -/
theorem all_makesLast {dependencies : List (Dependency V E α)}
    (h : ∀ dependency ∈ dependencies, (dependency context).MakesLast) : (all dependencies context).MakesLast := by
  induction dependencies with
  | nil => exact Action.makesLast_pure _
  | cons first rest ih =>
    obtain ⟨hfirst, hrest⟩ := List.forall_mem_cons.mp h
    exact map_makesLast (both_makesLast hfirst (ih hrest)) _

end Dependency

/-- However dependencies are put together, they leave it to the provider function to end with an object. -/
theorem Dependency.Standard.makesLast {dependency : Dependency V E α} (h : dependency.Standard) (context : Context V) :
    (dependency context).MakesLast := by
  have hreceive (q : Query V) : q.inContext.MakesLast (V := V) (E := E) := by
    refine Action.MakesLast.bind (fun next hnext => hnext) fun reply => ?_
    unfold Query.receive
    split
    · exact Action.MakesLast.bind (fun next hnext => hnext ()) fun _ => Action.makesLast_pure _
    · exact Action.makesLast_pure _
  induction h with
  | inject type | injectNamed type name =>
    exact Action.MakesLast.bind (fun next hnext => hnext ()) fun _ => (hreceive _).bind fun _ => Action.makesLast_pure _
  | injectOptional type => exact Action.MakesLast.bind (fun next hnext => hnext ()) fun _ => hreceive _
  | param type index =>
    unfold Dependency.param
    split
    · exact Action.makesLast_pure _
    · exact Action.MakesLast.bind (fun next hnext => hnext ()) fun _ => Action.makesLast_pure _
  | params | context | nothing => exact Action.makesLast_pure _
  | map f _ ih => exact map_makesLast ih f
  | both _ _ ih ih' => exact both_makesLast ih ih'
  | all _ ih => exact all_makesLast ih
  | supply key arguments => exact CatalogEntry.supply_makesLast key arguments context

/-- What a provider function provides becomes an object at last. -/
theorem Definition.ofProvider_makesLast (type : TypeId) {dependencies : Dependency V E α}
    {provider : α → Action V E (Except String V)} {context : Context V}
    (hdependencies : (dependencies context).MakesLast) (hprovider : ∀ a, (provider a).MakesLast) :
    (ofProvider type dependencies provider context).MakesLast := by
  refine hdependencies _ fun obtained => ?_
  cases obtained with
  | error e => exact fun object => by simp
  | ok a =>
    refine hprovider a _ fun provided => ?_
    cases provided with
    | error message => exact fun object => by simp
    | ok value => exact .inl fun object => rfl

/-- What goes on with an outcome by making an object at last makes one at last, whatever the outcome is of. -/
theorem Program.andThen_makesLast (program : Program V E) {f : Outcome V → Program V E}
    (hf : ∀ outcome, (f outcome).MakesLast) : (program.andThen f).MakesLast := by
  induction program with
  | done outcome => exact hf outcome
  | make type value next ih => exact .inr ih
  | request _ _ _ ih | start _ _ _ _ ih | forward _ _ _ ih | share _ _ _ _ ih | touch _ _ ih | report _ _ ih
  | meet _ _ ih => exact ih

/-- What decorates a value becomes an object at last. -/
theorem Definition.decorate_makesLast (type : TypeInfo) {f : Object V → Action V E V} (hf : ∀ object, (f object).MakesLast)
    (inner : Definition V E) (context : Context V) : (decorate type f inner context).MakesLast := by
  refine Program.andThen_makesLast _ fun outcome => ?_
  cases outcome with
  | error e => exact fun object => by simp
  | ok object =>
    dsimp only
    split
    · exact hf object _ fun value => .inl fun made => rfl
    · exact fun made => by simp

/-- A definition by a provider function, decorated any number of times. Neither dependencies nor functions end the
definition with an object of their own. -/
inductive Definition.FromProvider : Definition V E → Prop where
  | ofProvider {α : Type} (type : TypeId) {dependencies : Dependency V E α}
      {provider : α → Action V E (Except String V)} : (∀ context, (dependencies context).MakesLast) →
        (∀ a, (provider a).MakesLast) → FromProvider (.ofProvider type dependencies provider)
  | decorate (type : TypeInfo) {f : Object V → Action V E V} {inner : Definition V E} :
      (∀ object, (f object).MakesLast) → FromProvider inner → FromProvider (.decorate type f inner)

/-- The definition of a provider makes its object at last. -/
theorem Definition.FromProvider.makesLast {definition : Definition V E} (h : definition.FromProvider)
    (context : Context V) : (definition context).MakesLast := by
  cases h with
  | ofProvider type hdependencies hprovider => exact ofProvider_makesLast type (hdependencies context) hprovider
  | decorate type hf _ => exact decorate_makesLast type hf _ context

/-! ### The values of a multi binding -/

section Definitions

variable (w : World V E) (stored : Stored V E)

/-- The cell that keeps the value of a multi binding for parameters of a fingerprint. -/
def Stored.place (fingerprint : UInt64) : Slot := .multi stored.owner stored.binding.key.identity fingerprint

/-- A component stores the binding, and the values that are kept for it are different objects. -/
structure World.Distinguishes : Prop where
  binding : w.binding? stored.owner stored.binding.key.identity = some stored.binding
  made : ∀ {fingerprint object}, w.cells (stored.place fingerprint) = .ready object → object.number < w.nextObject
  distinct : ∀ {fingerprint fingerprint' object object'}, w.cells (stored.place fingerprint) = .ready object →
    w.cells (stored.place fingerprint') = .ready object' → object.number = object'.number → fingerprint = fingerprint'

/-- The object is there and newer than all values that are kept for the binding. -/
structure World.Newest (object : Object V) : Prop where
  made : object.number < w.nextObject
  newer : ∀ {fingerprint other}, w.cells (stored.place fingerprint) = .ready other → other.number < object.number

/-- Calls may be made where the binding is stored and its values are different objects, and leave it so. -/
def Contract.distinguishing : Contract V E where
  asks _ v := v.Distinguishes stored
  halts _ _ _ := True
  answers _ _ _ v := v.Distinguishes stored

end Definitions

section Invariant

variable {w w' : World V E} {stored : Stored V E}

namespace World.Distinguishes

/-- Objects stay distinguished where cells stay as they are, nothing stored is lost and numbers only go up. -/
theorem of_accrues (h : w.Distinguishes stored) (hcomponents : w.Accrues w') (hcells : w'.cells = w.cells)
    (hobject : w.nextObject ≤ w'.nextObject) : w'.Distinguishes stored where
  binding := hcomponents h.binding
  made hready := Nat.lt_of_lt_of_le (h.made (hcells ▸ hready)) hobject
  distinct hready hready' := h.distinct (hcells ▸ hready) (hcells ▸ hready')

/-- Objects stay distinguished in a world that is alike. -/
theorem alike (h : w.Distinguishes stored) (halike : w.Alike w') : w'.Distinguishes stored :=
  h.of_accrues (.of_components halike.components) halike.cells halike.nextObject

/-- A cell may be set to anything but an object that is not the newest. -/
theorem setCell (h : w.Distinguishes stored) {slot : Slot} {cell : Cell V}
    (hnewest : ∀ fingerprint object, slot = stored.place fingerprint → cell = .ready object →
      w.Newest stored object) : (w.setCell slot cell).Distinguishes stored := by
  have hkept {fingerprint : UInt64} {object : Object V}
      (hready : (w.setCell slot cell).cells (stored.place fingerprint) = .ready object) :
      (stored.place fingerprint = slot ∧ w.Newest stored object) ∨ w.cells (stored.place fingerprint) = .ready object := by
    by_cases hsame : stored.place fingerprint = slot
    · rw [hsame, setCell_self] at hready
      exact .inl ⟨hsame, hnewest fingerprint object hsame.symm hready⟩
    · rw [setCell_ne hsame] at hready
      exact .inr hready
  refine ⟨h.binding, fun hready => ?_, fun {fingerprint fingerprint' object object'} hready hready' hnumber => ?_⟩
  · rcases hkept hready with ⟨-, hobject⟩ | hbefore
    · exact hobject.made
    · exact h.made hbefore
  · rcases hkept hready with ⟨hsame, hobject⟩ | hbefore <;> rcases hkept hready' with ⟨hsame', hobject'⟩ | hbefore'
    · exact (Slot.multi.inj (hsame.trans hsame'.symm)).2.2
    · exact absurd hnumber (Nat.ne_of_gt (hobject.newer hbefore'))
    · exact absurd hnumber (Nat.ne_of_lt (hobject'.newer hbefore))
    · exact h.distinct hbefore hbefore' hnumber

variable {answer : Call V → World V E → Run V E (Reply V)} {halts : Halt → Prop} (hstuck : halts .stuck)
include hstuck

/-- A value may be kept if it is the newest when it is kept for the binding. -/
theorem keep_meets (h : w.Distinguishes stored) {slot : Slot} {context : Context V}
    {create : Task V E (Except ResolveError (Object V))}
    (hcreate : ∀ w', w'.Distinguishes stored → (create.run answer w').Meets halts fun result made =>
      made.Distinguishes stored ∧ ∀ fingerprint object, slot = stored.place fingerprint → result = .ok object →
        made.Newest stored object) :
    ((Task.keep slot context create).run answer w).Meets halts fun _ w' => w'.Distinguishes stored := by
  apply Task.keep_meets
  · exact fun _ _ _ halike => h.alike halike
  · exact fun _ _ halike => h.alike halike
  · exact fun _ _ _ => hstuck
  · intro _ w' halike
    have hbegun : (w.setCell slot (.creating context.resolution.number)).Distinguishes stored :=
      h.setCell (by simp)
    refine (hcreate w' (hbegun.alike halike)).mono (fun _ => id) fun result made hmade => ?_
    cases result with
    | ok object =>
      refine fun w'' hlast => World.Distinguishes.alike (hmade.1.setCell ?_) hlast
      rintro fingerprint other hslot ⟨⟩
      exact hmade.2 fingerprint object hslot rfl
    | error e => exact hmade.1.setCell (by simp)

end World.Distinguishes

/-- A new object is the newest. -/
theorem World.Distinguishes.allocate (h : w.Distinguishes stored) (type : TypeId) (value : V) :
    (w.allocate type value).2.Distinguishes stored ∧
      (w.allocate type value).2.Newest stored (w.allocate type value).1 :=
  ⟨h.alike ⟨rfl, rfl, Nat.le_succ _⟩, Nat.lt_succ_self _, fun hready => h.made hready⟩

/-- What a component stores under one identity is one binding. -/
theorem Stored.eq_of_identity {other : Stored V E}
    (h : w.binding? stored.owner stored.binding.key.identity = some stored.binding)
    (hother : w.binding? other.owner other.binding.key.identity = some other.binding)
    (howner : other.owner = stored.owner) (hkey : other.binding.key.identity = stored.binding.key.identity) :
    other = stored := by
  obtain ⟨owner, binding⟩ := other
  dsimp only at howner hkey hother
  rw [howner, hkey, h] at hother
  obtain rfl := Option.some.inj hother
  exact congrArg (Stored.mk · _) howner

/-- Only the binding itself has its values kept in its cells. -/
theorem Stored.eq_of_slot?_place [Hashed V] {other : Stored V E} {context : Context V} {fingerprint : UInt64}
    (h : w.binding? stored.owner stored.binding.key.identity = some stored.binding)
    (hother : w.binding? other.owner other.binding.key.identity = some other.binding)
    (hslot : other.slot? context = some (stored.place fingerprint)) :
    other = stored ∧ context.parameters.hashKey = fingerprint := by
  unfold slot? at hslot
  split at hslot
  · cases hslot
  · cases hslot
  · obtain ⟨howner, hkey, hfingerprint⟩ := Slot.multi.inj (Option.some.inj hslot)
    exact ⟨eq_of_identity h hother howner hkey, hfingerprint⟩

end Invariant

/-! ### What calls lead to -/

section Walk

variable {stored : Stored V E} {answer : Call V → World V E → Run V E (Reply V)} {halts : Halt → Prop}
  {w : World V E} {context : Context V} (hkept : (Contract.distinguishing stored).KeptBy answer halts)
  (hstuck : halts .stuck)
include hkept hstuck

/-- Whatever a program does leaves the values different objects; and what it makes at last is the newest. -/
theorem Program.toTask_distinguishes (program : Program V E) (h : w.Distinguishes stored) :
    ((program.toTask context).run answer w).Meets halts fun outcome w' =>
      w'.Distinguishes stored ∧ (program.MakesLast → ∀ object, outcome = .ok object → w'.Newest stored object) := by
  induction program generalizing w with
  | done outcome => exact ⟨h, fun hlast object hobject => absurd hobject (hlast object)⟩
  | request key parameters next ih =>
    refine Task.meets_call (hkept _ w h) fun reply w' hreply => ?_
    exact Run.Meets.mono (ih reply hreply) (fun _ => id) fun _ _ hend => ⟨hend.1, fun hlast => hend.2 (hlast reply)⟩
  | start c key parameters next ih =>
    refine Task.meets_call (hkept _ w.entered (h.alike w.alike_entered)) fun reply w' hreply => ?_
    exact Run.Meets.mono (ih reply hreply) (fun _ => id) fun _ _ hend => ⟨hend.1, fun hlast => hend.2 (hlast reply)⟩
  | forward owner key next ih =>
    unfold toTask Task.run
    dsimp only [id]
    split
    · refine Task.meets_call (hkept _ w h) fun reply w' hreply => ?_
      exact Run.Meets.mono (ih _ hreply) (fun _ => id) fun _ _ hend => ⟨hend.1, fun hlast => hend.2 (hlast _)⟩
    · exact Run.Meets.mono (ih _ h) (fun _ => id) fun _ _ hend => ⟨hend.1, fun hlast => hend.2 (hlast _)⟩
  | share entry body next ihbody ih =>
    refine Task.meets_bind (h.keep_meets hstuck fun w' hw' => ?_) fun result w' hresult => ?_
    · refine Task.meets_bind (ihbody hw') fun outcome made hmade => ⟨hmade.1, fun fingerprint object hslot => ?_⟩
      cases hslot
    · exact Run.Meets.mono (ih result hresult) (fun _ => id) fun _ _ hend => ⟨hend.1, fun hlast => hend.2 (hlast result)⟩
  | make type value next ih =>
    obtain ⟨hmade, hnewest⟩ := h.allocate type value
    have hrest := ih (w.allocate type value).1 hmade
    refine Run.Meets.mono hrest.with_run (fun _ => id) fun outcome w' hend => ⟨hend.1.1, fun hlast object hobject => ?_⟩
    rcases hlast with hnow | hlater
    · have hrun := hend.2
      rw [hnow] at hrun
      obtain ⟨rfl, rfl⟩ := Prod.mk.inj (Except.ok.inj hrun)
      exact Except.ok.inj hobject ▸ hnewest
    · exact hend.1.2 (hlater _) object hobject
  | touch change next ih =>
    exact Run.Meets.mono (ih w.surroundings (h.alike ⟨rfl, rfl, Nat.le_refl _⟩)) (fun _ => id) fun _ _ hend =>
      ⟨hend.1, fun hlast => hend.2 (hlast _)⟩
  | report event next ih => exact ih (h.alike (w.alike_emit context.resolution.logger event))
  | meet gate next ih => exact ih h

variable [Hashed V] (hmakes : ∀ context, (stored.binding.definition context).MakesLast)
include hmakes

/-- Obtaining a value of whatever component stores leaves the values of the binding different objects. -/
theorem Stored.obtain_distinguishes {other : Stored V E}
    (hother : w.binding? other.owner other.binding.key.identity = some other.binding) (h : w.Distinguishes stored) :
    ((other.obtain context).run answer w).Meets halts fun _ w' => w'.Distinguishes stored := by
  have hcreate (w' : World V E) (hw' : w'.Distinguishes stored) :
      ((other.create context).run answer w').Meets halts fun result made => made.Distinguishes stored ∧
        (other = stored → ∀ object, result = .ok object → made.Newest stored object) := by
    refine Task.meets_bind (Program.toTask_distinguishes hkept hstuck _ hw') fun outcome made hmade =>
      ⟨hmade.1, fun hsame object hobject => ?_⟩
    subst hsame
    cases outcome with
    | error cause => cases hobject
    | ok made => exact hmade.2 (hmakes context) object (congrArg Except.ok (Except.ok.inj hobject))
  apply obtain_meets
  · exact fun _ => (hcreate w h).mono (fun _ => id) fun _ _ => And.left
  · exact fun _ => h
  · intro slot w' hslot halike
    refine (h.alike halike).keep_meets hstuck fun v hv => (hcreate v hv).mono (fun _ => id) fun result made hmade =>
      ⟨hmade.1, fun fingerprint object hplace => hmade.2 ?_ object⟩
    exact (eq_of_slot?_place h.binding hother (hplace ▸ hslot)).1

/-- Calls lead to no others, and leave the values of the binding different objects. -/
theorem Call.body_distinguishes (request : Call V) (h : w.Distinguishes stored) :
    (request.body.run answer w).Meets halts fun _ w' => w'.Distinguishes stored := by
  cases request with
  | resolve c path resolution key parameters =>
    apply Resolution.resolve_meets fun reply between => between.Distinguishes stored ∧
      ∀ other, reply = .ok (some other) →
        between.binding? other.owner other.binding.key.identity = some other.binding
    · exact fun _ _ _ _ halike => h.alike halike
    · intro w' _ halike
      have hacts := Resolution.locate_acts (V := V) (E := E) resolution key c
      have hyields : (Resolution.locate resolution key c : Task V E _).Yields .lax _ [] :=
        Resolution.locate_yields Conduct.lawful_lax c
      refine (hyields.meets hacts trivial answer halts).with_run.mono (fun _ => id) fun reply between hbetween => ?_
      obtain ⟨⟨-, -, hcells, hobject⟩, hrun⟩ := hbetween
      refine ⟨(h.alike halike).of_accrues (hyields.accrues hrun hacts) hcells hobject, ?_⟩
      rintro other rfl
      obtain ⟨asked, hlocates⟩ := Resolution.Locates.of_run hrun
      exact hlocates.stored.1
    · exact fun _ _ _ hlocated halike => hlocated.1.alike halike
    · exact fun _ _ hlocated halike => hlocated.1.alike halike
    · intro other between _ hlocated
      refine (Stored.obtain_distinguishes hkept hstuck hmakes (hlocated.2 other rfl) hlocated.1).mono (fun _ => id)
        fun _ _ hmade w' halike => hmade.alike halike
  | obtain owner key context =>
    unfold body
    rw [Task.run_read]
    cases hfound : w.binding? owner key.identity with
    | none => exact h
    | some binding =>
      obtain ⟨-, -, -, hkey⟩ := World.mem_of_binding? hfound
      let other : Stored V E := ⟨owner, binding⟩
      have hother : w.binding? other.owner other.binding.key.identity = some other.binding := hkey ▸ hfound
      refine Task.meets_bind (Stored.obtain_distinguishes hkept hstuck hmakes hother h) fun result w' hresult => ?_
      cases result <;> exact hresult

end Walk

section Calls

variable [Hashed V] {stored : Stored V E} (hmakes : ∀ context, (stored.binding.definition context).MakesLast)
include hmakes

/-- Calls leave the values of the binding different objects, however deep they go. -/
theorem Contract.distinguishing_kept (depth : Nat) :
    (Contract.distinguishing stored).KeptBy (Call.answer depth) fun _ => True := by
  induction depth with
  | zero => exact fun _ _ _ => trivial
  | succ depth ih => exact fun request w hasks => Call.body_distinguishes ih trivial hmakes request hasks

/-- All calls that are taken up are taken up where the values of the binding are different objects. -/
theorem Call.distinguishes_of_called {depth : Nat} {outer request : Call V} {u v : World V E}
    (hu : u.Distinguishes stored) (hcalled : .called request v ∈ Call.journal depth outer u) : v.Distinguishes stored :=
  Contract.asks_of_called (Contract.distinguishing_kept hmakes)
    (fun request _ _ hasks hkept => Call.body_distinguishes hkept rfl hmakes request hasks) hu hcalled

end Calls

end Injection
