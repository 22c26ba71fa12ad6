import Injection.Proofs.Reports
import Injection.Proofs.Selection

/-!
# Which factories are asked

Only if nothing is found for a key are the component's factories asked. They are asked for the required key, the
last added first, up to the first that has a binding or fails, and the binding is stored in the component under
the key that was asked for. What factories do besides does not matter for that: they may answer by any program,
change the surroundings and have catalogs store bindings, there and elsewhere.
-/

namespace Injection

variable {V E α : Type}

section Definitions

variable (resolution : Resolution) (key : Key) (c : ComponentId)

/-- A factory that is asked for a key at a component gives a reply, and leaves the world in some state. -/
def Factory.Replies (factory : Factory V E) (w : World V E) (reply : SynthesisReply V E) (w' : World V E) : Prop :=
  ∀ answer, (Resolution.synthesis resolution (factory key c)).run answer w = .ok (reply, w')

/-- Factories are asked in order. All that are asked decline, except that the last may have a binding or fail;
then no other is asked. -/
inductive Inquiry : List (Factory V E) → World V E → (asked : List (Factory V E)) → SynthesisReply V E →
    World V E → Prop
  | exhausted (w : World V E) : Inquiry [] w [] (.ok none) w
  | declined {factory : Factory V E} {rest asked : List (Factory V E)} {w w' w'' : World V E}
      {reply : SynthesisReply V E} : factory.Replies resolution key c w (.ok none) w' →
        Inquiry rest w' asked reply w'' → Inquiry (factory :: rest) w (factory :: asked) reply w''
  | settled {factory : Factory V E} {rest : List (Factory V E)} {w w' : World V E} {reply : SynthesisReply V E} :
      factory.Replies resolution key c w reply w' → reply ≠ .ok none →
        Inquiry (factory :: rest) w [factory] reply w'

/-- What is stored in a component after factories have replied, and where. -/
def SynthesisReply.stored (reply : SynthesisReply V E) (w : World V E) :
    Except ResolveError (Option (Stored V E)) :=
  reply.map (Option.map fun binding => ⟨c, (w.binding? c key.identity).getD (binding.withKey key)⟩)

/-- The world once the binding of a reply is stored in a component. -/
def SynthesisReply.keep (reply : SynthesisReply V E) (w : World V E) : World V E :=
  match reply with
  | .ok (some binding) => w.memoize c (binding.withKey key)
  | _ => w

/-- How a key is located at a component, which factories are asked on the way, and what it is located at. -/
inductive Resolution.Locates (w : World V E) : (asked : List (Factory V E)) →
    Except ResolveError (Option (Stored V E)) → World V E → Prop
  | found {stored : Stored V E} {w' : World V E} : w.found? key c = some stored → w.Coincides w' →
      Locates w [] (.ok (some stored)) w'
  | inquired {asked : List (Factory V E)} {reply : SynthesisReply V E} {u w' : World V E} :
      w.found? key c = none →
        Inquiry resolution key.required c (w.config c).factories.reverse w asked reply u →
          (SynthesisReply.keep key.required c reply u).Coincides w' →
            Locates w asked (SynthesisReply.stored key.required c reply u) w'

end Definitions

/-- The factories that a nested call asks before it obtains a value. -/
inductive Call.Asks (w : World V E) : Call V → List (Factory V E) → Prop
  | located {c : ComponentId} {path : List Key} {resolution : Resolution} {key : Key} {parameters : Parameters V}
      {asked : List (Factory V E)} {located : Except ResolveError (Option (Stored V E))} {u : World V E} :
      (∀ visited ∈ path, visited.site ≠ key.site) →
        Resolution.Locates resolution key c (w.emit resolution.logger (.lookup key)) asked located u →
          Asks w (.resolve c path resolution key parameters) asked
  | cyclic {c : ComponentId} {path : List Key} {resolution : Resolution} {key visited : Key}
      {parameters : Parameters V} : visited ∈ path → visited.site = key.site →
        Asks w (.resolve c path resolution key parameters) []
  | passed {owner : ComponentId} {key : Key} {context : Context V} : Asks w (.obtain owner key context) []

section Inquiries

variable {resolution : Resolution} {key : Key} {c : ComponentId} {factories asked : List (Factory V E)}
  {w u : World V E} {reply : SynthesisReply V E}

/-- Every factory gives one reply. -/
theorem Factory.exists_replies (factory : Factory V E) (w : World V E) :
    ∃ reply w', factory.Replies resolution key c w reply w' :=
  (Resolution.synthesis_acts (factory key c)).exists_run w

/-- A factory has one reply in a world, and leaves one world behind. -/
theorem Factory.Replies.unique {factory : Factory V E} {reply' : SynthesisReply V E} {u' : World V E}
    (h : factory.Replies resolution key c w reply u) (h' : factory.Replies resolution key c w reply' u') :
    reply = reply' ∧ u = u' :=
  Prod.mk.inj (Except.ok.inj ((h fun _ _ => .error .tooDeep).symm.trans (h' fun _ _ => .error .tooDeep)))

/-- What a factory replies does not depend on reports. -/
theorem Factory.Replies.coincides {factory : Factory V E} {w' : World V E}
    (h : factory.Replies resolution key c w reply u) (hw : w.Coincides w') :
    ∃ u', factory.Replies resolution key c w' reply u' ∧ u.Coincides u' := by
  obtain ⟨reply', u', hreply'⟩ : ∃ reply' u', factory.Replies resolution key c w' reply' u' :=
    factory.exists_replies w'
  have hanswer : Call.Concurring fun (_ : Call V) (_ : World V E) => .error .tooDeep := fun _ _ _ _ => rfl
  obtain ⟨after, hafter, hu⟩ :=
    ((Resolution.synthesis_indifferent (factory key c)).run hanswer hw).of_ok (h _)
  obtain ⟨rfl, rfl⟩ := Prod.mk.inj (Except.ok.inj ((hreply' _).symm.trans hafter))
  exact ⟨u', hreply', hu⟩

namespace Inquiry

/-- Nor does an inquiry. -/
theorem coincides {w' : World V E} (h : Inquiry resolution key c factories w asked reply u) (hw : w.Coincides w') :
    ∃ u', Inquiry resolution key c factories w' asked reply u' ∧ u.Coincides u' := by
  induction h generalizing w' with
  | exhausted w => exact ⟨w', .exhausted w', hw⟩
  | declined hdeclined _ ih =>
    obtain ⟨between, hdeclined', hbetween⟩ := hdeclined.coincides hw
    obtain ⟨u', hrest, hu⟩ := ih hbetween
    exact ⟨u', .declined hdeclined' hrest, hu⟩
  | settled hsettled hreply =>
    obtain ⟨u', hsettled', hu⟩ := hsettled.coincides hw
    exact ⟨u', .settled hsettled' hreply, hu⟩

/-- Every inquiry comes to a reply. -/
theorem exists_inquiry (resolution : Resolution) (key : Key) (c : ComponentId) (factories : List (Factory V E))
    (w : World V E) : ∃ asked reply w', Inquiry resolution key c factories w asked reply w' := by
  induction factories generalizing w with
  | nil => exact ⟨[], .ok none, w, .exhausted w⟩
  | cons factory rest ih =>
    obtain ⟨reply, between, hreply⟩ := factory.exists_replies w
    by_cases hdeclined : reply = .ok none
    · obtain ⟨asked, last, w', hrest⟩ := ih between
      exact ⟨_, last, w', .declined (hdeclined ▸ hreply) hrest⟩
    · exact ⟨_, reply, between, .settled hreply hdeclined⟩

/-- An inquiry asks the same factories and comes to the same reply whenever it is made in the same world. -/
theorem unique {asked' : List (Factory V E)} {reply' : SynthesisReply V E} {u' : World V E}
    (h : Inquiry resolution key c factories w asked reply u)
    (h' : Inquiry resolution key c factories w asked' reply' u') : asked = asked' ∧ reply = reply' ∧ u = u' := by
  induction h generalizing asked' with
  | exhausted w => cases h'; exact ⟨rfl, rfl, rfl⟩
  | declined hreply _ ih =>
    cases h' with
    | declined hreply' hrest' =>
      obtain ⟨-, rfl⟩ := hreply.unique hreply'
      obtain ⟨rfl, rfl, rfl⟩ := ih hrest'
      exact ⟨rfl, rfl, rfl⟩
    | settled hreply' hsettled => exact absurd (hreply.unique hreply').1.symm hsettled
  | settled hreply hsettled =>
    cases h' with
    | declined hreply' _ => exact absurd (hreply.unique hreply').1 hsettled
    | settled hreply' _ =>
      obtain ⟨rfl, rfl⟩ := hreply.unique hreply'
      exact ⟨rfl, rfl, rfl⟩

/-- If all decline, all are asked. -/
theorem asked_of_none (h : Inquiry resolution key c factories w asked (.ok none) u) : asked = factories := by
  generalize hreply : (.ok none : SynthesisReply V E) = last at h
  induction h with
  | exhausted w => rfl
  | declined _ _ ih => rw [ih hreply]
  | settled _ hsettled => exact absurd hreply.symm hsettled

/-- What every factory leaves as it is when it declines is as it was if all decline. -/
theorem preserves_of_none {P : World V E → Prop} (h : Inquiry resolution key c factories w asked (.ok none) u)
    (hfactories : ∀ factory ∈ factories, ∀ {v v' : World V E},
      factory.Replies resolution key c v (.ok none) v' → P v → P v') (hw : P w) : P u := by
  generalize hreply : (.ok none : SynthesisReply V E) = last at h
  induction h with
  | exhausted w => exact hw
  | declined hdeclined _ ih =>
    exact ih (fun other hother => hfactories other (List.mem_cons_of_mem _ hother))
      (hfactories _ List.mem_cons_self hdeclined hw) hreply
  | settled _ hsettled => exact absurd hreply.symm hsettled

/-- Somebody must have been asked for a reply that does not decline. -/
theorem exists_factory (h : Inquiry resolution key c factories w asked reply u) (hreply : reply ≠ .ok none) :
    ∃ factory, factory ∈ factories := by
  cases h with
  | exhausted w => exact absurd rfl hreply
  | declined _ _ => exact ⟨_, List.mem_cons_self⟩
  | settled _ _ => exact ⟨_, List.mem_cons_self⟩

/-- If one settles the matter, those behind it are left out: whichever there are, the inquiry is the same. -/
theorem of_settled (h : Inquiry resolution key c factories w asked reply u) (hreply : reply ≠ .ok none) :
    asked <+: factories ∧ ∀ others, Inquiry resolution key c (asked ++ others) w asked reply u := by
  induction h with
  | exhausted w => exact absurd rfl hreply
  | declined hdeclined _ ih =>
    obtain ⟨hfront, hothers⟩ := ih hreply
    exact ⟨List.cons_prefix_cons.mpr ⟨rfl, hfront⟩, fun others => .declined hdeclined (hothers others)⟩
  | settled hsettled _ =>
    exact ⟨List.cons_prefix_cons.mpr ⟨rfl, List.nil_prefix⟩, fun others => .settled hsettled hreply⟩

/-- What every factory leaves as it is, an inquiry leaves as it is. -/
theorem preserves {P : World V E → Prop} (h : Inquiry resolution key c factories w asked reply u)
    (hfactories : ∀ factory ∈ factories, ∀ {v v' : World V E} {reply : SynthesisReply V E},
      factory.Replies resolution key c v reply v' → P v → P v') (hw : P w) : P u := by
  induction h with
  | exhausted w => exact hw
  | declined hdeclined _ ih =>
    exact ih (fun other hother => hfactories other (List.mem_cons_of_mem _ hother))
      (hfactories _ List.mem_cons_self hdeclined hw)
  | settled hsettled _ => exact hfactories _ List.mem_cons_self hsettled hw

end Inquiry

/-! ### What the rules come to -/

namespace Resolution

/-- Storing a binding in worlds that coincide leaves worlds that coincide. -/
theorem memoize_coincides {w' : World V E} (hw : w.Coincides w') (binding : Binding V E) (resolution : Resolution) :
    ∃ w'', (∀ answer, (memoize resolution c binding).run answer w' =
      .ok (⟨c, (w.binding? c binding.key.identity).getD binding⟩, w'')) ∧ (w.memoize c binding).Coincides w'' := by
  have hchange := hw.memoize c binding
  have hbinding := World.binding?_of_components (c := c) hw.components binding.key.identity
  cases hbefore : w.binding? c binding.key.identity with
  | none =>
    refine ⟨_, fun answer => ?_, hchange.trans (World.coincides_emit _ resolution.logger .memoized)⟩
    simp [memoize, Task.run, hbinding, hbefore]
  | some stored =>
    refine ⟨_, fun answer => ?_, hchange.trans (World.coincides_emit _ resolution.logger .alreadyMemoized)⟩
    simp [memoize, Task.run, hbinding, hbefore]

/-- Asking factories comes to what the inquiry comes to: its binding is stored under the key asked for. -/
theorem askFactories_run (h : Inquiry resolution key c factories w asked reply u) :
    ∃ w', (∀ answer, (askFactories resolution key c factories).run answer w =
      .ok (SynthesisReply.stored key c reply u, w')) ∧ (SynthesisReply.keep key c reply u).Coincides w' := by
  induction h with
  | exhausted w => exact ⟨w, fun _ => rfl, .refl w⟩
  | declined hdeclined _ ih =>
    obtain ⟨w', hrun, hw'⟩ := ih
    exact ⟨w', fun answer => (Task.run_bind_of_ok (hdeclined answer)).trans (hrun answer), hw'⟩
  | @settled factory rest w u reply hsettled hreply =>
    match reply, hreply with
    | .error e, _ => exact ⟨u, fun answer => (Task.run_bind_of_ok (hsettled answer)).trans rfl, .refl u⟩
    | .ok none, hreply => exact absurd rfl hreply
    | .ok (some binding), _ =>
      obtain ⟨w', hrun, hw'⟩ := memoize_coincides (c := c) (u.coincides_emit resolution.logger .synthesized)
        (binding.withKey key) resolution
      refine ⟨w', fun answer => (Task.run_bind_of_ok (hsettled answer)).trans ?_, hw'⟩
      exact (Task.run_bind_of_ok (hrun answer)).trans rfl

/-- A search leaves the world as it is. -/
theorem search_coincides (resolution : Resolution) (key : Key) (c : ComponentId) (w : World V E) :
    ∃ w', (∀ answer, (search resolution key c).run answer w = .ok (w.found? key c, w')) ∧ w.Coincides w' := by
  obtain ⟨found, w', hrun, hw'⟩ := (search_onlyReports resolution key c).exists_run w
  obtain ⟨_, hfound, -⟩ := search_run (fun _ _ => .error .tooDeep) resolution c key w
  obtain rfl := (Prod.mk.inj (Except.ok.inj ((hrun _).symm.trans hfound))).1
  exact ⟨w', hrun, hw'⟩

/-- What is stored for a reply, and the world then, do not depend on reports. -/
theorem stored_coincides {u' : World V E} (hu : u.Coincides u') (key : Key) (c : ComponentId)
    (reply : SynthesisReply V E) :
    SynthesisReply.stored key c reply u' = SynthesisReply.stored key c reply u ∧
      (SynthesisReply.keep key c reply u).Coincides (SynthesisReply.keep key c reply u') := by
  constructor
  · unfold SynthesisReply.stored
    rw [World.binding?_of_components hu.components]
  · match reply with
    | .error e => exact hu
    | .ok none => exact hu
    | .ok (some binding) =>
      exact hu.memoize c _

/-- A key is located in some way. -/
theorem exists_locates (resolution : Resolution) (key : Key) (c : ComponentId) (w : World V E) :
    ∃ asked located w', (∀ answer, (locate resolution key c).run answer w = .ok (located, w')) ∧
      Locates resolution key c w asked located w' := by
  obtain ⟨searched, hsearch, hsearched⟩ := search_coincides resolution key c w
  cases hfound : w.found? key c with
  | some stored =>
    rw [hfound] at hsearch
    exact ⟨[], .ok (some stored), searched, fun answer => (Task.run_bind_of_ok (hsearch answer)).trans rfl,
      .found hfound hsearched⟩
  | none =>
    rw [hfound] at hsearch
    obtain ⟨asked, reply, u, hinquiry⟩ :=
      Inquiry.exists_inquiry resolution key.required c (w.config c).factories.reverse w
    obtain ⟨u', hinquiry', hu⟩ := hinquiry.coincides hsearched
    obtain ⟨w', hrun, hw'⟩ := askFactories_run hinquiry'
    obtain ⟨hstored, hkeep⟩ := stored_coincides hu key.required c reply
    have hconfig : searched.config c = w.config c := (World.Grows.of_components hsearched.components).config c
    refine ⟨asked, _, w', fun answer => (Task.run_bind_of_ok (hsearch answer)).trans ?_,
      .inquired hfound hinquiry (hkeep.trans hw')⟩
    rw [← hconfig, hstored] at hrun
    exact hrun answer

/-- What is found for a key the key is located at, and nothing changes by that. -/
theorem locate_of_found {stored : Stored V E} (h : w.found? key c = some stored) (resolution : Resolution) :
    ∃ w', (∀ answer, (locate resolution key c).run answer w = .ok (.ok (some stored), w')) ∧ w.Coincides w' := by
  obtain ⟨asked, located, w', hrun, hlocates⟩ := exists_locates resolution key c w
  cases hlocates with
  | found hfound hw' =>
    obtain rfl := Option.some.inj (hfound.symm.trans h)
    exact ⟨w', hrun, hw'⟩
  | inquired hnone _ _ => simp [h] at hnone

/-- There is one way to locate a key, whatever has been reported; and two keys of one required form for which the
same is found are located alike. -/
theorem Locates.agree {key' : Key} {asked' : List (Factory V E)}
    {located located' : Except ResolveError (Option (Stored V E))} {w' v v' : World V E}
    (hrequired : key'.required = key.required) (hfound : w'.found? key' c = w.found? key c) (hw : w.Coincides w')
    (h : Locates resolution key c w asked located v) (h' : Locates resolution key' c w' asked' located' v') :
    asked' = asked ∧ located' = located ∧ v.Coincides v' := by
  cases h with
  | found hstored hv =>
    cases h' with
    | found hstored' hv' =>
      obtain rfl := Option.some.inj (hstored'.symm.trans (hfound.trans hstored))
      exact ⟨rfl, rfl, (hv.symm.trans hw).trans hv'⟩
    | inquired hnone' _ _ => simp [hfound, hstored] at hnone'
  | inquired hnone hinquiry hv =>
    cases h' with
    | found hstored' _ => simp [hfound, hnone] at hstored'
    | inquired _ hinquiry' hv' =>
      obtain ⟨between, hsame, hbetween⟩ := hinquiry.coincides hw
      have hconfig : w'.config c = w.config c := (World.Grows.of_components hw.components).config c
      rw [hconfig, hrequired] at hinquiry'
      obtain ⟨rfl, rfl, rfl⟩ := hsame.unique hinquiry'
      obtain ⟨hstored, hkeep⟩ := stored_coincides hbetween key.required c _
      rw [hrequired] at hv' ⊢
      exact ⟨rfl, hstored, (hv.symm.trans hkeep).trans hv'⟩

/-- There is one way to locate a key. -/
theorem Locates.unique {asked' : List (Factory V E)} {located located' : Except ResolveError (Option (Stored V E))}
    {v v' : World V E} (h : Locates resolution key c w asked located v)
    (h' : Locates resolution key c w asked' located' v') : asked' = asked ∧ located' = located ∧ v.Coincides v' :=
  h.agree rfl rfl (.refl w) h'

/-- Whoever locates a key does so in this one way. -/
theorem Locates.of_run {answer : Call V → World V E → Run V E (Reply V)} {w' : World V E}
    {located : Except ResolveError (Option (Stored V E))}
    (h : (locate resolution key c).run answer w = .ok (located, w')) :
    ∃ asked, Locates resolution key c w asked located w' := by
  obtain ⟨asked, located', u, hrun, hlocates⟩ := exists_locates resolution key c w
  obtain ⟨rfl, rfl⟩ := Prod.mk.inj (Except.ok.inj (h.symm.trans (hrun answer)))
  exact ⟨asked, hlocates⟩

end Resolution

end Inquiries

/-! ### Going on from there -/

/-- Ends with what obtaining a value came to, and reports an error. -/
def Resolution.deliver (resolution : Resolution) : Except ResolveError (Object V) → Task V E (Reply V)
  | .ok object => return .ok (some object)
  | .error e => Task.fail resolution e

/-- What resolving a key goes on with once the key is located. -/
def Resolution.conclude [Hashed V] (path : List Key) (resolution : Resolution) (key : Key)
    (parameters : Parameters V) : Except ResolveError (Option (Stored V E)) → Task V E (Reply V)
  | .error e => Task.fail resolution e
  | .ok none =>
    if key.nullable then do
      Task.emit resolution .nullFallback
      return .ok none
    else
      Task.fail resolution (.unresolved key)
  | .ok (some stored) =>
    (stored.obtain { component := stored.owner, key, parameters, path := path ++ [key], resolution }).bind
      (deliver resolution)

/-- The world after a call has looked up what it asks for. -/
def Call.located [Hashed V] : Call V → World V E → World V E
  | resolve c path resolution key _, w =>
    if path.any fun visited => visited.site = key.site then w
    else
      match (w.emit resolution.logger (.lookup key)).run 0 (Resolution.locate resolution key c) with
      | .ok (_, found) => found
      | .error _ => w
  | obtain _ _ _, w => w

section Conclusions

variable [Hashed V] {c : ComponentId} {path : List Key} {resolution : Resolution} {key : Key}
  {parameters : Parameters V} {w u : World V E} {located : Except ResolveError (Option (Stored V E))}

/-- A key that is not under construction is located, and that is gone on from. -/
theorem Resolution.resolve_eq (hfresh : ∀ visited ∈ path, visited.site ≠ key.site) :
    (resolve c path resolution key parameters : Task V E (Reply V)) = (do
      Task.emit resolution (.lookup key)
      (locate resolution key c).bind (conclude path resolution key parameters)) := by
  have hnot : ¬ (path.any fun visited => visited.site = key.site) := by simpa using hfresh
  unfold resolve
  rw [if_neg hnot]
  refine congrArg (Task.bind _) (funext fun _ => congrArg (Task.bind _) (funext fun located => ?_))
  match located with
  | .error e => rfl
  | .ok none => rfl
  | .ok (some stored) =>
    refine congrArg (Task.bind _) (funext fun result => ?_)
    cases result <;> rfl

variable (hfresh : ∀ visited ∈ path, visited.site ≠ key.site)
  (hlocate : ∀ answer, (Resolution.locate resolution key c).run answer (w.emit resolution.logger (.lookup key)) =
    .ok (located, u))
include hfresh hlocate

/-- A call has located its key in the world that locating it leads to. -/
theorem Call.located_resolve : (Call.resolve c path resolution key parameters).located w = u := by
  have hnot : ¬ (path.any fun visited => visited.site = key.site) := by simpa using hfresh
  have hrun := hlocate (Call.answer 0)
  simp only [Call.located, World.run, if_neg hnot, hrun]

/-- What a call is answered is what it goes on to from where its key is located. -/
theorem Call.answer_resolve (depth : Nat) : Call.answer (depth + 1) (.resolve c path resolution key parameters) w =
    (Resolution.conclude path resolution key parameters located).run (Call.answer depth) u := by
  change (Resolution.resolve c path resolution key parameters).run (Call.answer depth) w = _
  rw [Resolution.resolve_eq hfresh, Task.run_emit]
  exact Task.run_bind_of_ok (hlocate _)

/-- Looking a key up calls nothing: the journal of a call is that of what it goes on with. -/
theorem Call.journal_resolve (depth : Nat) : Call.journal (depth + 1) (.resolve c path resolution key parameters) w =
    .called (.resolve c path resolution key parameters) w ::
      (Resolution.conclude path resolution key parameters located).journal (Call.answer depth) (Call.journal depth) u := by
  have hquiet : (Resolution.locate resolution key c).journal (Call.answer depth) (Call.journal depth)
      (w.emit resolution.logger (.lookup key)) = [] := (Resolution.locate_acts resolution key c).journal _
  refine congrArg (List.cons _) ?_
  change (Resolution.resolve c path resolution key parameters).journal _ _ w = _
  rw [Resolution.resolve_eq hfresh, Task.journal_emit, Task.journal_bind_of_ok (hlocate _), hquiet]
  rfl

end Conclusions

end Injection
