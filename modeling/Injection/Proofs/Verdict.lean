import Injection.Proofs.Cycles

/-!
# What decides a request

In a hierarchy without factories, whose definitions list what they need and fail only if a need does,
the graph of dependencies decides every request: it is answered with an object only if what it leads to
is acyclic and everything required there is found, whichever requests came before. A value that is kept
certifies this for the binding that it was made for.

The converse holds unless a binding leads to one with an optional need for its own site that the owner
of the latter finds nothing for. Such a need is refused as cyclic while the first binding's value is
under construction, and goes unmet at other times.
-/

namespace Injection

variable {V E : Type}

/-- The stored binding lists a need for the key. -/
def Need.Listed (needs : Stored V E → List Need) (stored : Stored V E) (key : Key) : Prop :=
  ∃ need ∈ needs stored, need.key = key

/-- The query expects the type that it asks for, and does not insist on an optional key. -/
def Query.Fits (q : Query V) : Prop :=
  match q.expects with
  | .anything => True
  | .required type => type.id = q.key.type.id ∧ q.key.nullable = false
  | .nullable type => type.id = q.key.type.id

/-- Every need is queried for the type that it asks for. -/
theorem Need.query_fits (need : Need) : (need.query : Query V).Fits := by
  cases need with
  | inject type => exact ⟨rfl, rfl⟩
  | injectNamed type name => exact ⟨rfl, rfl⟩
  | injectOptional type => exact rfl

namespace World

section Graph

variable (w : World V E) (asks : Stored V E → Key → Prop)

/-- Whatever is required by what a stored binding leads to is found. -/
def Complete (start : Stored V E) : Prop :=
  ∀ stored key, w.LeadsTo asks start stored → asks stored key → key.nullable = false →
    w.found? key stored.owner ≠ none

/-- No binding that a stored binding leads to leads to one that asks for an optional key of its site,
unless something is found for the key. -/
def Clear (start : Stored V E) : Prop :=
  ∀ stored last key, w.LeadsTo asks start stored → w.LeadsTo asks stored last → asks last key →
    stored.binding.key.site = key.site → key.nullable = true → w.found? key last.owner ≠ none

/-- A stored binding is grounded if all that it requires is found and all that it depends on is
grounded. -/
inductive Grounded : Stored V E → Prop
  | intro (stored : Stored V E)
    (found : ∀ key, asks stored key → key.nullable = false → w.found? key stored.owner ≠ none)
    (below : ∀ other, w.DependsOn asks stored other → Grounded other) : Grounded stored

/-- The error comes down to a required key that nothing is found for, be it requested at the top or
asked for by what that leads to, or to a path that comes back to a site. -/
def Refuses (c₀ : ComponentId) (k₀ : Key) (e : ResolveError) : Prop :=
  (∃ key, e.rootCause = .unresolved key ∧
    ((key = k₀ ∧ w.found? k₀ c₀ = none) ∨ ∃ start stored, w.found? k₀ c₀ = some start ∧
      w.LeadsTo asks start stored ∧ asks stored key ∧ key.nullable = false ∧ w.found? key stored.owner = none)) ∨
    ∃ path, e.rootCause = .cyclicDependency path ∧ w.Looped asks c₀ k₀ path

variable {w asks} {stored other : Stored V E}

/-- What a grounded binding leads to is grounded. -/
theorem Grounded.leadsTo (h : w.Grounded asks stored) (hleads : w.LeadsTo asks stored other) :
    w.Grounded asks other := by
  induction hleads with
  | refl => exact h
  | tail _ hdepends ih =>
    cases ih with
    | intro _ _ below => exact below _ hdepends

/-- What is grounded does not depend on itself. -/
theorem Grounded.irrefl (h : w.Grounded asks stored) : ¬Relation.TransGen (w.DependsOn asks) stored stored := by
  induction h with
  | intro stored _ _ ih =>
    intro hcycle
    obtain ⟨other, hdepends, hback⟩ := Relation.TransGen.head'_iff.mp hcycle
    exact ih other hdepends (.tail' hback hdepends)

/-- Nothing that a grounded binding leads to depends on itself. -/
theorem Grounded.acyclic (h : w.Grounded asks stored) : w.Acyclic asks stored :=
  fun _ hleads => (h.leadsTo hleads).irrefl

/-- All that is required by what a grounded binding leads to is found. -/
theorem Grounded.complete (h : w.Grounded asks stored) : w.Complete asks stored := by
  intro other key hleads
  cases h.leadsTo hleads with
  | intro _ found _ => exact found key

end Graph

/-- A hierarchy without factories and multi bindings, in which bindings are stored under required
keys, no site in two components. All definitions make objects of the type they are stored under from
listed dependencies, by providers that make no requests of their own and do not fail. -/
structure Wired (w : World V E) (needs : Stored V E → List Need) : Prop where
  explicit : w.Explicit
  kinds : ∀ c, ∀ binding ∈ w.bindings c, binding.kind ≠ .multi
  required : ∀ c, ∀ binding ∈ w.bindings c, binding.key.nullable = false
  unique : ∀ c d, ∀ binding ∈ w.bindings c, ∀ other ∈ w.bindings d, binding.key.site = other.key.site → c = d
  provided : ∀ c, ∀ binding ∈ w.bindings c, ∃ (α : Type) (dependencies : Dependency V E α)
    (provider : α → Action V E (Except String V)), dependencies.Lists (needs ⟨c, binding⟩) ∧
      (∀ a, (provider a).Provides fun outcome => ∃ value, outcome = .ok value) ∧
        binding.definition = .ofProvider binding.key.type.id dependencies provider

/-- An object vouches for the binding that it was made for: it is of the binding's type, and the
binding is grounded. -/
def Vouches (w : World V E) (needs : Stored V E → List Need) (stored : Stored V E) (object : Object V) : Prop :=
  object.type = stored.binding.key.type.id ∧ w.Grounded (Need.Listed needs) stored

/-- What a request comes to in a wired hierarchy. -/
def verdict (w : World V E) (needs : Stored V E → List Need) (c : ComponentId) (key : Key) : Judgement V E :=
  ⟨w.Vouches needs, w.Refuses (Need.Listed needs) c key⟩

end World

section Verdict

variable {w : World V E} {needs : Stored V E → List Need} {c c₀ : ComponentId} {key k₀ : Key}

/-- Whatever a fitting query is answered with is of the type that it expects. -/
theorem Query.accept_answered {q : Query V} (hfits : q.Fits) {reply : Reply V}
    (h : (w.verdict needs c₀ k₀).Answered w c q.key reply) : q.accept reply = reply := by
  unfold Fits at hfits
  match reply, h with
  | .error e, _ => rfl
  | .ok none, ⟨hnullable, _⟩ =>
    unfold accept
    cases hexpects : q.expects with
    | anything => rfl
    | nullable type => rfl
    | required type =>
      rw [hexpects] at hfits
      simp [hnullable] at hfits
  | .ok (some object), ⟨stored, hfound, hvouches⟩ =>
    have htype : object.type = q.key.type.id :=
      hvouches.1.trans (congrArg Site.type (World.mem_of_found? hfound).2)
    unfold accept
    cases hexpects : q.expects with
    | anything => rfl
    | nullable type =>
      rw [hexpects] at hfits
      simp [htype, hfits]
    | required type =>
      rw [hexpects] at hfits
      simp [htype, hfits.1]

/-- A need that is met is met by a grounded binding, or it is optional and nothing is found for it. -/
theorem Need.Met.grounded {need : Need} (h : need.Met ((w.verdict needs c₀ k₀).Answered w c)) :
    (∃ stored, w.found? need.key c = some stored ∧ w.Grounded (Need.Listed needs) stored) ∨
      need.key.nullable = true ∧ w.found? need.key c = none := by
  obtain ⟨reply, answer, hanswered, haccept⟩ := h
  rw [← need.query_key (V := V)] at hanswered ⊢
  rw [Query.accept_answered need.query_fits hanswered] at haccept
  subst haccept
  cases answer with
  | none => exact Or.inr hanswered
  | some object =>
    obtain ⟨stored, hfound, hvouches⟩ := hanswered
    exact Or.inl ⟨stored, hfound, hvouches.2⟩

/-- A need fails only as the requests for it do. -/
theorem Need.Fails.refuses {need : Need} {e : ResolveError}
    (h : need.Fails ((w.verdict needs c₀ k₀).Answered w c) e) : w.Refuses (Need.Listed needs) c₀ k₀ e := by
  obtain ⟨reply, hanswered, haccept⟩ := h
  rw [← need.query_key (V := V)] at hanswered
  rw [Query.accept_answered need.query_fits hanswered] at haccept
  subst haccept
  exact hanswered

/-- In a wired hierarchy, what all requests come to has its reason in the graph of dependencies. -/
theorem World.Wired.explains (h : w.Wired needs) (c₀ : ComponentId) (k₀ : Key) :
    (w.verdict needs c₀ k₀).Explains w (Need.Listed needs) c₀ k₀ where
  looped path c key visited htrail hvisited hsite := Or.inr ⟨_, rfl, htrail.looped hvisited hsite⟩
  missing path c key htrail hfound hrequired := by
    refine Or.inl ⟨key, rfl, ?_⟩
    rcases htrail.asked with ⟨-, rfl, rfl⟩ | ⟨start, stored, hstart, hleads, rfl, hlisted⟩
    · exact Or.inl ⟨rfl, hfound⟩
    · exact Or.inr ⟨start, stored, hstart, hleads, hlisted, hrequired, hfound⟩
  bare path c key stored _ hfound hkind := absurd hkind (h.kinds _ _ (World.mem_of_found? hfound).1)
  made path c key stored context _ hfound _ := by
    obtain ⟨α, dependencies, provider, hlists, hprovider, hdefinition⟩ :=
      h.provided stored.owner stored.binding (World.mem_of_found? hfound).1
    rw [hdefinition]
    refine Definition.ofProvider_honors hlists (fun need hneed => ⟨need, hneed, rfl⟩) hprovider ?_ ?_ ?_ context
    · intro hmet object htype
      refine ⟨htype, .intro stored ?_ ?_⟩
      · rintro _ ⟨need, hneed, rfl⟩ hrequired hnone
        rcases (hmet need hneed).grounded with ⟨other, hother, -⟩ | ⟨hnullable, -⟩
        · simp [hnone] at hother
        · simp [hrequired] at hnullable
      · rintro other ⟨_, ⟨need, hneed, rfl⟩, hother⟩
        rcases (hmet need hneed).grounded with ⟨found, hfound', hgrounded⟩ | ⟨-, hnone⟩
        · obtain rfl : found = other := Option.some.inj (hfound'.symm.trans hother)
          exact hgrounded
        · simp [hnone] at hother
    · exact fun need _ e hfails => hfails.refuses
    · rintro message ⟨value, hvalue⟩
      cases hvalue

/-- Bindings that are stored for one site are one binding. -/
theorem World.Wired.eq_of_site (h : w.Wired needs) (hkeyed : w.Keyed) {stored other : Stored V E}
    (hstored : stored.binding ∈ w.bindings stored.owner) (hother : other.binding ∈ w.bindings other.owner)
    (hsite : stored.binding.key.site = other.binding.key.site) : stored = other := by
  refine hkeyed.eq_of_identity hstored hother (h.unique _ _ _ hstored _ hother hsite) ?_
  simp [Key.identity, hsite, h.required _ _ hstored, h.required _ _ hother]

/-- A request is not refused if what it leads to is acyclic, complete and clear. -/
theorem World.Wired.not_refuses (h : w.Wired needs) (hkeyed : w.Keyed) {start : Stored V E}
    (hstart : w.found? k₀ c₀ = some start) (hacyclic : w.Acyclic (Need.Listed needs) start)
    (hcomplete : w.Complete (Need.Listed needs) start) (hclear : w.Clear (Need.Listed needs) start)
    (e : ResolveError) : ¬w.Refuses (Need.Listed needs) c₀ k₀ e := by
  have hunique {other : Stored V E} (hother : w.found? k₀ c₀ = some other) : other = start :=
    Option.some.inj (hother.symm.trans hstart)
  intro hrefuses
  rcases hrefuses with ⟨key, -, ⟨-, hnone⟩ | ⟨first, stored, hfirst, hleads, hlisted, hrequired, hnone⟩⟩ |
    ⟨path, -, before, key, first, stored, last, -, -, hfirst, hleads, hmem, hsite, hlast, hlisted⟩
  · simp [hnone] at hstart
  · obtain rfl := hunique hfirst
    exact hcomplete stored key hleads hlisted hrequired hnone
  · obtain rfl := hunique hfirst
    -- The key is one for the binding's own site: the binding is found for it, or nothing is.
    cases hfound : w.found? key last.owner with
    | some other =>
      obtain ⟨hother, hothersite⟩ := World.mem_of_found? hfound
      obtain rfl : stored = other := h.eq_of_site hkeyed hmem hother (hsite.trans hothersite.symm)
      exact hacyclic stored hleads (.tail' hlast ⟨key, hlisted, hfound⟩)
    | none =>
      cases hnullable : key.nullable with
      | false => exact hcomplete last key (hleads.trans hlast) hlisted hnullable hfound
      | true => exact hclear stored last key hleads hlast hlisted hsite hnullable hfound

end Verdict

/-- The graph of dependencies decides requests for required keys, whichever requests came before. Every
request comes to an end. It is answered with an object, or refused for a required key that nothing is
found for or a path that comes back to a site. It is answered with an object only if something is
found for it that leads to nothing cyclic and nothing incomplete, and it is if, besides, no binding on
the way leads to an optional need for its own site that nothing is found for. -/
theorem World.request_decided [Hashed V] {w₀ w : World V E} {needs : Stored V E → List Need}
    (hpristine : w₀.Pristine) (hwired : w₀.Wired needs) (hhistory : w₀.History w) {q : Query V}
    (hrequired : q.key.nullable = false) (hfits : q.Fits) (c : ComponentId) {depth : Nat}
    (hdepth : w₀.boundSites.length < depth) :
    ∃ reply w', w.run depth (q.task c) = .ok (reply, w') ∧
      ((∃ object, reply = .ok (some object)) ∨
        ∃ e, reply = .error e ∧ w₀.Refuses (Need.Listed needs) c q.key e) ∧
      ((∃ object, reply = .ok (some object)) → ∃ start, w₀.found? q.key c = some start ∧
        w₀.Acyclic (Need.Listed needs) start ∧ w₀.Complete (Need.Listed needs) start) ∧
      ∀ start, w₀.found? q.key c = some start → w₀.Acyclic (Need.Listed needs) start →
        w₀.Complete (Need.Listed needs) start → w₀.Clear (Need.Listed needs) start →
          ∃ object, reply = .ok (some object) := by
  have htracks := hhistory.tracks hpristine hwired.explicit fun c key => ⟨_, _, hwired.explains c key⟩
  have hmeets := Judgement.task_meets hpristine.keyed hwired.explicit (hwired.explains c q.key) htracks depth
  obtain ⟨reply, w', hrun, -, answered, haccept, hanswered⟩ :=
    (hmeets.mono (fun halt hhalt => Nat.not_le_of_lt hdepth hhalt.2) fun _ _ => id).exists_ok
  rw [Query.accept_answered hfits hanswered] at haccept
  subst haccept
  refine ⟨reply, w', hrun, ?_⟩
  match reply, hanswered with
  | .ok none, ⟨hnullable, _⟩ => simp [hrequired] at hnullable
  | .ok (some object), ⟨start, hstart, hvouches⟩ =>
    refine ⟨Or.inl ⟨object, rfl⟩, fun _ => ⟨start, hstart, hvouches.2.acyclic, hvouches.2.complete⟩, ?_⟩
    exact fun _ _ _ _ _ => ⟨object, rfl⟩
  | .error e, hrefuses =>
    refine ⟨Or.inr ⟨e, rfl, hrefuses⟩, by simp, fun start hstart hacyclic hcomplete hclear => ?_⟩
    exact absurd hrefuses (hwired.not_refuses hpristine.keyed hstart hacyclic hcomplete hclear e)

/-! ### An optional need that comes back -/

/-- A parent with a type that needs another one if it is there, and a child with that other type, which
needs the first. -/
def World.hesitant : World Unit Unit :=
  let wishing : Binding Unit Unit :=
    .ofProvider (.nth 1) .single (.injectOptional (.nth 0)) fun _ => pure (.ok ())
  { World.initial () with
    components := [⟨[], [], [wishing], .default, true⟩, ⟨[], [0], [.nth 0 [1]], .default, true⟩] }

namespace World

/-- What the bindings of the parent and of the child need. -/
def hesitantNeeds (stored : Stored Unit Unit) : List Need :=
  if stored.owner = 0 then [.injectOptional (.nth 0)] else [.inject (.nth 1)]

/-- Nothing has been made in the hesitant world yet. -/
theorem pristine_hesitant : hesitant.Pristine := .of_components () (by decide) (by decide)

/-- The bindings of the hesitant world inject their needs, and there are no factories. -/
theorem wired_hesitant : hesitant.Wired hesitantNeeds where
  explicit c := by
    match c with
    | 0 | 1 | _ + 2 => rfl
  kinds c binding hbinding := by
    match c, hbinding with
    | 0, hbinding | 1, hbinding =>
      obtain rfl := List.mem_singleton.mp hbinding
      decide
  required c binding hbinding := by
    match c, hbinding with
    | 0, hbinding | 1, hbinding =>
      obtain rfl := List.mem_singleton.mp hbinding
      rfl
  unique c d binding hbinding other hother hsite := by
    match c, hbinding, d, hother with
    | 0, _, 0, _ | 1, _, 1, _ => rfl
    | 0, hbinding, 1, hother | 1, hbinding, 0, hother =>
      obtain rfl := List.mem_singleton.mp hbinding
      obtain rfl := List.mem_singleton.mp hother
      exact absurd hsite (by decide)
  provided c binding hbinding := by
    match c, hbinding with
    | 0, hbinding =>
      obtain rfl := List.mem_singleton.mp hbinding
      exact ⟨_, _, _, .injectOptional _, fun _ _ _ _ => Action.honors_pure ⟨(), rfl⟩, rfl⟩
    | 1, hbinding =>
      obtain rfl := List.mem_singleton.mp hbinding
      exact ⟨_, _, _, Binding.nth_lists [1], fun _ _ _ _ => Action.honors_pure ⟨(), rfl⟩, rfl⟩

/-- At first the child's request is refused, and for a reason. Once the parent's type has been made the
request is answered, so what it leads to is acyclic and complete. -/
theorem request_decided_hesitant :
    (∃ e w, hesitant.run 3 ((Query.get (.nth 0) []).task 1) = .ok (.error e, w) ∧
      hesitant.Refuses (Need.Listed hesitantNeeds) 1 (.of (.nth 0)) e) ∧
      ∃ w object w', hesitant.History w ∧ w.run 3 ((Query.get (.nth 0) []).task 1) = .ok (.ok (some object), w') ∧
        ∃ start, hesitant.found? (.of (.nth 0)) 1 = some start ∧
          hesitant.Acyclic (Need.Listed hesitantNeeds) start ∧ hesitant.Complete (Need.Listed hesitantNeeds) start := by
  have hfits : (Query.get (.nth 0) [] : Query Unit).Fits := ⟨rfl, rfl⟩
  have hdepth : hesitant.boundSites.length < 3 := by decide
  constructor
  · obtain ⟨e, w, hrun⟩ : ∃ e w, hesitant.run 3 ((Query.get (.nth 0) []).task 1) = .ok (.error e, w) :=
      ⟨_, _, rfl⟩
    obtain ⟨reply, w', hdecided, hreply, -⟩ :=
      request_decided pristine_hesitant wired_hesitant .refl rfl hfits 1 hdepth
    obtain ⟨rfl, rfl⟩ := Prod.mk.inj (Except.ok.inj (hdecided.symm.trans hrun))
    rcases hreply with ⟨object, hobject⟩ | ⟨e', he, hrefuses⟩
    · cases hobject
    · obtain rfl := Except.error.inj he
      exact ⟨e, w', hrun, hrefuses⟩
  · obtain ⟨w, hanswers, object, w', hrun⟩ : ∃ w : World Unit Unit, hesitant.Answers w ∧ ∃ object w',
        w.run 3 ((Query.get (.nth 0) []).task 1) = .ok (.ok (some object), w') :=
      ⟨_, ⟨3, 0, .get (.nth 1) [], _, rfl⟩, _, _, rfl⟩
    obtain ⟨reply, after, hdecided, -, hsound, -⟩ :=
      request_decided pristine_hesitant wired_hesitant (.single hanswers) rfl hfits 1 hdepth
    obtain ⟨rfl, rfl⟩ := Prod.mk.inj (Except.ok.inj (hdecided.symm.trans hrun))
    exact ⟨w, object, after, .single hanswers, hrun, hsound ⟨object, rfl⟩⟩

/-- The child's request is refused at first and answered later, although what it leads to is acyclic and
complete throughout. -/
theorem refused_at_first :
    hesitant.Pristine ∧ hesitant.Wired hesitantNeeds ∧
      (∃ start, hesitant.found? (.of (.nth 0)) 1 = some start ∧
        hesitant.Acyclic (Need.Listed hesitantNeeds) start ∧ hesitant.Complete (Need.Listed hesitantNeeds) start) ∧
      (∃ e w, hesitant.run 3 ((Query.get (.nth 0) []).task 1) = .ok (.error e, w)) ∧
        ∃ w object w', hesitant.History w ∧
          w.run 3 ((Query.get (.nth 0) []).task 1) = .ok (.ok (some object), w') := by
  refine ⟨pristine_hesitant, wired_hesitant, ?_, ⟨_, _, rfl⟩, _, _, _, .single ⟨3, 0, .get (.nth 1) [], _, rfl⟩, rfl⟩
  have hgrounded : hesitant.Grounded (Need.Listed hesitantNeeds) ⟨1, .nth 0 [1]⟩ := by
    refine .intro _ ?_ ?_
    · rintro _ ⟨need, hneed, rfl⟩ _
      obtain rfl := List.mem_singleton.mp hneed
      exact Option.some_ne_none _
    · rintro second ⟨_, ⟨need, hneed, rfl⟩, hsecond⟩
      obtain rfl := List.mem_singleton.mp hneed
      obtain rfl := Option.some.inj hsecond
      refine .intro _ ?_ ?_
      · rintro _ ⟨need, hneed, rfl⟩ hrequired
        obtain rfl := List.mem_singleton.mp hneed
        cases hrequired
      · rintro other ⟨_, ⟨need, hneed, rfl⟩, hother⟩
        obtain rfl := List.mem_singleton.mp hneed
        cases hother
  exact ⟨_, rfl, hgrounded.acyclic, hgrounded.complete⟩

end World

end Injection
