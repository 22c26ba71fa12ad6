import Injection.Proofs.Aftermath
import Injection.Proofs.Confinement
import Mathlib.Data.Finset.Card

/-!
# Requests come to an end

Definitions request keys of a finite set of sites. The path of keys under construction names a site only
once, so it cannot become longer than there are sites. A request lengthens it; passing a request on does
not, but leads to a component that was built earlier. These two together bound how deep calls can be
nested: `Call.rank`. Searches of ancestors end because parents are built before their children.
-/

namespace Injection

variable {V E α : Type}

/-! ### Worlds that arise are at rest -/

section Confined

variable {asks : Site → Prop}

/-- What keeps to its context makes requests only through it. -/
theorem Program.Confined.descends {allowed : ComponentId → Prop} {passes : Site → Prop} {program : Program V E}
    (h : program.Confined asks allowed) : program.Descends .flat () passes := by
  induction program generalizing passes with
  | done outcome => trivial
  | request key parameters next ih => exact ⟨trivial, fun reply => ih reply (h.2 reply)⟩
  | start component key parameters next ih => exact h.elim
  | forward owner key next ih => exact ⟨.inl trivial, fun reply => ih reply (h.2 reply)⟩
  | share entry body next ihbody ih => exact ⟨trivial, ihbody h.1, fun reply => ih reply (h.2 reply)⟩
  | make type value next ih => exact fun object => ih object (h object)
  | touch change next ih => exact fun before => ih before (h before)
  | report event next ih => exact ih h
  | meet gate next ih => exact ih h

/-- A catalog whose entries keep to their context passes nothing on, so there is nothing to rank. -/
theorem Catalog.Confined.descends {catalog : Catalog V E} (h : catalog.Confined asks) (key : Key) :
    catalog.Descends .flat key := by
  intro entry hentry _
  have hdefinition (context : Context V) {passes : Site → Prop} :
      (entry.definition key context).Descends .flat () passes :=
    (h entry (List.mem_of_find?_eq_some hentry) key context).descends
  unfold CatalogEntry.Descends
  split
  · exact ⟨trivial, fun context => hdefinition context⟩
  · exact fun context => hdefinition context

namespace World

variable {w : World V E}

/-- In a sound world definitions make requests only through their context. -/
theorem Sound.contextual (h : w.Sound asks) : w.Contextual := by
  intro component hcomponent
  obtain ⟨c, hc⟩ := List.mem_iff_getElem?.mp hcomponent
  have hconfined := h c component hc
  refine ⟨fun binding hbinding context => (hconfined.bindings binding hbinding context).descends, ?_⟩
  intro factory hfactory key d
  obtain ⟨catalog, hcatalog, rfl⟩ := hconfined.factories factory hfactory
  exact Catalog.factory_descends (hcatalog.descends key) d

/-- No value is being made in a world that arises. -/
theorem Arises.idle [Hashed V] (h : w.Arises asks) : ∀ slot creator, w.cells slot ≠ .creating creator := by
  induction h with
  | initial surroundings => exact fun slot creator => nofun
  | built _ _ _ hbuild ih =>
    obtain ⟨m, -, hadded⟩ := build_eq_ok hbuild
    exact hadded ▸ ih
  | dropped c _ ih => exact ih
  | answered harises hanswers ih =>
    obtain ⟨depth, c, q, reply, hrun⟩ := hanswers
    obtain ⟨-, ⟨_, rfl, hmaking⟩, -⟩ := (Query.unwinds_contextual harises.sound.contextual ih q c depth).of_ok hrun
    exact fun slot creator hslot => absurd (hmaking.creating hslot).2 List.not_mem_nil
  | moved _ _ hcells ih => exact hcells ▸ ih

end World

end Confined

/-! ### The path of keys under construction -/

/-- The path leads from a first key to the key of the context, through different sites out of some. -/
structure Context.Traced (first : Key) (sites : Finset Site) (context : Context V) : Prop where
  head : context.path.head? = some first
  last : context.path.getLast? = some context.key
  distinct : (context.path.map Key.site).Nodup
  within : ∀ key ∈ context.path, key.site ∈ sites

/-- The call keeps track: it requests a key in such a context, or at first, or passes such a context on. -/
def Call.Traced (first : Key) (sites : Finset Site) : Call V → Prop
  | resolve _ path _ key _ =>
    (path ++ [key]).head? = some first ∧ (path.map Key.site).Nodup ∧ ∀ visited ∈ path ++ [key], visited.site ∈ sites
  | obtain _ _ context => context.Traced first sites

section Paths

variable {R : Realm V E} {sites : Finset Site} {first : Key} {context : Context V} {request inner : Call V}

/-- A list of different sites out of some is not longer than there are. -/
theorem length_le_card {path : List Key} (hdistinct : (path.map Key.site).Nodup)
    (hwithin : ∀ key ∈ path, key.site ∈ sites) : path.length ≤ sites.card := by
  rw [← List.length_map (f := Key.site), ← List.toFinset_card_of_nodup hdistinct]
  refine Finset.card_le_card fun site hsite => ?_
  obtain ⟨key, hkey, rfl⟩ := List.mem_map.mp (List.mem_toFinset.mp hsite)
  exact hwithin key hkey

/-- A call that keeps track opens contexts that are traced. -/
theorem Call.Traced.opens (h : request.Traced first sites) (hopens : request.Opens R context) :
    context.Traced first sites := by
  cases request with
  | resolve c path resolution key parameters =>
    obtain ⟨hhead, hdistinct, hwithin⟩ := h
    obtain ⟨hfresh, owner, -, rfl⟩ := hopens
    refine ⟨hhead, by simp, ?_, hwithin⟩
    rw [List.map_append, List.nodup_append]
    refine ⟨hdistinct, List.nodup_singleton _, ?_⟩
    rintro _ hsite _ hkey rfl
    obtain ⟨visited, hvisited, hsame⟩ := List.mem_map.mp hsite
    exact hfresh visited hvisited (hsame.trans (List.mem_singleton.mp hkey))
  | obtain owner key passed =>
    obtain rfl : context = passed := hopens
    exact h

/-- A definition that is called in a traced context makes calls that keep track. -/
theorem Context.Traced.spawns (h : context.Traced first sites) (hasks : ∀ site, R.asks site → site ∈ sites)
    (hspawns : context.Spawns R request) : request.Traced first sites := by
  cases request with
  | resolve c path resolution key parameters =>
    obtain ⟨-, rfl, -, hkey⟩ := hspawns
    refine ⟨?_, h.distinct, ?_⟩
    · rw [List.head?_append, h.head]
      rfl
    · intro visited hvisited
      rcases List.mem_append.mp hvisited with hvisited | hvisited
      · exact h.within visited hvisited
      · exact List.mem_singleton.mp hvisited ▸ hasks _ hkey
  | obtain owner key passed =>
    obtain ⟨-, rfl⟩ := hspawns
    exact ⟨h.head, h.last, h.distinct, h.within⟩

/-- A call that keeps track leads to calls that keep track. -/
theorem Call.Traced.leads (h : request.Traced first sites) (hasks : ∀ site, R.asks site → site ∈ sites)
    (hleads : request.Leads R inner) : inner.Traced first sites := by
  obtain ⟨context, hopens, hspawns⟩ := hleads
  exact (h.opens hopens).spawns hasks hspawns

/-- Every call that a call leads to keeps track if that one does. -/
theorem Call.Traced.leadsTo (h : request.Traced first sites) (hasks : ∀ site, R.asks site → site ∈ sites)
    (hleads : Relation.ReflTransGen (Call.Leads R) request inner) : inner.Traced first sites := by
  induction hleads with
  | refl => exact h
  | tail _ hleads ih => exact ih.leads hasks hleads

/-- A top-level query starts to keep track. -/
theorem Query.traced_call {q : Query V} (hq : q.key.site ∈ sites) (c : ComponentId) (w : World V E) :
    (q.call c w).Traced q.key sites := by
  refine ⟨rfl, List.nodup_nil, fun visited hvisited => ?_⟩
  exact List.mem_singleton.mp hvisited ▸ hq

end Paths

/-! ### How deep calls are nested -/

/-- How deep calls may be nested within a call, if paths and places of components are bounded: a request
lengthens the path, and passing a request on leads to an earlier component. -/
def Call.rank (sites : Finset Site) (root : ComponentId) : Call V → Nat
  | resolve _ path _ _ _ => (sites.card - path.length) * (root + 2)
  | obtain owner _ context => (sites.card - context.path.length) * (root + 2) + (owner + 1)

section Depth

variable {R : Realm V E} {sites : Finset Site} {first : Key} {request inner : Call V}

/-- Calls that a call leads to are ranked lower. -/
theorem Call.rank_lt (hroot : ∀ c, R.Has c → c ≤ R.root) (hin : request.In R) (htraced : request.Traced first sites)
    (hleads : request.Leads R inner) : inner.rank sites R.root < request.rank sites R.root := by
  obtain ⟨context, hopens, hspawns⟩ := hleads
  have hcontext := htraced.opens hopens
  have hcomponent := Nat.lt_succ_of_le (hroot _ (hin.opens hopens))
  -- What remains of the path is less after a request, by enough for any number of passings on.
  have hopened : (sites.card - context.path.length) * (R.root + 2) + context.component <
      request.rank sites R.root := by
    cases request with
    | resolve c path resolution key parameters =>
      have hlength := length_le_card hcontext.distinct hcontext.within
      obtain ⟨-, owner, -, rfl⟩ := hopens
      simp only [List.length_append, List.length_singleton] at hlength ⊢
      have hshorter : sites.card - path.length = sites.card - (path.length + 1) + 1 := by omega
      simp only [rank, hshorter, Nat.succ_mul]
      exact Nat.add_lt_add_left (Nat.lt_succ_of_lt hcomponent) _
    | obtain owner key passed =>
      obtain rfl : context = passed := hopens
      simp only [rank, hin.2]
      omega
  cases inner with
  | resolve c path resolution key parameters =>
    obtain ⟨-, rfl, -⟩ := hspawns
    exact Nat.lt_of_le_of_lt (Nat.le_add_right _ _) hopened
  | obtain owner key passed =>
    obtain ⟨⟨-, hlt⟩, rfl⟩ := hspawns
    refine Nat.lt_of_le_of_lt (Nat.add_le_add_left ?_ _) hopened
    exact hlt

/-- A call is not nested too deep if the bound is above its rank. -/
theorem Call.answer_ne_tooDeep [Hashed V] (hasks : ∀ site, R.asks site → site ∈ sites)
    (hroot : ∀ c, R.Has c → c ≤ R.root) (hin : request.In R) (htraced : request.Traced first sites) {w : World V E}
    (hw : R.Holds w) {depth : Nat} (hdepth : request.rank sites R.root < depth) :
    Call.answer depth request w ≠ .error .tooDeep := by
  induction depth generalizing request w with
  | zero => cases hdepth
  | succ depth ih =>
    intro hrun
    have hanswer : R.Answers (request.Leads R) (Call.answer depth) :=
      fun inner v v' hleads => R.answers depth inner v v' (hin.leads hleads)
    obtain ⟨inner, v, hmade, hdeep⟩ := Task.makes_of_tooDeep hrun
    obtain ⟨hleads, hv⟩ := (Call.body_stays hin).called hanswer hw hmade
    have hlower := rank_lt hroot hin htraced hleads
    exact ih (hin.leads hleads) (htraced.leads hasks hleads) hv (by omega) hdeep

end Depth

/-! ### Who requests what -/

section Requests

variable [Hashed V] {w : World V E}

/-- A call is taken up either at first, or because a definition makes it that was run before. -/
theorem Call.made_of_called {depth : Nat} {outer request : Call V} {u v : World V E}
    (h : .called request v ∈ Call.journal depth outer u) :
    (request = outer ∧ v = u) ∨ ∃ middle t visit depth', .called middle t ∈ Call.journal depth outer u ∧
      middle.visit? t = some visit ∧ visit.Makes depth' request v := by
  induction depth generalizing outer u with
  | zero => cases h
  | succ depth ih =>
    rcases List.mem_cons.mp h with heq | hmem
    · exact .inl (Moment.called.inj heq)
    · right
      rw [body_journal] at hmem
      cases hvisit : outer.visit? u with
      | none => simp [hvisit] at hmem
      | some visit =>
        rw [hvisit] at hmem
        obtain ⟨inner, t, hmade, hcalled, hsubset⟩ := Task.called_mem (visit.called_creation hmem)
        rcases ih hcalled with ⟨rfl, rfl⟩ | ⟨middle, t', visit', depth', hmiddle, hvisit', hmakes⟩
        · exact ⟨outer, u, visit, depth, List.mem_cons_self, hvisit, hmade⟩
        · refine ⟨middle, t', visit', depth', List.mem_cons_of_mem _ ?_, hvisit', hmakes⟩
          rw [body_journal, hvisit]
          exact visit.creation_subset _ _ (hsubset hmiddle)

/-- Of the definitions that a query runs, all but the one that it asks for itself are asked for by another
that it runs. -/
theorem World.Visits.asked {q : Query V} {c : ComponentId} {depth : Nat} {visit : Visit V E}
    (h : w.Visits depth (q.task c) visit) :
    (q.call c w).visit? w.entered = some visit ∨
      ∃ outer, w.Visits depth (q.task c) outer ∧ ∃ depth' request v, outer.Makes depth' request v ∧
        request.visit? v = some visit := by
  obtain ⟨request, v, hmem, hvisit⟩ := h
  rw [q.journal_task] at hmem
  rcases Call.made_of_called hmem with ⟨rfl, rfl⟩ | ⟨middle, t, outer, depth', hmiddle, houter, hmakes⟩
  · exact .inl hvisit
  · refine .inr ⟨outer, ⟨middle, t, ?_, houter⟩, depth', request, v, hmakes, hvisit⟩
    rwa [q.journal_task]

end Requests

/-! ### Searches of ancestors -/

section Searches

variable {w : World V E} {answer : Call V → World V E → Run V E (Reply V)} {resolution : Resolution} {key : Key}
  {c : ComponentId}

namespace Resolution

/-- Visiting parents depends on what the visits come to only. -/
theorem searchParents_congr {visit visit' : ComponentId → Task V E (Option (Stored V E))} {parents : List ComponentId}
    (hvisit : ∀ parent ∈ parents, ∀ v : World V E, v.components = w.components →
      (visit' parent).run answer v = (visit parent).run answer v ∧
        ∃ found v', (visit parent).run answer v = .ok (found, v') ∧ v'.components = w.components)
    {v : World V E} (hv : v.components = w.components) :
    (searchParents resolution visit' parents).run answer v = (searchParents resolution visit parents).run answer v := by
  induction parents generalizing v with
  | nil => rfl
  | cons parent rest ih =>
    have hrest := fun other hother => hvisit other (List.mem_cons_of_mem parent hother)
    simp only [searchParents, Task.run_read]
    split
    · obtain ⟨hsame, found, v', hrun, hv'⟩ := hvisit parent List.mem_cons_self v hv
      refine (Task.run_bind_of_ok (hsame.trans hrun)).trans (.trans ?_ (Task.run_bind_of_ok hrun).symm)
      cases found with
      | some stored => rfl
      | none => exact ih hrest hv'
    · exact ih hrest (by simp [hv])

/-- A search is the same within any number of generations that is large enough for the place where it
starts. -/
theorem searchWithin_congr (hordered : ∀ c, ∀ parent ∈ w.parents c, parent < c) {generations generations' : Nat}
    (hc : c < generations) (hc' : c < generations') {v : World V E} (hv : v.components = w.components) :
    (searchWithin resolution key generations' c).run answer v =
      (searchWithin resolution key generations c).run answer v := by
  induction generations generalizing generations' c v with
  | zero => cases hc
  | succ generations ih =>
    cases generations' with
    | zero => cases hc'
    | succ generations' =>
      simp only [searchWithin, Task.run_read]
      split
      · rfl
      · refine searchParents_congr (fun parent hparent v' hv' => ?_) hv
        rw [(World.Grows.of_components hv).parents] at hparent
        have hlt := hordered c parent hparent
        obtain ⟨after, hrun, hafter⟩ := searchWithin_run generations parent hv'
        refine ⟨?_, _, after, hrun, hafter⟩
        exact ih (Nat.lt_of_lt_of_le hlt (Nat.le_of_lt_succ hc)) (Nat.lt_of_lt_of_le hlt (Nat.le_of_lt_succ hc')) hv'

/-- A search looks into the component first, and then searches at each of its parents. -/
theorem search_eq (hordered : ∀ c, ∀ parent ∈ w.parents c, parent < c) :
    (search resolution key c).run answer w =
      match w.serving? c key with
      | some binding => .ok (some ⟨c, binding⟩, w.emit resolution.logger .foundInBindings)
      | none => (searchParents resolution (search resolution key) (w.parents c)).run answer w := by
  change (searchWithin resolution key (c + 1) c).run answer w = _
  simp only [searchWithin, Task.run_read]
  cases w.serving? c key with
  | some binding => rfl
  | none =>
    refine searchParents_congr (fun parent hparent v hv => ?_) rfl
    obtain ⟨after, hrun, hafter⟩ := searchWithin_run (parent + 1) parent hv
    refine ⟨?_, _, after, hrun, hafter⟩
    exact searchWithin_congr hordered (Nat.lt_succ_self parent) (hordered c parent hparent) hv

end Resolution

namespace World

variable {tag : ScopeTag}

/-- The owner of a scope is the same within any number of generations that is large enough. -/
theorem scopeOwnerWithin?_congr (hordered : ∀ c, ∀ parent ∈ w.parents c, parent < c)
    {generations generations' : Nat} (hc : c < generations) (hc' : c < generations') :
    w.scopeOwnerWithin? tag generations' c = w.scopeOwnerWithin? tag generations c := by
  induction generations generalizing generations' c with
  | zero => cases hc
  | succ generations ih =>
    cases generations' with
    | zero => cases hc'
    | succ generations' =>
      simp only [scopeOwnerWithin?]
      congr 1
      refine findSome?_congr fun parent hparent => ?_
      have hlt := hordered c parent (List.mem_filter.mp hparent).1
      exact ih (Nat.lt_of_lt_of_le hlt (Nat.le_of_lt_succ hc)) (Nat.lt_of_lt_of_le hlt (Nat.le_of_lt_succ hc'))

/-- The owner of a scope is the component, if it declares the scope, or else the owner at one of its
parents. -/
theorem scopeOwner?_eq (hordered : ∀ c, ∀ parent ∈ w.parents c, parent < c) :
    w.scopeOwner? c tag =
      if w.hasScope c tag then some c else (w.livingParents c).findSome? fun parent => w.scopeOwner? parent tag := by
  rw [scopeOwner?, scopeOwnerWithin?]
  congr 1
  refine findSome?_congr fun parent hparent => ?_
  have hlt := hordered c parent (List.mem_filter.mp hparent).1
  exact scopeOwnerWithin?_congr hordered (Nat.lt_succ_self parent) hlt

end World

end Searches

/-! ### Requests in worlds that arise -/

/-- The call, made in one context, runs a definition in the other: a request puts its key at the end of the
path, and passing the context on leaves it as it is but for the component. -/
def Call.Continues (outer inner : Context V) : Call V → Prop
  | resolve _ _ _ key parameters =>
    ∃ owner, inner = ⟨owner, key, parameters, outer.path ++ [key], outer.resolution⟩
  | obtain owner _ _ => inner = { outer with component := owner }

/-- Calls that a definition makes in its context continue it. -/
theorem Context.Spawns.continues {R : Realm V E} {outer inner : Context V} {request : Call V}
    (h : outer.Spawns R request) (hopens : request.Opens R inner) : request.Continues outer inner := by
  cases request with
  | resolve c path resolution key parameters =>
    obtain ⟨-, rfl, rfl, -⟩ := h
    obtain ⟨-, owner, -, rfl⟩ := hopens
    exact ⟨owner, rfl⟩
  | obtain owner key passed =>
    obtain ⟨-, rfl⟩ := h
    exact hopens

namespace World

variable [Hashed V] {w : World V E} {sites : Finset Site}

/-- A request for one of the sites that definitions ask for comes to an end, as long as calls may be nested
deeply enough. -/
theorem Arises.exists_run (h : w.Arises (· ∈ sites)) (c : ComponentId) {q : Query V} (hq : q.key.site ∈ sites) :
    ∃ reply w', ∀ depth, sites.card * (c + 2) < depth → w.run depth (q.task c) = .ok (reply, w') := by
  let R : Realm V E := ⟨(· ∈ sites), w, c⟩
  have hentered : R.Holds w.entered := Realm.Holds.of_components (h.sound.holds c) rfl
  have hroot (d : ComponentId) (hd : R.Has d) : d ≤ R.root := h.sound.le_of_lineage hd
  have hin : (q.call c w).In R := .refl
  cases hanswer : Call.answer (sites.card * (c + 2) + 1) (q.call c w) w.entered with
  | ok pair =>
    refine ⟨q.accept pair.1, pair.2, fun depth hdepth => ?_⟩
    rw [q.run_eq, Call.answer_mono hdepth hanswer]
    rfl
  | error halt =>
    cases halt with
    | tooDeep =>
      refine absurd hanswer (Call.answer_ne_tooDeep (R := R) (fun _ => id) hroot hin (q.traced_call hq c w) hentered ?_)
      exact Nat.lt_succ_self _
    | stuck =>
      have hunwinds := Query.unwinds_contextual h.sound.contextual h.idle q c (sites.card * (c + 2) + 1)
      rw [q.run_eq, hanswer] at hunwinds
      exact absurd rfl hunwinds.1

/-- The contexts of the definitions that a request runs are traced from its key on, and each continues the
context of the definition that asked for it. -/
theorem Arises.traced (h : w.Arises (· ∈ sites)) {c : ComponentId} {q : Query V} (hq : q.key.site ∈ sites)
    {depth : Nat} {visit : Visit V E} (hvisit : w.Visits depth (q.task c) visit) :
    visit.context.Traced q.key sites ∧
      (visit.context.path = [q.key] ∨ ∃ outer, w.Visits depth (q.task c) outer ∧
        ∃ depth' request v, outer.Makes depth' request v ∧ request.visit? v = some visit ∧
          request.Continues outer.context visit.context) := by
  let R : Realm V E := ⟨(· ∈ sites), w, c⟩
  have hw : R.Holds w := h.sound.holds c
  have hin : (q.call c w).In R := .refl
  obtain ⟨request, hleads, hopens, -⟩ := World.Visits.inRealm (R := R) hw hvisit
  refine ⟨((q.traced_call hq c w).leadsTo (fun _ => id) hleads).opens hopens, ?_⟩
  rcases hvisit.asked with hfirst | ⟨outer, houter, depth', request, v, hmakes, hvisit⟩
  · have hentered : R.Holds w.entered := hw.of_components rfl
    obtain ⟨⟨-, owner, -, hcontext⟩, -⟩ := hin.visit hentered hfirst
    exact .inl (congrArg Context.path hcontext)
  · obtain ⟨_, -, -, hcomponent, howner, hbinding, hworld⟩ := World.Visits.inRealm (R := R) hw houter
    obtain ⟨hspawns, hv⟩ := Visit.spawns_of_makes hcomponent howner hbinding hworld hmakes
    obtain ⟨hopens, -⟩ := (hspawns.inRealm (hcomponent ▸ howner)).visit hv hvisit
    exact .inr ⟨outer, houter, depth', request, v, hmakes, hvisit, hspawns.continues hopens⟩

/-- In a world that arises from definitions that ask for a finite set of sites, every top-level request for one
of them comes to an end. Each definition that it runs is handed a context whose path leads from the key of
the request through different sites to the key of the context, and is no longer than there are sites; the
path continues that of the definition that asked for it. Parents lead nowhere in circles. So whatever is
stored meanwhile, a search at a component that has no binding itself is a search at its parents, and so is
looking for the owner of a scope that it does not declare. -/
theorem Arises.terminates (h : w.Arises (· ∈ sites)) :
    (∀ (c : ComponentId) (q : Query V), q.key.site ∈ sites →
      (∃ reply w', ∀ depth, sites.card * (c + 2) < depth → w.run depth (q.task c) = .ok (reply, w')) ∧
        ∀ depth visit, w.Visits depth (q.task c) visit →
          visit.context.Traced q.key sites ∧ visit.context.path.length ≤ sites.card ∧
            (visit.context.path = [q.key] ∨ ∃ outer, w.Visits depth (q.task c) outer ∧
              ∃ depth' request v, outer.Makes depth' request v ∧ request.visit? v = some visit ∧
                request.Continues outer.context visit.context)) ∧
      (WellFounded fun parent c => parent ∈ w.parents c) ∧
        ∀ v : World V E, (∀ c, v.parents c = w.parents c) → ∀ c,
          (∀ answer resolution key, (Resolution.search resolution key c).run answer v =
            match v.serving? c key with
            | some binding => .ok (some ⟨c, binding⟩, v.emit resolution.logger .foundInBindings)
            | none =>
              (Resolution.searchParents resolution (Resolution.search resolution key) (v.parents c)).run answer v) ∧
          ∀ tag, v.scopeOwner? c tag =
            if v.hasScope c tag then some c
            else (v.livingParents c).findSome? fun parent => v.scopeOwner? parent tag := by
  have hordered (c parent : ComponentId) (hparent : parent ∈ w.parents c) : parent < c := h.sound.ordered hparent
  refine ⟨fun c q hq => ⟨h.exists_run c hq, fun depth visit hvisit => ?_⟩, ?_, fun v hv c => ?_⟩
  · obtain ⟨htraced, hasked⟩ := h.traced hq hvisit
    exact ⟨htraced, length_le_card htraced.distinct htraced.within, hasked⟩
  · exact Subrelation.wf (fun hparent => hordered _ _ hparent) Nat.lt_wfRel.wf
  · have hordered' (c parent : ComponentId) (hparent : parent ∈ v.parents c) : parent < c :=
      hordered c parent (hv c ▸ hparent)
    exact ⟨fun answer resolution key => Resolution.search_eq hordered', fun tag => scopeOwner?_eq hordered'⟩

end World

/-- A provider that needs an object of one type asks for its site only. -/
theorem Binding.confined_nth {asks : Site → Prop} {passes : ComponentId → Prop} (n k : UInt64)
    (h : asks (Key.of (.nth k)).site) : (Binding.nth n [k]).Confined asks passes := by
  refine fun context => ⟨h, fun reply => ?_⟩
  change ((Query.get (.nth k) []).receive reply _).Confined asks passes
  unfold Query.receive
  generalize Query.accept _ reply = accepted
  rcases reply with e | _ | object <;> rcases accepted with e' | _ | object' <;>
    first | trivial | exact fun _ => trivial

namespace World

/-- Two types that need each other can be registered. -/
theorem arises_ring : (ofBindings [.nth 0 [1], .nth 1 [0]]).Arises
    (· ∈ ({(Key.of (.nth 0)).site, (Key.of (.nth 1)).site} : Finset Site)) := by
  have hconfined : ComponentBuilder.Confined
      (· ∈ ({(Key.of (.nth 0)).site, (Key.of (.nth 1)).site} : Finset Site))
      (⟨[], [], [], [.nth 0 [1], .nth 1 [0]], .default⟩ : ComponentBuilder Unit Unit) := by
    refine ⟨by simp, fun binding hbinding => ?_, by simp [ComponentConfig.default]⟩
    simp only [List.mem_cons, List.not_mem_nil, or_false] at hbinding
    rcases hbinding with rfl | rfl
    · exact Binding.confined_nth 0 1 (by decide)
    · exact Binding.confined_nth 1 0 (by decide)
  exact .built (c := 0) (.initial ()) hconfined (by simp) rfl

/-- Two types that need each other are requested in vain, but not forever. -/
theorem Arises.terminates_ring :
    ∃ e w', (∀ depth, 4 < depth →
      (ofBindings [.nth 0 [1], .nth 1 [0]]).run depth ((Query.get (.nth 0) []).task 0) = .ok (.error e, w')) ∧
        ∀ depth visit, (ofBindings [.nth 0 [1], .nth 1 [0]]).Visits depth ((Query.get (.nth 0) []).task 0) visit →
          visit.context.path.length ≤ 2 := by
  obtain ⟨⟨reply, w', hrun⟩, hvisits⟩ := arises_ring.terminates.1 0 (Query.get (.nth 0) []) (by decide)
  obtain ⟨e, v, herror⟩ : ∃ e v,
      (ofBindings [.nth 0 [1], .nth 1 [0]]).run 5 ((Query.get (.nth 0) []).task 0) = .ok (.error e, v) := ⟨_, _, rfl⟩
  obtain ⟨rfl, rfl⟩ := Prod.mk.inj (Except.ok.inj ((hrun 5 (by decide)).symm.trans herror))
  exact ⟨e, w', hrun, fun depth visit hvisit => (hvisits depth visit hvisit).2.1⟩

end World

end Injection
