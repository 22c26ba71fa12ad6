import Injection.Proofs.Registration
import Mathlib.Data.List.Induction

/-!
# Registration in parts

A registration may be split into modules that are merged again. What the last binding of each key is, and
in which order the keys first occur, can be told of the parts, so a merge that succeeds comes to what one
module of all declarations comes to. The override policy is not so: a built module lists the last binding
of each key only, and the merge sees no more than the mark of that one. One module of everything is
therefore refused more often than the merge of its parts.
-/

namespace Injection

variable {V E : Type}

namespace Module

/-! ### What lists of bindings come to -/

section Lists

variable {bindings bindings' rest rest' : List (Binding V E)} {key : KeyId}

/-- Keys that occurred before keep their places, and the new ones come after them. -/
theorem occurring_append :
    occurring (bindings ++ rest) = occurring bindings ++ (occurring rest).filter (· ∉ occurring bindings) := by
  induction rest using List.reverseRecOn with
  | nil => simp [occurring]
  | append_singleton rest b ih =>
    have hbefore : b.key.identity ∈ occurring bindings ↔
        ∃ other ∈ bindings, other.key.identity = b.key.identity := mem_occurring
    rw [← List.append_assoc]
    by_cases hrest : ∃ other ∈ rest, other.key.identity = b.key.identity
    · have hboth : ∃ other ∈ bindings ++ rest, other.key.identity = b.key.identity := by grind
      rw [occurring_concat_of_mem hboth, occurring_concat_of_mem hrest, ih]
    · rw [occurring_concat_of_not_mem hrest, List.filter_append, ← List.append_assoc, ← ih]
      by_cases hbindings : b.key.identity ∈ occurring bindings
      · have hboth : ∃ other ∈ bindings ++ rest, other.key.identity = b.key.identity := by grind
        rw [occurring_concat_of_mem hboth]
        simp [hbindings]
      · have hboth : ¬∃ other ∈ bindings ++ rest, other.key.identity = b.key.identity := by grind
        rw [occurring_concat_of_not_mem hboth]
        simp [hbindings]

/-- Every key that occurs is listed once. -/
theorem nodup_occurring (bindings : List (Binding V E)) : (occurring bindings).Nodup := by
  induction bindings using List.reverseRecOn with
  | nil => simp [occurring]
  | append_singleton bindings b ih =>
    by_cases hbefore : ∃ other ∈ bindings, other.key.identity = b.key.identity
    · rwa [occurring_concat_of_mem hbefore]
    · rw [occurring_concat_of_not_mem hbefore]
      refine List.nodup_append.mpr ⟨ih, List.nodup_singleton _, ?_⟩
      rintro key hkey _ hb rfl
      exact hbefore (List.mem_singleton.mp hb ▸ mem_occurring.mp hkey)

/-- Distinct keys are listed as they are. -/
theorem occurring_of_nodup (h : (bindings.map fun b => b.key.identity).Nodup) :
    occurring bindings = bindings.map fun b => b.key.identity := by
  induction bindings using List.reverseRecOn with
  | nil => simp [occurring]
  | append_singleton bindings b ih =>
    rw [List.map_append, List.nodup_append] at h
    obtain ⟨hbindings, -, hfresh⟩ := h
    have hnew : ¬∃ other ∈ bindings, other.key.identity = b.key.identity := by
      rintro ⟨other, hother, hkey⟩
      exact hfresh _ (List.mem_map_of_mem hother) _ (List.mem_singleton_self _) hkey
    rw [occurring_concat_of_not_mem hnew, ih hbindings, List.map_append]
    rfl

/-- The last binding under a key is looked for in the later part first. -/
theorem last?_append : last? (bindings ++ rest) key = (last? rest key).or (last? bindings key) := by
  simp [last?, first?, List.find?_append]

/-- No binding is the last under a key exactly if the key does not occur. -/
theorem last?_eq_none : last? bindings key = none ↔ key ∉ occurring bindings := by
  rw [last?, first?_eq_none, mem_occurring]
  simp

/-- The last binding under a key is one of the bindings, and has that key. -/
theorem mem_of_last? {b : Binding V E} (h : last? bindings key = some b) :
    b ∈ bindings ∧ b.key.identity = key :=
  ⟨List.mem_reverse.mp (List.mem_of_find?_eq_some h), by simpa using List.find?_some h⟩

/-! ### What is left of a list -/

/-- The last binding under each key, in the order in which the keys first occur. -/
def survivors (bindings : List (Binding V E)) : List (Binding V E) :=
  (occurring bindings).filterMap (last? bindings)

/-- What is left are the last bindings under the keys that occur, in the order in which these occur first. -/
theorem map_some_survivors : (survivors bindings).map some = (occurring bindings).map (last? bindings) := by
  have hsome : ∀ key ∈ occurring bindings, ∃ b, last? bindings key = some b := by
    intro key hkey
    rw [← Option.isSome_iff_exists, ← Option.ne_none_iff_isSome]
    exact fun hnone => last?_eq_none.mp hnone hkey
  unfold survivors
  generalize occurring bindings = keys at hsome
  induction keys with
  | nil => rfl
  | cons key keys ih =>
    obtain ⟨b, hb⟩ := hsome key List.mem_cons_self
    rw [List.filterMap_cons_some hb, List.map_cons, List.map_cons, hb,
      ih fun other hother => hsome other (List.mem_cons_of_mem _ hother)]

/-- A binding is left exactly if it is the last one under its key. -/
theorem mem_survivors {b : Binding V E} : b ∈ survivors bindings ↔ last? bindings b.key.identity = some b := by
  rw [survivors, List.mem_filterMap]
  constructor
  · rintro ⟨key, -, hlast⟩
    rwa [(mem_of_last? hlast).2]
  · intro hlast
    exact ⟨b.key.identity, mem_occurring.mpr ⟨b, (mem_of_last? hlast).1, rfl⟩, hlast⟩

/-- What is left has the keys that occur, in the same order. -/
theorem identities_survivors : ((survivors bindings).map fun b => b.key.identity) = occurring bindings := by
  have hsome : ((survivors bindings).map fun b => b.key.identity).map some = (occurring bindings).map some :=
    calc
      ((survivors bindings).map fun b => b.key.identity).map some
        = ((survivors bindings).map some).map (Option.map fun b => b.key.identity) := by simp
      _ = (occurring bindings).map fun key => (last? bindings key).map fun b => b.key.identity := by
        rw [map_some_survivors, List.map_map]
        rfl
      _ = (occurring bindings).map some := by
        refine List.map_congr_left fun key hkey => ?_
        cases hlast : last? bindings key with
        | none => exact absurd hkey (last?_eq_none.mp hlast)
        | some b => exact congrArg some (mem_of_last? hlast).2
  exact List.map_injective_iff.mpr (fun _ _ => Option.some.inj) hsome

/-- No two bindings of one key are left. -/
theorem nodup_survivors : ((survivors bindings).map fun b => b.key.identity).Nodup :=
  identities_survivors ▸ nodup_occurring bindings

/-- The same keys occur in what is left, in the same order. -/
theorem occurring_survivors : occurring (survivors bindings) = occurring bindings :=
  (occurring_of_nodup nodup_survivors).trans identities_survivors

/-- A single binding is left as it is. -/
theorem survivors_singleton (b : Binding V E) : survivors [b] = [b] := by
  simp [survivors, occurring, List.eraseDups_cons, last?, first?]

/-- Two lists of bindings come to the same: their keys first occur in the same order, and the last binding
under each is the same. -/
structure Agree (bindings bindings' : List (Binding V E)) : Prop where
  order : occurring bindings = occurring bindings'
  last : ∀ key, last? bindings key = last? bindings' key

/-- A list comes to the same as itself. -/
@[refl]
theorem Agree.refl (bindings : List (Binding V E)) : Agree bindings bindings := ⟨rfl, fun _ => rfl⟩

/-- Coming to the same goes both ways. -/
theorem Agree.symm (h : Agree bindings bindings') : Agree bindings' bindings :=
  ⟨h.order.symm, fun key => (h.last key).symm⟩

/-- Lists that come to the same as a third come to the same. -/
theorem Agree.trans {bindings'' : List (Binding V E)} (h : Agree bindings bindings') (h' : Agree bindings' bindings'') :
    Agree bindings bindings'' :=
  ⟨h.order.trans h'.order, fun key => (h.last key).trans (h'.last key)⟩

/-- What a list comes to can be told of its parts. -/
theorem Agree.append (h : Agree bindings bindings') (h' : Agree rest rest') :
    Agree (bindings ++ rest) (bindings' ++ rest') where
  order := by rw [occurring_append, occurring_append, h.order, h'.order]
  last key := by rw [last?_append, last?_append, h.last, h'.last]

/-- What is left of a list comes to the same as the list. -/
theorem agree_survivors (bindings : List (Binding V E)) : Agree (survivors bindings) bindings := by
  refine ⟨occurring_survivors, fun key => ?_⟩
  cases hlast : last? bindings key with
  | none => rwa [last?_eq_none, occurring_survivors, ← last?_eq_none]
  | some b =>
    obtain rfl := (mem_of_last? hlast).2
    have hb : b ∈ (survivors bindings).reverse := List.mem_reverse.mpr (mem_survivors.mpr hlast)
    refine find?_of_nodup_map ?_ hb
    rw [List.map_reverse, List.nodup_reverse]
    exact nodup_survivors

/-- Part by part, what is left of the parts comes to the same as the whole. -/
theorem agree_flatten_survivors (parts : List (List (Binding V E))) :
    Agree (parts.map survivors).flatten parts.flatten := by
  induction parts with
  | nil => rfl
  | cons part parts ih => exact (agree_survivors part).append ih

/-- Two lists come to the same exactly if the same is left of them. -/
theorem Agree.survivors_eq (h : Agree bindings bindings') : survivors bindings = survivors bindings' := by
  rw [survivors, survivors, h.order, funext h.last]

/-! ### The override policy over parts -/

/-- Whatever has a key of the earlier list is marked as an override in the later one. -/
def Overridden (earlier later : List (Binding V E)) : Prop :=
  ∀ b ∈ later, b.key.identity ∈ occurring earlier → b.isOverride = true

/-- The last binding under each key of the earlier list is marked as an override in the later one. -/
def Superseded (earlier later : List (Binding V E)) : Prop :=
  ∀ key ∈ occurring earlier, ∀ b, last? later key = some b → b.isOverride = true

/-- If all that share a key with the earlier list are overrides, so are the last ones under its keys. -/
theorem Overridden.superseded (h : Overridden bindings rest) : Superseded bindings rest := by
  intro key hkey b hlast
  obtain ⟨hb, rfl⟩ := mem_of_last? hlast
  exact h b hb hkey

/-- Of the later list, only what is left of it is seen. -/
theorem overridden_survivors : Overridden (survivors bindings) (survivors rest) ↔ Superseded bindings rest := by
  simp only [Overridden, Superseded, mem_survivors, occurring_survivors]
  constructor
  · intro h key hkey b hlast
    obtain ⟨-, rfl⟩ := mem_of_last? hlast
    exact h b hlast hkey
  · intro h b hlast hkey
    exact h _ hkey b hlast

/-- The policy permits a list exactly if it permits each of its parts, and the later parts override the
earlier ones. -/
theorem permitted_flatten {parts : List (List (Binding V E))} :
    Permitted parts.flatten ↔ (∀ part ∈ parts, Permitted part) ∧ parts.Pairwise Overridden := by
  have hcross (earlier later : List (Binding V E)) :
      (∀ b ∈ earlier, ∀ b' ∈ later, b.key.identity = b'.key.identity → b'.isOverride = true) ↔
        Overridden earlier later := by
    simp only [Overridden, mem_occurring]
    grind
  rw [Permitted, List.pairwise_flatten]
  exact and_congr_right fun _ => ⟨List.Pairwise.imp (hcross _ _).mp, List.Pairwise.imp (hcross _ _).mpr⟩

/-- Bindings may be registered one after the other exactly if they may be in two parts, of which the second
overrides what it shares with the first. -/
theorem permitted_append :
    Permitted (bindings ++ rest) ↔ Permitted bindings ∧ Permitted rest ∧ Overridden bindings rest := by
  simpa [and_assoc] using @permitted_flatten V E [bindings, rest]

/-- No two of the bindings that are left are under one key. -/
theorem permitted_survivors (bindings : List (Binding V E)) : Permitted (survivors bindings) :=
  (List.pairwise_map.mp nodup_survivors).imp fun hne hkey => absurd hkey hne

/-- What is left of the parts is permitted exactly if the later parts supersede the earlier ones, whatever
the parts themselves are like. -/
theorem permitted_flatten_survivors {parts : List (List (Binding V E))} :
    Permitted (parts.map survivors).flatten ↔ parts.Pairwise Superseded := by
  rw [permitted_flatten, List.pairwise_map]
  simp only [overridden_survivors]
  refine and_iff_right fun part hpart => ?_
  obtain ⟨part, -, rfl⟩ := List.mem_map.mp hpart
  exact permitted_survivors part

end Lists

/-! ### Modules of lists -/

namespace Registers

variable {m : Module V E} {bindings : List (Binding V E)}

/-- A module lists what is left of what was registered. -/
theorem bindings_eq_survivors (h : m.Registers bindings) : m.bindings = survivors bindings :=
  List.map_injective_iff.mpr (fun _ _ => Option.some.inj) (h.bindings_eq.trans map_some_survivors.symm)

/-- A module that registers a list has each binding under its own key. -/
theorem keyed (h : m.Registers bindings) : m.Keyed where
  keys entry hentry := (mem_of_last? (h.last entry hentry)).2
  distinct := h.order ▸ nodup_occurring bindings

/-- A list that is permitted after what was registered is registered. -/
theorem bindAll_permitted (h : m.Registers bindings) {rest : List (Binding V E)}
    (hpermitted : Permitted (bindings ++ rest)) :
    ∃ m', bindAll rest m = (.ok (), m') ∧ m'.Registers (bindings ++ rest) := by
  induction rest generalizing m bindings with
  | nil => exact ⟨m, rfl, by simpa using h⟩
  | cons b rest ih =>
    rw [List.append_cons] at hpermitted ⊢
    obtain ⟨hbind, hregisters⟩ := h.bind_permitted hpermitted.of_append
    obtain ⟨m', hrest, hregisters'⟩ := ih hregisters hpermitted
    exact ⟨m', by rw [bindAll, hbind]; exact hrest, hregisters'⟩

/-- Only such a list is registered as a whole. -/
theorem bindAll_ok (h : m.Registers bindings) {rest : List (Binding V E)} {m' : Module V E}
    (hbound : bindAll rest m = (.ok (), m')) : m'.Registers (bindings ++ rest) := by
  induction rest generalizing m bindings with
  | nil =>
    obtain rfl : m = m' := congrArg Prod.snd hbound
    simpa using h
  | cons b rest ih =>
    by_cases hpermitted : Permitted (bindings ++ [b])
    · obtain ⟨hbind, hregisters⟩ := h.bind_permitted hpermitted
      rw [bindAll, hbind] at hbound
      rw [List.append_cons]
      exact ih hregisters hbound
    · obtain ⟨key, -, hbind⟩ := h.bind_refused hpermitted
      simp [bindAll, hbind] at hbound

end Registers

/-! ### Modules built apart -/

/-- Builds a module from each list of declarations, in order, up to the first that is refused. -/
def buildEach : List (List (Declaration V E)) → E → Except BindError (List (Module V E)) × E
  | [], surroundings => (.ok [], surroundings)
  | declarations :: rest, surroundings =>
    match build declarations surroundings with
    | (.ok m, surroundings) =>
      match buildEach rest surroundings with
      | (.ok modules, surroundings) => (.ok (m :: modules), surroundings)
      | (.error e, surroundings) => (.error e, surroundings)
    | (.error e, surroundings) => (.error e, surroundings)

/-- What lists of declarations register, each after the behaviors of those before it. -/
def transformedEach : List (List (Declaration V E)) → E → List (List (Binding V E))
  | [], _ => []
  | declarations :: rest, surroundings =>
    transformed declarations surroundings :: transformedEach rest (surroundingsAfter declarations surroundings)

/-- The surroundings pass through the declarations in order. -/
theorem surroundingsAfter_append (declarations rest : List (Declaration V E)) (surroundings : E) :
    surroundingsAfter (declarations ++ rest) surroundings =
      surroundingsAfter rest (surroundingsAfter declarations surroundings) :=
  List.foldl_append

/-- The declarations of two lists are transformed in the surroundings that the first leaves to the second. -/
theorem transformed_append (declarations rest : List (Declaration V E)) (surroundings : E) :
    transformed (declarations ++ rest) surroundings =
      transformed declarations surroundings ++ transformed rest (surroundingsAfter declarations surroundings) := by
  induction declarations generalizing surroundings with
  | nil => rfl
  | cons declaration declarations ih => exact congrArg (_ :: ·) (ih _)

/-- Declarations without a behavior register their bindings. -/
theorem transformed_plain (single : List (Binding V E)) (surroundings : E) :
    transformed (single.map (⟨·, none⟩)) surroundings = single ∧
      surroundingsAfter (single.map (⟨·, none⟩)) surroundings = surroundings := by
  induction single with
  | nil => exact ⟨rfl, rfl⟩
  | cons b single ih => exact ⟨congrArg (b :: ·) ih.1, ih.2⟩

/-- Transforming part by part comes to the same bindings as transforming all of them in a row. -/
theorem flatten_transformedEach (parts : List (List (Declaration V E))) (surroundings : E) :
    (transformedEach parts surroundings).flatten = transformed parts.flatten surroundings := by
  induction parts generalizing surroundings with
  | nil => rfl
  | cons declarations parts ih => rw [transformedEach, List.flatten_cons, List.flatten_cons, ih, transformed_append]

/-- Permitted declarations are built to the module that registers them. -/
theorem build_permitted {declarations : List (Declaration V E)} {surroundings : E}
    (h : Permitted (transformed declarations surroundings)) :
    ∃ m, build declarations surroundings = (.ok m, surroundingsAfter declarations surroundings) ∧
      m.Registers (transformed declarations surroundings) :=
  registers_empty.declareAll_permitted declarations surroundings h

/-- A module that is built registers the transformed declarations, and all declarations have been passed through. -/
theorem build_ok {declarations : List (Declaration V E)} {surroundings : E} {m : Module V E}
    (h : (build declarations surroundings).1 = .ok m) :
    m.Registers (transformed declarations surroundings) ∧
      build declarations surroundings = (.ok m, surroundingsAfter declarations surroundings) := by
  by_cases hpermitted : Permitted (transformed declarations surroundings)
  · obtain ⟨m', hbuild, hregisters⟩ := build_permitted hpermitted
    obtain rfl : m' = m := by simpa [hbuild] using h
    exact ⟨hregisters, hbuild⟩
  · obtain ⟨done, declaration, rest, key, -, -, -, -, hbuild⟩ :=
      registers_empty.declareAll_refused declarations surroundings hpermitted
    simp [build, hbuild] at h

/-- If the policy permits each list by itself, a module is built from each. -/
theorem buildEach_permitted (parts : List (List (Declaration V E))) (surroundings : E)
    (h : ∀ part ∈ transformedEach parts surroundings, Permitted part) :
    ∃ modules, buildEach parts surroundings = (.ok modules, surroundingsAfter parts.flatten surroundings) := by
  induction parts generalizing surroundings with
  | nil => exact ⟨[], rfl⟩
  | cons declarations parts ih =>
    rw [transformedEach, List.forall_mem_cons] at h
    obtain ⟨m, hbuild, -⟩ := build_permitted h.1
    obtain ⟨modules, hrest⟩ := ih _ h.2
    refine ⟨m :: modules, ?_⟩
    simp only [buildEach, hbuild, hrest, List.flatten_cons, surroundingsAfter_append]

/-- Modules that were built each register a permitted list, and list what is left of it. -/
theorem buildEach_ok (parts : List (List (Declaration V E))) (surroundings : E) {modules : List (Module V E)}
    (h : (buildEach parts surroundings).1 = .ok modules) :
    (∀ part ∈ transformedEach parts surroundings, Permitted part) ∧
      (∀ m ∈ modules, ∃ part, m.Registers part) ∧
      modules.map Module.bindings = (transformedEach parts surroundings).map survivors := by
  induction parts generalizing surroundings modules with
  | nil =>
    obtain rfl : [] = modules := Except.ok.inj h
    simp [transformedEach]
  | cons declarations parts ih =>
    unfold buildEach at h
    split at h
    · next m after hfirst =>
      obtain ⟨hregisters, hbuild⟩ := build_ok (congrArg Prod.fst hfirst)
      obtain rfl : after = surroundingsAfter declarations surroundings :=
        congrArg Prod.snd (hfirst.symm.trans hbuild)
      split at h
      · next others _ hrest =>
        obtain rfl : m :: others = modules := Except.ok.inj h
        obtain ⟨hpermitted, hothers, hlists⟩ := ih _ (congrArg Prod.fst hrest)
        exact ⟨List.forall_mem_cons.mpr ⟨hregisters.permitted, hpermitted⟩,
          List.forall_mem_cons.mpr ⟨⟨_, hregisters⟩, hothers⟩,
          List.cons_eq_cons.mpr ⟨hregisters.bindings_eq_survivors, hlists⟩⟩
      · simp at h
    · simp at h

/-! ### Modules put together -/

/-- Includes modules one after the other, and then registers single bindings, up to the first binding
that is refused. -/
def includeAll : List (Module V E) → List (Binding V E) → Module V E → Except BindError (Module V E)
  | [], single, m =>
    match m.bindAll single with
    | (.ok (), m) => .ok m
    | (.error e, _) => .error e
  | other :: rest, single, m =>
    match m.merge other with
    | (.ok (), m) => includeAll rest single m
    | (.error e, _) => .error e

/-- What is included and then registered is registered in this order. -/
theorem Registers.includeAll_ok {m m' : Module V E} {bindings : List (Binding V E)} (h : m.Registers bindings)
    {modules : List (Module V E)} {single : List (Binding V E)} (hall : includeAll modules single m = .ok m') :
    m'.Registers (bindings ++ ((modules.map Module.bindings).flatten ++ single)) := by
  induction modules generalizing m bindings with
  | nil =>
    unfold includeAll at hall
    split at hall
    · next hbound => exact Except.ok.inj hall ▸ h.bindAll_ok hbound
    · simp at hall
  | cons other rest ih =>
    unfold includeAll at hall
    split at hall
    · next hmerge => simpa using ih (h.bindAll_ok hmerge) hall
    · simp at hall

/-- Including modules and single bindings succeeds if everything may be registered in a row. -/
theorem Registers.includeAll_permitted {m : Module V E} {bindings : List (Binding V E)}
    (h : m.Registers bindings) {modules : List (Module V E)} {single : List (Binding V E)}
    (hpermitted : Permitted (bindings ++ ((modules.map Module.bindings).flatten ++ single))) :
    ∃ m', includeAll modules single m = .ok m' := by
  induction modules generalizing m bindings with
  | nil =>
    rw [List.map_nil, List.flatten_nil, List.nil_append] at hpermitted
    obtain ⟨m', hbound, -⟩ := h.bindAll_permitted hpermitted
    exact ⟨m', by rw [includeAll, hbound]⟩
  | cons other rest ih =>
    rw [List.map_cons, List.flatten_cons, List.append_assoc, ← List.append_assoc] at hpermitted
    obtain ⟨merged, hmerge, hregisters⟩ := h.bindAll_permitted hpermitted.of_append
    obtain ⟨m', hrest⟩ := ih hregisters hpermitted
    exact ⟨m', by rw [includeAll, merge, hmerge]; exact hrest⟩

/-- The registry of a component is its first module, into which the rest is included. -/
theorem registry_eq (b : ComponentBuilder V E) :
    b.registry = includeAll b.modules.tail b.bindings (b.modules.headD .empty) := by
  have hmerge (modules : List (Module V E)) (m : Module V E) :
      (do
        let merged ← ComponentBuilder.mergeModules m modules
        match bindAll b.bindings merged with
        | (.ok (), m) => .ok m
        | (.error e, _) => .error e) = includeAll modules b.bindings m := by
    induction modules generalizing m with
    | nil => rfl
    | cons other rest ih =>
      rw [ComponentBuilder.mergeModules, includeAll]
      rcases m.merge other with ⟨_ | _, merged⟩
      · rfl
      · exact ih merged
  exact hmerge _ _

/-- The ways to put modules and then single bindings together: as what a component is built from, or by
inclusion into an empty module. -/
inductive Assembled (modules : List (Module V E)) (single : List (Binding V E)) :
    Except BindError (Module V E) → Prop where
  | component (b : ComponentBuilder V E) (hmodules : b.modules = modules) (hsingle : b.bindings = single) :
    Assembled modules single b.registry
  | inclusion : Assembled modules single (includeAll modules single .empty)

/-- Either way, what is put together is what the modules list, and it is so exactly if that is permitted. -/
theorem Assembled.registers {modules : List (Module V E)} {single : List (Binding V E)}
    {outcome : Except BindError (Module V E)} (h : Assembled modules single outcome)
    (hmodules : ∀ m ∈ modules, ∃ part, m.Registers part) :
    ((∃ m, outcome = .ok m) ↔ Permitted ((modules.map Module.bindings).flatten ++ single)) ∧
      ∀ m, outcome = .ok m →
        ∃ listed, m.Registers listed ∧ Agree listed ((modules.map Module.bindings).flatten ++ single) := by
  have hinclusion : ((∃ m, includeAll modules single .empty = .ok m) ↔
      Permitted ((modules.map Module.bindings).flatten ++ single)) ∧
      ∀ m, includeAll modules single .empty = .ok m →
        ∃ listed, m.Registers listed ∧ Agree listed ((modules.map Module.bindings).flatten ++ single) :=
    ⟨⟨fun ⟨_, hm⟩ => (registers_empty.includeAll_ok hm).permitted, registers_empty.includeAll_permitted⟩,
      fun _ hm => ⟨_, registers_empty.includeAll_ok hm, Agree.refl _⟩⟩
  cases h with
  | inclusion => exact hinclusion
  | component b hsame hsingle =>
    rw [registry_eq, hsame, hsingle]
    cases modules with
    | nil => exact hinclusion
    | cons first rest =>
      -- The first module is taken as it is, so the others are registered after what it was built from.
      obtain ⟨part, hpart⟩ := hmodules first List.mem_cons_self
      rw [List.map_cons, List.flatten_cons, List.append_assoc, hpart.bindings_eq_survivors]
      have hpermitted (others : List (Binding V E)) :
          Permitted (survivors part ++ others) ↔ Permitted (part ++ others) := by
        simp only [permitted_append, permitted_survivors, hpart.permitted, Overridden, occurring_survivors]
      rw [hpermitted]
      exact ⟨⟨fun ⟨_, hm⟩ => (hpart.includeAll_ok hm).permitted, hpart.includeAll_permitted⟩,
        fun _ hm => ⟨_, hpart.includeAll_ok hm, (agree_survivors part).symm.append (Agree.refl _)⟩⟩

section Parts

variable (parts : List (List (Declaration V E))) (single : List (Binding V E)) (surroundings : E)

/-- Single bindings that follow the parts are parts of their own. -/
theorem transformed_parts : transformed (parts.flatten ++ single.map (⟨·, none⟩)) surroundings =
    (transformedEach parts surroundings ++ single.map ([·])).flatten := by
  rw [transformed_append, (transformed_plain _ _).1, List.flatten_append, flatten_transformedEach]
  exact congrArg _ (List.flatMap_singleton' single).symm

/-- The whole is built exactly if every part is permitted and overrides what the earlier ones list. -/
theorem build_parts_iff : (∃ m, (build (parts.flatten ++ single.map (⟨·, none⟩)) surroundings).1 = .ok m) ↔
    (∀ piece ∈ transformedEach parts surroundings ++ single.map ([·]), Permitted piece) ∧
      (transformedEach parts surroundings ++ single.map ([·])).Pairwise Overridden := by
  rw [← permitted_flatten, ← transformed_parts]
  exact ⟨fun ⟨_, hm⟩ => (build_ok hm).1.permitted, fun h => (build_permitted h).imp fun _ hm => congrArg Prod.fst hm.1⟩

/-- The parts are built exactly if every one is permitted. -/
theorem buildEach_iff : (∃ modules, (buildEach parts surroundings).1 = .ok modules) ↔
    ∀ piece ∈ transformedEach parts surroundings ++ single.map ([·]), Permitted piece := by
  rw [List.forall_mem_append]
  constructor
  · rintro ⟨modules, hmodules⟩
    refine ⟨(buildEach_ok parts surroundings hmodules).1, fun piece hpiece => ?_⟩
    obtain ⟨b, -, rfl⟩ := List.mem_map.mp hpiece
    exact List.pairwise_singleton _ _
  · rintro ⟨hparts, -⟩
    exact (buildEach_permitted parts surroundings hparts).imp fun _ hmodules => congrArg Prod.fst hmodules

variable {parts single surroundings}

/-- Modules that were built of parts are put together if the survivors of the parts permit it, and what is
listed then agrees with the parts. -/
theorem Assembled.of_buildEach {modules : List (Module V E)} {outcome : Except BindError (Module V E)}
    (hmodules : (buildEach parts surroundings).1 = .ok modules) (h : Assembled modules single outcome) :
    ((∃ m, outcome = .ok m) ↔ (transformedEach parts surroundings ++ single.map ([·])).Pairwise Superseded) ∧
      ∀ m, outcome = .ok m → ∃ listed, m.Registers listed ∧
        Agree listed (transformedEach parts surroundings ++ single.map ([·])).flatten := by
  obtain ⟨-, hregister, hlists⟩ := buildEach_ok parts surroundings hmodules
  have hlisted : (modules.map Module.bindings).flatten ++ single =
      ((transformedEach parts surroundings ++ single.map ([·])).map survivors).flatten := by
    have hsurvivors : (single.map ([·])).map survivors = single.map ([·]) := by
      rw [List.map_map]
      exact List.map_congr_left fun b _ => survivors_singleton b
    rw [List.map_append, List.flatten_append, ← hlists, hsurvivors]
    exact congrArg _ (List.flatMap_singleton' single).symm
  have hboth := h.registers hregister
  rw [hlisted, permitted_flatten_survivors] at hboth
  refine ⟨hboth.1, fun m hm => ?_⟩
  obtain ⟨listed, hregisters, hagree⟩ := hboth.2 m hm
  exact ⟨listed, hregisters, hagree.trans (agree_flatten_survivors _)⟩

end Parts

/-- Declarations are built in parts that are put together, or all at once, with single bindings after
them. If the whole is built, so are the parts, and together they list the same bindings in the same order,
found under the same keys. The whole is built exactly if each part is permitted and every binding of a later
part under a key of an earlier one is marked as an override; for the parts to be put together it is enough
that the last bindings of the later parts are. In either case the last binding under each key is listed, in
the order in which the keys first occur. -/
theorem build_in_parts (parts : List (List (Declaration V E))) (single : List (Binding V E)) (surroundings : E) :
    let whole := build (parts.flatten ++ single.map (⟨·, none⟩)) surroundings
    let split := buildEach parts surroundings
    let pieces := transformedEach parts surroundings ++ single.map ([·])
    (∀ m, whole.1 = .ok m →
        ∃ modules, split = (.ok modules, whole.2) ∧ ∀ outcome, Assembled modules single outcome →
          ∃ m', outcome = .ok m' ∧ m'.bindings = m.bindings ∧
            ∀ key, m'.get? key = m.get? key ∧ m'.contains key = m.contains key) ∧
      ((∃ m, whole.1 = .ok m) ↔ (∀ piece ∈ pieces, Permitted piece) ∧ pieces.Pairwise Overridden) ∧
      ((∃ modules, split.1 = .ok modules) ↔ ∀ piece ∈ pieces, Permitted piece) ∧
      ∀ modules outcome, split.1 = .ok modules → Assembled modules single outcome →
        ((∃ m, outcome = .ok m) ↔ pieces.Pairwise Superseded) ∧
          ∀ m, outcome = .ok m →
            m.bindings.map some = (occurring pieces.flatten).map (last? pieces.flatten) ∧
              ∀ key, m.get? key = m.bindings.find? (fun b => b.key.identity = key.identity) ∧
                (m.contains key = true ↔ ∃ b ∈ m.bindings, b.key.identity = key.identity) := by
  intro whole split pieces
  refine ⟨fun m hm => ?_, build_parts_iff parts single surroundings, buildEach_iff parts single surroundings,
    fun modules outcome hmodules houtcome => ?_⟩
  · obtain ⟨hregisters, hbuild⟩ := build_ok hm
    rw [transformed_parts] at hregisters
    obtain ⟨hpermitted, hoverridden⟩ := permitted_flatten.mp hregisters.permitted
    obtain ⟨modules, hmodules⟩ := buildEach_permitted parts surroundings (List.forall_mem_append.mp hpermitted).1
    have hsurroundings : whole.2 = surroundingsAfter parts.flatten surroundings := by
      rw [show whole.2 = _ from congrArg Prod.snd hbuild, surroundingsAfter_append, (transformed_plain _ _).2]
    refine ⟨modules, by rw [hsurroundings]; exact hmodules, fun outcome houtcome => ?_⟩
    obtain ⟨hok, hlists⟩ := houtcome.of_buildEach (congrArg Prod.fst hmodules)
    obtain ⟨m', hm'⟩ := hok.mpr (hoverridden.imp Overridden.superseded)
    obtain ⟨listed, hlisted, hagree⟩ := hlists m' hm'
    have hbindings : m'.bindings = m.bindings := by
      rw [hlisted.bindings_eq_survivors, hregisters.bindings_eq_survivors, hagree.survivors_eq]
    refine ⟨m', hm', hbindings, fun key => ⟨?_, ?_⟩⟩
    · rw [hlisted.keyed.get?_eq_find?, hregisters.keyed.get?_eq_find?, hbindings]
    · rw [Bool.eq_iff_iff, hlisted.keyed.contains_iff, hregisters.keyed.contains_iff, hbindings]
  · obtain ⟨hok, hlists⟩ := houtcome.of_buildEach hmodules
    refine ⟨hok, fun m hm => ?_⟩
    obtain ⟨listed, hlisted, hagree⟩ := hlists m hm
    exact ⟨by rw [hlisted.bindings_eq, hagree.order, funext hagree.last],
      fun key => ⟨hlisted.keyed.get?_eq_find? key, hlisted.keyed.contains_iff key⟩⟩

/-- Three modules of two types and a single binding: the later lists override the first as a whole. -/
theorem build_in_parts_overriding :
    let mark := ("mark", fun b : Binding Unit (List String) => b.withOverride true)
    let parts : List (List (Declaration Unit (List String))) :=
      [[.noted 0 [], .noted 1 []], [.noted 1 [mark]], [.noted 2 [], .noted 0 [mark], .noted 0 [mark]]]
    let single : List (Binding Unit (List String)) :=
      [((Declaration.noted 2 []).binding.withOverride true).withKind .factory]
    ∃ m modules, (build (parts.flatten ++ single.map (⟨·, none⟩)) []).1 = .ok m ∧
      buildEach parts [] = (.ok modules, ["mark", "mark", "mark"]) ∧
      m.bindings.map (fun b => (b.key.type.id.code, b.kind, b.isOverride)) =
        [(0, .single, true), (1, .single, true), (2, .factory, true)] ∧
      ∀ outcome, Assembled modules single outcome → ∃ m', outcome = .ok m' ∧ m'.bindings = m.bindings := by
  intro mark parts single
  obtain ⟨hwhole, -⟩ := build_in_parts parts single []
  obtain ⟨modules, hsplit, hassembled⟩ := hwhole _ rfl
  refine ⟨_, modules, rfl, hsplit, rfl, fun outcome houtcome => ?_⟩
  obtain ⟨m', hm', hbindings, -⟩ := hassembled outcome houtcome
  exact ⟨m', hm', hbindings⟩

/-- A second binding that is not marked is refused in one module. In parts nobody sees it: the module that
lists it as overridden is built first, and only the mark of the last binding meets the first module. -/
theorem build_in_parts_hidden_duplicate :
    let mark := ("mark", fun b : Binding Unit (List String) => b.withOverride true)
    let parts : List (List (Declaration Unit (List String))) := [[.noted 0 []], [.noted 0 [], .noted 0 [mark]]]
    (build (parts.flatten ++ ([] : List (Binding Unit (List String))).map (⟨·, none⟩)) []).1 =
        .error (.duplicate (.of ⟨⟨0⟩, "T"⟩)) ∧
      ∃ modules, (buildEach parts []).1 = .ok modules ∧
        ∀ outcome, Assembled modules [] outcome → ∃ m, outcome = .ok m := by
  intro mark parts
  refine ⟨rfl, _, rfl, ?_⟩
  rintro outcome (⟨b, hmodules, hsingle⟩ | _)
  · rw [registry_eq, hmodules, hsingle]
    exact ⟨_, rfl⟩
  · exact ⟨_, rfl⟩

end Module

end Injection
