import Injection.Proofs.Hierarchy

/-!
# Bindings in the order of their keys

Given any order of types, keys are ordered by their type, then by their qualifier and last by whether they
accept the absence of a value. A required key and its optional twin are then neighbors, so whatever is stored
from the one to the other is what a request for either may be served by, and going through it from the back
prefers the optional binding.
-/

namespace Injection

variable {V E : Type}

/-! ### The order of keys -/

namespace Qualifier.Identity

/-- The name that a qualifier is. -/
def name? : Identity → Option String
  | name text => some text
  | type _ => none

/-- The type that a qualifier is. -/
def type? : Identity → Option TypeId
  | name _ => none
  | type id => some id

/-- A qualifier is determined by the name or the type that it is. -/
theorem eq_of_parts {a b : Identity} (htype : a.type? = b.type?) (hname : a.name? = b.name?) : a = b := by
  cases a <;> cases b <;> simp_all [type?, name?]

end Qualifier.Identity

section Order

variable [Ord TypeId]

/-- Names come before types. -/
instance : Ord Qualifier.Identity :=
  ⟨compareLex (compareOn Qualifier.Identity.type?) (compareOn Qualifier.Identity.name?)⟩

/-- Sites are ordered by type and then by qualifier, no qualifier coming first. -/
instance : Ord Site := ⟨compareLex (compareOn Site.type) (compareOn Site.qualifier)⟩

/-- Keys are ordered by site and then by nullability, the required key first. -/
instance : Ord KeyId := ⟨compareLex (compareOn KeyId.site) (compareOn KeyId.nullable)⟩

variable [Std.TransOrd TypeId]

/-- Qualifiers are ordered first by one part and then by the other, so their order is transitive. -/
instance : Std.TransOrd Qualifier.Identity := inferInstanceAs (Std.TransCmp (compareLex _ _))

/-- Likewise the order of sites. -/
instance : Std.TransOrd Site := inferInstanceAs (Std.TransCmp (compareLex _ _))

/-- Likewise the order of keys. -/
instance : Std.TransOrd KeyId := inferInstanceAs (Std.TransCmp (compareLex _ _))

variable [Std.LawfulEqOrd TypeId]

/-- Qualifiers compare as equal only if both parts are equal. -/
instance : Std.LawfulEqOrd Qualifier.Identity where
  eq_of_compare {a b} h := by
    simp only [compare, compareLex_eq_eq, compareOn] at h
    exact Qualifier.Identity.eq_of_parts (Std.LawfulEqOrd.eq_of_compare h.1) (Std.LawfulEqOrd.eq_of_compare h.2)

/-- Sites compare as equal only if they are equal. -/
instance : Std.LawfulEqOrd Site where
  eq_of_compare {a b} h := by
    obtain ⟨htype, hqualifier⟩ := compareLex_eq_eq.mp h
    cases a
    cases b
    obtain rfl := Std.LawfulEqOrd.eq_of_compare htype
    obtain rfl := Std.LawfulEqOrd.eq_of_compare hqualifier
    rfl

/-- Keys compare as equal only if they are equal. -/
instance : Std.LawfulEqOrd KeyId where
  eq_of_compare {a b} h := by
    obtain ⟨hsite, hnullable⟩ := compareLex_eq_eq.mp h
    cases a
    cases b
    obtain rfl := Std.LawfulEqOrd.eq_of_compare hsite
    obtain rfl := Std.LawfulEqOrd.eq_of_compare hnullable
    rfl

/-- Where the order of qualifiers is told without comparing types, it is this order. -/
theorem Qualifier.Identity.compare_of_compare? {a b : Option Qualifier.Identity} {order : Ordering}
    (h : Qualifier.Identity.compare? a b = some order) : compare a b = order := by
  match a, b with
  | none, none | none, some _ | some _, none | some (.name _), some (.name _) | some (.name _), some (.type _)
  | some (.type _), some (.name _) => exact Option.some.inj h
  | some (.type a), some (.type b) =>
    by_cases hsame : a = b
    · subst hsame
      rw [Std.ReflOrd.compare_self]
      simpa [Qualifier.Identity.compare?] using h
    · simp [Qualifier.Identity.compare?, hsame] at h

/-- Where keys have an order of their own, whatever the order of types, it is this one. -/
theorem Key.compare_of_compare? {a b : Key} {order : Ordering}
    (h : Key.compare? a b = some order) : compare a.identity b.identity = order := by
  unfold Key.compare? at h
  split at h
  · next htype =>
    obtain ⟨qualifiers, hqualifiers, rfl⟩ := Option.map_eq_some_iff.mp h
    calc
      compare a.identity b.identity
        = ((compare a.type.id b.type.id).then (compare a.site.qualifier b.site.qualifier)).then
            (compare a.nullable b.nullable) := rfl
      _ = qualifiers.then (compare a.nullable b.nullable) := by
        rw [htype, Std.ReflOrd.compare_self, Ordering.eq_then, Qualifier.Identity.compare_of_compare? hqualifiers]
  · contradiction

/-- The required and the optional key of a site are next to each other. -/
theorem KeyId.compare_of_site {a b : KeyId} (h : a.site = b.site) :
    compare a b = compare a.nullable b.nullable := calc
  compare a b = (compare a.site b.site).then (compare a.nullable b.nullable) := rfl
  _ = compare a.nullable b.nullable := by rw [h, Std.ReflOrd.compare_self, Ordering.eq_then]

/-- Exactly the keys of a site lie between its required and its optional key. -/
theorem Key.between_iff (key : Key) (id : KeyId) :
    (compare key.required.identity id).isLE ∧ (compare id key.optional.identity).isLE ↔ id.site = key.site := by
  have hfirst : compare key.required.identity id = (compare key.site id.site).then (compare false id.nullable) := rfl
  have hlast : compare id key.optional.identity = (compare id.site key.site).then (compare id.nullable true) := rfl
  rw [hfirst, hlast]
  constructor
  · rintro ⟨hlower, hupper⟩
    have hsame := Std.OrientedCmp.isLE_antisymm (Ordering.isLE_left_of_isLE_then hupper)
      (Ordering.isLE_left_of_isLE_then hlower)
    exact Std.LawfulEqOrd.eq_of_compare hsame
  · intro hsite
    rw [hsite, Std.ReflOrd.compare_self, Ordering.eq_then, Ordering.eq_then]
    cases id.nullable <;> exact ⟨rfl, rfl⟩

end Order

/-! ### What may serve a key -/

/-- A candidate serves the requests of its site, but if it is nullable, only those that are nullable, too. -/
theorem Key.serves_iff {requested candidate : Key} :
    requested.serves candidate = true ↔
      candidate.site = requested.site ∧ (candidate.nullable = true → requested.nullable = true) := by
  simp only [serves, Bool.and_eq_true, decide_eq_true_eq, Bool.or_eq_true, Bool.not_eq_eq_eq_not, Bool.not_true]
  grind

namespace Component

variable {component : Component V E} {key : Key} {b : Binding V E}

/-- The bindings of a component have distinct keys. -/
def Keyed (component : Component V E) : Prop :=
  (component.bindings.map fun binding => binding.key.identity).Nodup

/-- In a component of distinct keys, a binding is the one under a key exactly if it is there and has the key. -/
theorem Keyed.binding?_eq_some (h : component.Keyed) {id : KeyId} :
    component.binding? id = some b ↔ b ∈ component.bindings ∧ b.key.identity = id := by
  constructor
  · intro hb
    exact ⟨List.mem_of_find?_eq_some hb, by simpa using List.find?_some hb⟩
  · rintro ⟨hb, rfl⟩
    exact find?_of_nodup_map h hb

/-- There is no binding under a key exactly if none has the key. -/
theorem binding?_eq_none {id : KeyId} :
    component.binding? id = none ↔ ∀ b ∈ component.bindings, b.key.identity ≠ id := by
  simp [binding?]

/-- What serves a key is under the key itself, or else under the required key. -/
theorem serving?_eq_orElse (component : Component V E) (key : Key) :
    component.serving? key = (component.binding? key.identity).or (component.binding? key.required.identity) := by
  obtain ⟨type, qualifier, nullable⟩ := key
  cases nullable <;> simp [serving?, Key.required, Option.or_self]

/-- Nothing serves a key exactly if none of the bindings may. -/
theorem serving?_eq_none : component.serving? key = none ↔ ∀ b ∈ component.bindings, key.serves b.key = false := by
  rw [serving?_eq_orElse, Option.or_eq_none_iff, binding?_eq_none, binding?_eq_none]
  constructor
  · rintro ⟨hexact, hrequired⟩ b hb
    by_contra hserves
    obtain ⟨hsite, hnullable⟩ := Key.serves_iff.mp (by simpa using hserves)
    cases hb' : b.key.nullable with
    | false => exact hrequired b hb (congrArg₂ KeyId.mk hsite hb')
    | true => exact hexact b hb (congrArg₂ KeyId.mk hsite (hb'.trans (hnullable hb').symm))
  · intro hnone
    refine ⟨fun b hb hkey => ?_, fun b hb hkey => ?_⟩
    · have hserves : key.serves b.key = true :=
        Key.serves_iff.mpr ⟨congrArg KeyId.site hkey, fun h => (congrArg KeyId.nullable hkey).symm.trans h⟩
      simp [hnone b hb] at hserves
    · have hserves : key.serves b.key = true := by
        refine Key.serves_iff.mpr ⟨congrArg KeyId.site hkey, fun h => ?_⟩
        have hfalse : b.key.nullable = false := congrArg KeyId.nullable hkey
        simp [hfalse] at h
      simp [hnone b hb] at hserves

section Range

variable [Ord TypeId]

/-- The bindings in the order of their keys. -/
def ordered (component : Component V E) : List (Binding V E) :=
  component.bindings.mergeSort fun a b => (compare a.key.identity b.key.identity).isLE

/-- The bindings from a key up to another, in the order of their keys. -/
def range (component : Component V E) (lower upper : KeyId) : List (Binding V E) :=
  component.ordered.filter fun b =>
    (compare lower b.key.identity).isLE && (compare b.key.identity upper).isLE

/-- The last binding from the required to the optional key that may serve a request. -/
def lastServing? (component : Component V E) (key : Key) : Option (Binding V E) :=
  (component.range key.required.identity key.optional.identity).reverse.find? fun b => key.serves b.key

/-- Ordering the bindings leaves none out and adds none. -/
theorem mem_ordered : b ∈ component.ordered ↔ b ∈ component.bindings := List.mem_mergeSort

variable [Std.TransOrd TypeId] [Std.LawfulEqOrd TypeId]

/-- From the required to the optional key lie exactly the bindings of the site. -/
theorem range_eq : component.range key.required.identity key.optional.identity =
    component.ordered.filter fun b => b.key.site = key.site := by
  refine List.filter_congr fun b _ => ?_
  rw [Bool.eq_iff_iff, Bool.and_eq_true, Key.between_iff, decide_eq_true_eq]
  rfl

/-- Every binding that may serve a request lies between the required and the optional key. -/
theorem mem_range_of_serves (hb : b ∈ component.bindings) (h : key.serves b.key = true) :
    b ∈ component.range key.required.identity key.optional.identity := by
  rw [range_eq, List.mem_filter, mem_ordered]
  exact ⟨hb, by simpa using (Key.serves_iff.mp h).1⟩

/-- No binding outside of the range may serve the key. -/
theorem filter_range : (component.range key.required.identity key.optional.identity).filter (key.serves ·.key) =
    component.ordered.filter (key.serves ·.key) := by
  rw [range_eq, List.filter_filter]
  refine List.filter_congr fun b _ => ?_
  rw [Bool.eq_iff_iff, Bool.and_eq_true, decide_eq_true_eq]
  exact and_iff_left_of_imp fun h => (Key.serves_iff.mp h).1

/-- Distinct keys are in strict order. -/
theorem Keyed.ordered (h : component.Keyed) :
    component.ordered.Pairwise fun a b => compare a.key.identity b.key.identity = .lt := by
  have htotal (a b : KeyId) : ((compare a b).isLE || (compare b a).isLE) = true := by
    rw [Std.OrientedOrd.eq_swap (a := b)]
    cases compare a b <;> rfl
  have hsorted : component.ordered.Pairwise fun a b => (compare a.key.identity b.key.identity).isLE :=
    List.pairwise_mergeSort
      (fun a b c => @Std.TransOrd.isLE_trans _ _ _ a.key.identity b.key.identity c.key.identity)
      (fun a b => htotal a.key.identity b.key.identity) component.bindings
  have hdistinct : component.ordered.Pairwise fun a b => a.key.identity ≠ b.key.identity := by
    have hnodup : (component.ordered.map fun b => b.key.identity).Nodup :=
      ((List.mergeSort_perm _ _).map _).nodup_iff.mpr h
    exact List.pairwise_map.mp hnodup
  refine hsorted.imp₂ (fun a b hle hne => ?_) hdistinct
  cases hcompare : compare a.key.identity b.key.identity with
  | lt => rfl
  | eq => exact absurd (Std.LawfulEqOrd.eq_of_compare hcompare) hne
  | gt => simp [hcompare] at hle

/-- What follows a binding in the reversed range has a lesser key. -/
theorem Keyed.lt_of_reverse_range (h : component.Keyed) {lower upper : KeyId} {above below : List (Binding V E)}
    {last : Binding V E} (hsplit : (component.range lower upper).reverse = above ++ last :: below) (hb : b ∈ below) :
    compare b.key.identity last.key.identity = .lt := by
  have hsorted : (above ++ last :: below).Pairwise fun a b => compare b.key.identity a.key.identity = .lt :=
    hsplit ▸ List.pairwise_reverse.mpr (h.ordered.filter _)
  exact (List.pairwise_cons.mp (List.pairwise_append.mp hsorted).2.1).1 b hb

/-- The last binding of the range that may serve a key is the one that does. -/
theorem Keyed.lastServing?_eq (h : component.Keyed) (key : Key) :
    component.lastServing? key = component.serving? key := by
  cases hfound : component.lastServing? key with
  | none =>
    symm
    rw [serving?_eq_none]
    intro b hb
    by_contra hserves
    have hrange := mem_range_of_serves hb (by simpa using hserves)
    exact List.find?_eq_none.mp hfound b (List.mem_reverse.mpr hrange) (by simpa using hserves)
  | some last =>
    obtain ⟨hserves, later, earlier, hsplit, hlater⟩ := List.find?_eq_some_iff_append.mp hfound
    have hrange {b : Binding V E} : b ∈ component.range key.required.identity key.optional.identity ↔
        b ∈ later ∨ b = last ∨ b ∈ earlier := by
      rw [← List.mem_reverse, hsplit, List.mem_append, List.mem_cons]
    have hlast : last ∈ component.bindings :=
      mem_ordered.mp (List.mem_of_mem_filter (hrange.mpr (.inr (.inl rfl))))
    obtain ⟨hsite, hnullable⟩ := Key.serves_iff.mp hserves
    symm
    rw [serving?_eq_orElse, Option.or_eq_some_iff, h.binding?_eq_some, h.binding?_eq_some]
    by_cases hexact : last.key.nullable = key.nullable
    · exact .inl ⟨hlast, congrArg₂ KeyId.mk hsite hexact⟩
    · -- The last one is under the required key, so the optional twin would have come after it.
      have hrequired : last.key.nullable = false := by grind
      have hoptional : key.nullable = true := by grind
      refine .inr ⟨?_, hlast, congrArg₂ KeyId.mk hsite hrequired⟩
      rw [binding?_eq_none]
      intro b hb hkey
      have hbserves : key.serves b.key = true :=
        Key.serves_iff.mpr ⟨congrArg KeyId.site hkey, fun _ => hoptional⟩
      rcases hrange.mp (mem_range_of_serves hb hbserves) with hmem | rfl | hmem
      · simpa [hbserves] using hlater b hmem
      · exact hexact (congrArg KeyId.nullable hkey)
      · have hbefore := h.lt_of_reverse_range hsplit hmem
        have hsame : b.key.site = last.key.site := (congrArg KeyId.site hkey).trans hsite.symm
        have hbnullable : b.key.nullable = true := (congrArg KeyId.nullable hkey).trans hoptional
        rw [KeyId.compare_of_site hsame] at hbefore
        have hafter : compare b.key.nullable last.key.nullable = .gt := by rw [hrequired, hbnullable]; rfl
        exact absurd (hbefore.symm.trans hafter) (by decide)

end Range

end Component

end Injection
