import Injection.Proofs.KeyOrder
import Injection.Proofs.Realm
import Injection.Proofs.Selection

/-!
# Components in the order of the search

A search goes through a component and its living ancestors depth first: a component comes before its
parents, and the parent that was added last comes before the others, each with all that is above it. An
ancestor that is shared comes as often as there are ways up to it, but only the first time matters. Whatever
is searched for, a binding for a key or the owner of a scope, is the first to be met in this order.
-/

namespace Injection

variable {V E : Type}

/-- The first hit in a list of lists is the first hit of the first list that has one. -/
theorem findSome?_flatMap {α β γ : Type} (l : List α) (f : α → List β) (g : β → Option γ) :
    (l.flatMap f).findSome? g = l.findSome? fun a => (f a).findSome? g := by
  induction l with
  | nil => rfl
  | cons a rest ih =>
    rw [List.flatMap_cons, List.findSome?_append, List.findSome?_cons, ih]
    cases (f a).findSome? g <;> rfl

namespace World

variable {w w' : World V E} {c d : ComponentId} {key : Key} {tag : ScopeTag}

/-! ### Worlds that are built -/

/-- Components come after their parents and have distinct keys. -/
structure Formed (w : World V E) : Prop where
  ordered : ∀ c, ∀ parent ∈ w.parents c, parent < c
  keyed : w.Keyed

/-- A pristine world is well formed. -/
theorem Pristine.formed (h : w.Pristine) : w.Formed := ⟨h.ordered, h.keyed⟩

/-- A world stays well formed where the components stay as they are. -/
theorem Formed.of_components (h : w.Formed) (hcomponents : w'.components = w.components) : w'.Formed where
  ordered c parent hparent := h.ordered c parent (by simpa [World.parents, component?, hcomponents] using hparent)
  keyed := h.keyed.of_components hcomponents

/-- Storing a binding changes no component's parents. -/
theorem parents_memoize (w : World V E) (c d : ComponentId) (binding : Binding V E) :
    (w.memoize c binding).parents d = w.parents d := by
  simp only [World.parents, component?_memoize]
  cases w.component? d <;> simp [apply_ite]

/-- A world stays well formed when a binding is stored. -/
theorem Formed.memoize (h : w.Formed) (c : ComponentId) (binding : Binding V E) : (w.memoize c binding).Formed where
  ordered d parent hparent := h.ordered d parent (by rwa [parents_memoize] at hparent)
  keyed := h.keyed.memoize c binding

/-- A world stays well formed when a component is dropped. -/
theorem Formed.drop (h : w.Formed) (c : ComponentId) : (w.drop c).Formed where
  ordered d parent hparent := h.ordered d parent (w.parents_drop c d ▸ hparent)
  keyed d := by
    rw [bindings_drop]
    exact h.keyed d

/-- A builder adds a component below those that are there. -/
theorem Formed.build (h : w.Formed) {b : ComponentBuilder V E} (hmodules : ∀ source ∈ b.modules, source.Keyed)
    (hparents : ∀ parent ∈ b.parents, parent < w.components.length) (hbuild : w.build b = .ok (c, w')) :
    w'.Formed := by
  obtain ⟨m, hregistry, rfl⟩ := build_eq_ok hbuild
  refine ⟨fun d parent hparent => ?_, fun d => ?_⟩
  · simp only [World.parents, component?_addComponent] at hparent
    split at hparent
    · next hd => exact hd ▸ hparents parent (List.mem_reverse.mp hparent)
    · exact h.ordered d parent hparent
  · simp only [World.bindings, component?_addComponent]
    split
    · exact (ComponentBuilder.keyed_registry hmodules hregistry).bindings
    · exact h.keyed d

/-- Whatever a request does, it leaves such a world. -/
theorem Formed.answers [Hashed V] (h : w.Formed) (hanswers : w.Answers w') : w'.Formed := by
  let holds (components : List (Component V E)) : Prop := ∀ w : World V E, w.components = components → w.Formed
  have hmemoized {w : World V E} {c : ComponentId} {binding : Binding V E} (hw : holds w.components) :
      holds (w.memoize c binding).components :=
    fun _ hsame => ((hw w rfl).memoize c binding).of_components hsame
  have hC : (Conduct.free holds fun _ _ => True).Lawful :=
    Conduct.lawful_free (fun _ _ _ => trivial) (fun hw _ => hmemoized hw) fun _ _ _ => Synthesis.supplies_lax _ _ _
  obtain ⟨depth, root, q, reply, hrun⟩ := hanswers
  have hkeeps : (q.task root : Task V E (Reply V)).Keeps (.free holds fun _ _ => True) [] :=
    (Task.enter_keeps root none q.key q.parameters []).bind fun _ _ => .done trivial
  exact Task.Follows.run (hC.guards depth) hkeeps (fun _ hsame => h.of_components hsame) hrun w' rfl

/-! ### The order of the search -/

/-- A component and what is above it, as far as a number of generations go. -/
def preorderWithin (w : World V E) : (generations : Nat) → ComponentId → List ComponentId
  | 0, _ => []
  | generations + 1, c => c :: (w.livingParents c).flatMap (w.preorderWithin generations)

/-- A component and its living ancestors, depth first. -/
def preorder (w : World V E) (c : ComponentId) : List ComponentId := w.preorderWithin (c + 1) c

/-- What is found is in the first component of the order that stores what serves the key. -/
theorem found?_eq (key : Key) (c : ComponentId) :
    w.found? key c = (w.preorder c).findSome? fun d => (w.serving? d key).map (Stored.mk d) := by
  unfold found? preorder
  generalize c + 1 = generations
  induction generations generalizing c with
  | zero => rfl
  | succ generations ih =>
    rw [foundWithin?, preorderWithin, List.findSome?_cons, findSome?_flatMap]
    cases w.serving? c key with
    | some binding => rfl
    | none => exact findSome?_congr fun parent _ => ih parent

/-- The owner of a scope is the first component of the order that declares it. -/
theorem scopeOwner?_eq_find? (c : ComponentId) (tag : ScopeTag) :
    w.scopeOwner? c tag = (w.preorder c).find? fun d => w.hasScope d tag := by
  unfold scopeOwner? preorder
  generalize c + 1 = generations
  induction generations generalizing c with
  | zero => rfl
  | succ generations ih =>
    rw [scopeOwnerWithin?, preorderWithin, List.find?_cons, List.find?_flatMap]
    cases w.hasScope c tag with
    | true => rfl
    | false => exact findSome?_congr fun parent _ => ih parent

namespace Formed

variable (h : w.Formed)
include h

/-- More generations than there are components before one make no difference. -/
theorem preorderWithin_eq {generations generations' : Nat} (hlt : c < generations) (hlt' : c < generations') :
    w.preorderWithin generations c = w.preorderWithin generations' c := by
  induction generations generalizing generations' c with
  | zero => exact absurd hlt (Nat.not_lt_zero c)
  | succ generations ih =>
    cases generations' with
    | zero => exact absurd hlt' (Nat.not_lt_zero c)
    | succ generations' =>
      rw [preorderWithin, preorderWithin, List.flatMap_def, List.flatMap_def]
      congr 2
      refine List.map_congr_left fun parent hparent => ?_
      have hbefore : parent < c := h.ordered c parent (List.mem_of_mem_filter hparent)
      exact ih (Nat.lt_of_lt_of_le hbefore (Nat.le_of_lt_succ hlt)) (Nat.lt_of_lt_of_le hbefore (Nat.le_of_lt_succ hlt'))

/-- A component comes first, and then each living parent with what is above it. -/
theorem preorder_eq (c : ComponentId) : w.preorder c = c :: (w.livingParents c).flatMap w.preorder := by
  rw [preorder, preorderWithin, List.flatMap_def, List.flatMap_def]
  congr 2
  refine List.map_congr_left fun parent hparent => ?_
  have hbefore : parent < c := h.ordered c parent (List.mem_of_mem_filter hparent)
  exact h.preorderWithin_eq hbefore (Nat.lt_succ_self parent)

/-- The order goes through exactly the component and its living ancestors. -/
theorem mem_preorder : d ∈ w.preorder c ↔ w.Above c d := by
  constructor
  · intro hd
    induction c using Nat.strongRecOn with
    | ind c ih =>
      rw [h.preorder_eq, List.mem_cons, List.mem_flatMap] at hd
      rcases hd with rfl | ⟨parent, hparent, hd⟩
      · exact .refl
      · exact .head hparent (ih parent (h.ordered c parent (List.mem_of_mem_filter hparent)) hd)
  · intro habove
    induction habove using Relation.ReflTransGen.head_induction_on with
    | refl => exact h.preorder_eq d ▸ List.mem_cons_self
    | head hparent _ ih =>
      rw [h.preorder_eq, List.mem_cons, List.mem_flatMap]
      exact .inr ⟨_, hparent, ih⟩

end Formed

/-! ### What is stored in a component -/

/-- Where keys are distinct in a world, they are in each of its components. -/
theorem Keyed.component (h : w.Keyed) {component : Component V E} (hcomponent : w.component? d = some component) :
    component.Keyed := by
  have hd := h d
  rwa [World.bindings, hcomponent] at hd

/-- A component serves a key by what is under exactly the key, or else under the required key. -/
theorem serving?_eq_orElse (w : World V E) (d : ComponentId) (key : Key) :
    w.serving? d key = (w.binding? d key.identity).or (w.binding? d key.required.identity) := by
  unfold World.serving? World.binding?
  cases w.component? d with
  | none => rfl
  | some component => exact component.serving?_eq_orElse key

/-- A component does not serve a key exactly if none of its bindings may. -/
theorem serving?_eq_none_iff :
    w.serving? d key = none ↔ ∀ binding ∈ w.bindings d, key.serves binding.key = false := by
  unfold World.serving? World.bindings
  cases w.component? d with
  | none => simp
  | some component => exact Component.serving?_eq_none

/-- Nothing is found exactly if no component on the way up has a binding that may serve the key. -/
theorem Formed.found?_eq_none (h : w.Formed) :
    w.found? key c = none ↔ ∀ d, w.Above c d → ∀ binding ∈ w.bindings d, key.serves binding.key = false := by
  rw [found?_eq, List.findSome?_eq_none_iff]
  simp only [Option.map_eq_none_iff, serving?_eq_none_iff, h.mem_preorder]

/-- What is found is in the first component of the order that has a binding for the key. -/
theorem found?_eq_some {stored : Stored V E} :
    w.found? key c = some stored ↔ ∃ before after, w.preorder c = before ++ stored.owner :: after ∧
      (∀ d ∈ before, ∀ binding ∈ w.bindings d, key.serves binding.key = false) ∧
      w.serving? stored.owner key = some stored.binding := by
  rw [found?_eq, List.findSome?_eq_some_iff]
  constructor
  · rintro ⟨before, d, after, hsplit, hserving, hbefore⟩
    obtain ⟨binding, hbinding, rfl⟩ := Option.map_eq_some_iff.mp hserving
    exact ⟨before, after, hsplit, fun d hd => serving?_eq_none_iff.mp (Option.map_eq_none_iff.mp (hbefore d hd)), hbinding⟩
  · rintro ⟨before, after, hsplit, hbefore, hserving⟩
    refine ⟨before, stored.owner, after, hsplit, by rw [hserving]; rfl, fun d hd => ?_⟩
    rw [serving?_eq_none_iff.mpr (hbefore d hd)]
    rfl

/-- A component contains a key exactly if something is found for it there. -/
theorem contains_eq [Hashed V] (w : World V E) (c : ComponentId) (key : Key) :
    w.contains c key = (w.found? key c).isSome := by
  obtain ⟨w', hrun, -⟩ := Resolution.search_run (Call.answer 0) .silent c key w
  simp only [contains, World.run, hrun]

/-- A search comes to nothing exactly if neither the component nor a living ancestor stores a binding that may
serve the key. Otherwise it comes to the first component, depth first and the last added parent first, that
stores one, and there to the binding under exactly the key or else under the required key. This is the last
binding in the range from the required to the optional key that may serve the request, and none outside of the
range may. The owner of a scope is looked for in the same order, and whether a key is contained is whether the
search comes to something. The order of types may be any; the order of keys agrees with the one that keys have
without it. -/
theorem search_in_preorder [Hashed V] [Ord TypeId] [Std.TransOrd TypeId] [Std.LawfulEqOrd TypeId]
    (h : w.Formed) (c : ComponentId) (key : Key) :
    (w.preorder c = c :: (w.livingParents c).flatMap w.preorder ∧ (∀ d, d ∈ w.preorder c ↔ w.Above c d) ∧
        ∀ (b : ComponentBuilder V E) (m : Module V E) (parent : ComponentId),
          ((b.parent parent).component m).parents = parent :: (b.component m).parents) ∧
      (∀ (answer : Call V → World V E → Run V E (Reply V)) (resolution : Resolution), ∃ found w',
        (Resolution.search resolution key c).run answer w = .ok (found, w') ∧ w'.components = w.components ∧
          (found = none ↔ ¬∃ d binding, w.Above c d ∧ binding ∈ w.bindings d ∧ key.serves binding.key = true) ∧
          (∀ stored, found = some stored ↔ ∃ before after, w.preorder c = before ++ stored.owner :: after ∧
            (∀ d ∈ before, ∀ binding ∈ w.bindings d, key.serves binding.key = false) ∧
            (w.binding? stored.owner key.identity = some stored.binding ∨
              w.binding? stored.owner key.identity = none ∧
                w.binding? stored.owner key.required.identity = some stored.binding)) ∧
          (w.contains c key = true ↔ ∃ stored, found = some stored)) ∧
      ((∀ a b order, Key.compare? a b = some order → compare a.identity b.identity = order) ∧
        ∀ d component, w.component? d = some component →
          component.ordered.Perm component.bindings ∧
            component.ordered.Pairwise (fun a b => compare a.key.identity b.key.identity = .lt) ∧
            (component.range key.required.identity key.optional.identity).filter (key.serves ·.key) =
              component.ordered.filter (key.serves ·.key) ∧
            component.lastServing? key = component.serving? key) ∧
      ∀ tag, w.scopeOwner? c tag = (w.preorder c).find? fun d => w.hasScope d tag := by
  refine ⟨⟨h.preorder_eq c, fun d => h.mem_preorder, fun b m parent => by simp [ComponentBuilder.component,
    ComponentBuilder.parent]⟩, fun answer resolution => ?_,
    ⟨fun _ _ _ => Key.compare_of_compare?, fun d component hcomponent => ?_⟩, scopeOwner?_eq_find? c⟩
  · obtain ⟨w', hrun, hcomponents⟩ := Resolution.search_run answer resolution c key w
    refine ⟨w.found? key c, w', hrun, hcomponents, ?_, fun stored => ?_, ?_⟩
    · rw [h.found?_eq_none]
      grind
    · rw [found?_eq_some, serving?_eq_orElse, Option.or_eq_some_iff]
    · rw [contains_eq, Option.isSome_iff_exists]
  · have hkeyed := h.keyed.component hcomponent
    exact ⟨List.mergeSort_perm _ _, hkeyed.ordered, Component.filter_range, hkeyed.lastServing?_eq key⟩

/-- A component with two parents that have a parent in common. The parent added first stores a type under the
optional key, the other parent under the required key, and the common ancestor under both. -/
def diamond : World Unit Unit :=
  let required : Binding Unit Unit := .nth 0 []
  let optional : Binding Unit Unit := required.withKey required.key.optional
  { World.initial () with
    components := [⟨[DefaultScope.app.tag], [], [required, optional], .default, true⟩,
      ⟨[DefaultScope.session.tag], [0], [optional], .default, true⟩,
      ⟨[DefaultScope.session.tag], [0], [required], .default, true⟩, ⟨[], [2, 1], [], .default, true⟩] }

/-- The diamond is well formed. -/
theorem formed_diamond : diamond.Formed :=
  (Pristine.of_components () (by decide) (by decide)).formed

/-- A request that accepts nothing is served by the required binding of the parent added last, before the
optional bindings of the other parent and of the common ancestor. Once this parent is dropped, the common
ancestor is reached by the other one only. -/
theorem search_in_preorder_diamond :
    let key := (Key.of (.nth 0)).optional
    diamond.preorder 3 = [3, 2, 0, 1, 0] ∧ (diamond.drop 2).preorder 3 = [3, 1, 0] ∧
      (∃ w', (Resolution.search .silent key 3).run (Call.answer 0) diamond = .ok (some ⟨2, .nth 0 []⟩, w')) ∧
      diamond.contains 3 key = true ∧ diamond.scopeOwner? 3 DefaultScope.session.tag = some 2 := by
  intro key
  let _ : Ord TypeId := ⟨compareOn TypeId.code⟩
  have : Std.TransOrd TypeId := inferInstanceAs (Std.TransCmp (compareOn TypeId.code))
  have : Std.LawfulEqOrd TypeId := ⟨fun {a b} h => by
    cases a
    cases b
    exact congrArg TypeId.mk (Std.LawfulEqOrd.eq_of_compare h)⟩
  obtain ⟨-, hsearch, -, hscope⟩ := search_in_preorder formed_diamond 3 key
  obtain ⟨found, w', hrun, -, -, hfound, hcontains⟩ := hsearch (Call.answer 0) .silent
  have hsome : found = some ⟨2, .nth 0 []⟩ :=
    (hfound _).mpr ⟨[3], [0, 1, 0], rfl, by simp [diamond, World.bindings, component?], .inr ⟨rfl, rfl⟩⟩
  exact ⟨rfl, rfl, ⟨w', hsome ▸ hrun⟩, hcontains.mpr ⟨_, hsome⟩, hscope _⟩

end World

end Injection
