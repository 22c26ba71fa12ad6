import Injection.Script.Value

/-!
# Showing objects

Objects are shown by small numbers, given in the order in which they are first shown, a node before
what it was made from. A node is shown with its tag and parts only the first time.
-/

namespace Injection.Script

/-- A value as it is shown. -/
inductive Exhibit where
  /-- A plain object. -/
  | scalar (label : Nat) (type : TypeId) (value : Value)
  /-- A node that is shown for the first time. -/
  | newNode (label : Nat) (type : TypeId) (tag : String) (parts : List Exhibit)
  /-- A node that was shown before. -/
  | knownNode (label : Nat) (type : TypeId)
  /-- A fact that no object takes part in. -/
  | fact (item : Item)

/-- The numbers of the objects shown so far, in the order of their labels. -/
abbrev Labels := List Nat

/-- The label of an object, given now if it has none; and whether it is new. -/
def Labels.label (labels : Labels) (number : Nat) : Nat × Bool × Labels :=
  match labels.findIdx? (· = number) with
  | some label => (label, false, labels)
  | none => (labels.length, true, labels ++ [number])

mutual

/-- Shows an object. -/
def Value.exhibit (number : Nat) (type : TypeId) (labels : Labels) : Value → Exhibit × Labels
  | .node tag parts =>
    match labels.label number with
    | (label, true, labels) =>
      let (shown, labels) := exhibitItems labels parts
      (.newNode label type tag shown, labels)
    | (label, false, labels) => (.knownNode label type, labels)
  | value =>
    let (label, _, labels) := labels.label number
    (.scalar label type value, labels)

/-- Shows what a node was made from. -/
def Item.exhibit (labels : Labels) : Item → Exhibit × Labels
  | .object ⟨number, type, value⟩ => value.exhibit number type labels
  | item => (.fact item, labels)

/-- Shows items in order. -/
def exhibitItems (labels : Labels) : List Item → List Exhibit × Labels
  | [] => ([], labels)
  | item :: rest =>
    let (first, labels) := item.exhibit labels
    let (others, labels) := exhibitItems labels rest
    (first :: others, labels)

end

/-- Shows an object, or nothing. -/
def exhibit? (labels : Labels) : Option (Object Value) → Option Exhibit × Labels
  | none => (none, labels)
  | some object =>
    let (shown, labels) := object.value.exhibit object.number object.type labels
    (some shown, labels)

end Injection.Script
