import Injection.Catalog

/-!
# Fallback factories

When no binding is found for a required key, a component asks its factories to synthesize one. A
factory answers by a program of its own, which may consult catalogs and change the surroundings. A
catalog is itself a factory.
-/

namespace Injection

variable {V E : Type}

/-- The answer of a factory: a binding, none if it does not know the key, or an error. -/
abbrev SynthesisReply (V E : Type) := Except ResolveError (Option (Binding V E))

/-- How a factory arrives at its answer. -/
inductive Synthesis (V E : Type) : Type where
  /-- Answers. -/
  | answer (reply : SynthesisReply V E)
  /-- Asks a catalog for a binding of a key in a component. -/
  | consult (catalog : Catalog V E) (key : Key) (component : ComponentId)
      (next : SynthesisReply V E → Synthesis V E)
  /-- Changes the surroundings and goes on with what they were before. -/
  | touch (change : E → E) (next : E → Synthesis V E)

/-- Synthesizes bindings for the keys that a component has no binding for. -/
abbrev Factory (V E : Type) := Key → ComponentId → Synthesis V E

/-- A catalog as a factory. -/
def Catalog.factory (catalog : Catalog V E) : Factory V E := fun key component =>
  .consult catalog key component .answer

/-- Goes on with the answer of a factory. -/
def Synthesis.andThen : Synthesis V E → (SynthesisReply V E → Synthesis V E) → Synthesis V E
  | answer reply, f => f reply
  | consult catalog key component next, f =>
    consult catalog key component fun reply => (next reply).andThen f
  | touch change next, f => touch change fun before => (next before).andThen f

end Injection
