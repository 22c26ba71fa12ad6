import Injection.Error

/-!
# Trace events

What a resolution reports while it runs. Reports never influence a result; they are recorded for
the logger that the resolution was entered under, or dropped if there is none.
-/

namespace Injection

/-- One report of a resolution. -/
inductive Event where
  /-- A lookup of a key begins. -/
  | lookup (key : Key)
  /-- The injection of a dependency of a type begins. -/
  | injection (type : TypeInfo)
  | foundInBindings
  | parentDropped
  | nullFallback
  | synthesized
  | memoized
  | alreadyMemoized
  | multiInstance
  | foundInCache
  | notFoundInCache
  | waiting
  | cached
  | instantiated
  | singletonSynthesized
  | factorySynthesized
  | scopedSynthesized
  | scopedSynthesizedInAncestor
  /-- An error passes a level that reports errors. -/
  | failure (error : ResolveError)
deriving DecidableEq

/-- The text of a report: a span by its name and subject, an event by its level and message. -/
def Event.text : Event → String
  | lookup key => s!"get {key.text}"
  | injection type => s!"resolve {type.name}"
  | foundInBindings => "DEBUG Found in bindings"
  | parentDropped => "WARN Parent component dropped, skipped"
  | nullFallback => "DEBUG Null fallback"
  | synthesized => "DEBUG Synthesized"
  | memoized => "DEBUG Memoized"
  | alreadyMemoized => "DEBUG Already memoized, synthesized binding dropped"
  | multiInstance => "DEBUG Multi instance"
  | foundInCache => "DEBUG Found in cache"
  | notFoundInCache => "DEBUG Not found in cache"
  | waiting => "DEBUG Waiting for concurrent creation"
  | cached => "DEBUG Cached"
  | instantiated => "DEBUG Instantiated"
  | singletonSynthesized => "DEBUG Singleton object synthesized"
  | factorySynthesized => "DEBUG Factory synthesized"
  | scopedSynthesized => "DEBUG Scoped single synthesized"
  | scopedSynthesizedInAncestor => "DEBUG Scoped single synthesized in ancestor"
  | failure error => s!"ERROR {error.message}"

end Injection
