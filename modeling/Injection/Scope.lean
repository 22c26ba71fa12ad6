/-!
# Scope tags

A scope tag marks the components that may own the instances of a scoped type. Six tags are
predefined, from the widest scope to the narrowest.
-/

namespace Injection

/-- Marks which components a scoped binding may live in. -/
structure ScopeTag where
  name : String
deriving DecidableEq

/-- The predefined scopes, widest first. -/
inductive DefaultScope where
  | runtime
  | app
  | session
  | request
  | action
  | step
deriving DecidableEq

namespace DefaultScope

/-- All predefined scopes in order. -/
def all : List DefaultScope := [runtime, app, session, request, action, step]

/-- The name of a predefined scope. -/
def name : DefaultScope → String
  | runtime => "runtime"
  | app => "app"
  | session => "session"
  | request => "request"
  | action => "action"
  | step => "step"

/-- The tag of a predefined scope. -/
def tag (scope : DefaultScope) : ScopeTag := ⟨scope.name⟩

/-- Position among the predefined scopes. -/
def rank : DefaultScope → Nat
  | runtime => 0
  | app => 1
  | session => 2
  | request => 3
  | action => 4
  | step => 5

end DefaultScope

/-- Adds a tag to a list of tags ordered by name, keeping it ordered and without repetitions. -/
def ScopeTag.insert (tag : ScopeTag) : List ScopeTag → List ScopeTag
  | [] => [tag]
  | other :: rest =>
    match compare tag.name other.name with
    | .lt => tag :: other :: rest
    | .eq => other :: rest
    | .gt => other :: insert tag rest

end Injection
