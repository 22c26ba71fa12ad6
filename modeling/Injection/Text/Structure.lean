import Injection.Binding
import Injection.Text.Quoted

/-!
# Values by their structure

The text of a value that names its constructor and fields, for reading by people. Identities of
types and definitions are not shown.
-/

namespace Injection

open Text (quoted)

variable {V E : Type}

/-- A record by its name and fields, the last of them an ellipsis if some are not shown. -/
def Text.record (name : String) (fields : List String) : String :=
  name ++ " \x7b " ++ ", ".intercalate fields ++ " \x7d"

/-- A truth value in words. -/
def Text.truth (b : Bool) : String := if b then "true" else "false"

/-- A type by its name. -/
def TypeInfo.structureText (t : TypeInfo) : String :=
  Text.record "TypeInfo" ["name: " ++ quoted t.name, "id: TypeId(..)"]

/-- A qualifier by its sort and what it holds. -/
def Qualifier.structureText : Qualifier → String
  | name text => "Name(" ++ quoted text ++ ")"
  | type info => "Type(" ++ info.structureText ++ ")"

/-- A key by its three parts. -/
def Key.structureText (k : Key) : String :=
  Text.record "Key"
    [ "type_info: " ++ k.type.structureText,
      "qualifier: " ++ (match k.qualifier with
        | some q => "Some(" ++ q.structureText ++ ")"
        | none => "None"),
      "is_nullable: " ++ Text.truth k.nullable ]

/-- A kind by its name. -/
def Kind.structureText : Kind → String
  | factory => "Factory"
  | single => "Single"
  | multi => "Multi"

/-- A binding by all but its definition. -/
def Binding.structureText (b : Binding V E) : String :=
  Text.record "Binding"
    [ "key: " ++ b.key.structureText,
      "kind: " ++ b.kind.structureText,
      "is_override: " ++ Text.truth b.isOverride,
      ".." ]

/-- A behavior by its length. -/
def Behavior.structureText (behavior : Behavior V E) : String :=
  Text.record "InterceptingBehavior" ["len: " ++ toString behavior.length]

/-- Parameters by the names of their types. -/
def Parameters.structureText (ps : Parameters V) : String :=
  "[" ++ ", ".intercalate (ps.map fun p => quoted p.type.name) ++ "]"

end Injection
