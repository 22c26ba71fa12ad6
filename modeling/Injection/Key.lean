import Injection.TypeInfo

/-!
# Keys

A key names what is asked for: a type, an optional qualifier that tells apart several bindings of
one type, and whether the absence of a value is acceptable. Everything that is looked up goes by
the key's identity, in which names of types play no part; its site is the identity with
nullability left out.
-/

namespace Injection

/-- Tells apart several bindings of one type, by a name or by a marker type. -/
inductive Qualifier where
  | name (text : String)
  | type (info : TypeInfo)
deriving DecidableEq

/-- A qualifier without the display name of its marker type. -/
inductive Qualifier.Identity where
  | name (text : String)
  | type (id : TypeId)
deriving DecidableEq

namespace Qualifier

/-- The identity of a qualifier; a name is never the same as a type. -/
def identity : Qualifier → Identity
  | name text => .name text
  | type info => .type info.id

/-- A qualifier is displayed by its name or by its type's short name. -/
def text : Qualifier → String
  | name text => text
  | type info => info.shortName

end Qualifier

/-- Where bindings live, nullability aside: a type and an optional qualifier. -/
structure Site where
  type : TypeId
  qualifier : Option Qualifier.Identity
deriving DecidableEq

/-- What makes two keys equal: the same site and the same nullability. -/
structure KeyId where
  site : Site
  nullable : Bool
deriving DecidableEq

/-- Identity of a requested dependency, with the names it is displayed under. -/
structure Key where
  type : TypeInfo
  qualifier : Option Qualifier
  nullable : Bool
deriving DecidableEq

namespace Key

/-- The required, unqualified key of a type. -/
def of (type : TypeInfo) : Key := ⟨type, none, false⟩

/-- The required key of a type under a qualifier. -/
def named (type : TypeInfo) (qualifier : Qualifier) : Key := ⟨type, some qualifier, false⟩

/-- The same key, content with the absence of a value. -/
def optional (k : Key) : Key := { k with nullable := true }

/-- The same key, insisting on a value. -/
def required (k : Key) : Key := { k with nullable := false }

/-- The same key under another qualifier. -/
def withQualifier (k : Key) (qualifier : Option Qualifier) : Key := { k with qualifier }

/-- The site a key points at. -/
def site (k : Key) : Site := ⟨k.type.id, k.qualifier.map Qualifier.identity⟩

/-- The identity of a key. -/
def identity (k : Key) : KeyId := ⟨k.site, k.nullable⟩

/-- A binding registered under `candidate` may serve a request for `requested`: both point at one
site, and a binding that may yield nothing serves only requests that accept nothing. -/
def serves (requested candidate : Key) : Bool :=
  requested.site = candidate.site && (requested.nullable || !candidate.nullable)

/-- A key is displayed as its type's short name, `@` and the qualifier, and `?` if nullable. -/
def text (k : Key) : String :=
  k.type.shortName
    ++ (match k.qualifier with | some q => "@" ++ q.text | none => "")
    ++ (if k.nullable then "?" else "")

/-- A path of keys is displayed outermost first, joined by arrows. -/
def pathText (path : List Key) : String :=
  " -> ".intercalate (path.map text)

end Key

/-- No qualifier comes before names, names are ordered by their characters and come before types.
Two different types have no order of their own. -/
def Qualifier.Identity.compare? : Option Identity → Option Identity → Option Ordering
  | none, none => some .eq
  | none, some _ => some .lt
  | some _, none => some .gt
  | some (.name a), some (.name b) => some (compare a b)
  | some (.name _), some (.type _) => some .lt
  | some (.type _), some (.name _) => some .gt
  | some (.type a), some (.type b) => if a = b then some .eq else none

/-- Keys of one type are ordered by qualifier and then by nullability, the required key first. -/
def Key.compare? (a b : Key) : Option Ordering :=
  if a.type.id = b.type.id then
    (Qualifier.Identity.compare? a.site.qualifier b.site.qualifier).map
      fun order => order.then (compare a.nullable b.nullable)
  else
    none

end Injection
