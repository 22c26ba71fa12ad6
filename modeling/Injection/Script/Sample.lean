import Injection.Script.Step

/-!
# Small wirings

Two families of ready-made wirings: a provider with any number of positional parameters, and a few
modules given as short lists of registrations.
-/

namespace Injection.Script.Sample

/-- The types that the small wirings are about. -/
structure Types where
  byte : TypeInfo
  word : TypeInfo
  text : TypeInfo
  words : TypeInfo

/-- Bytes. -/
def byteFormat : WordFormat := ⟨1, false⟩

/-- Words of four bytes. -/
def wordFormat : WordFormat := ⟨4, false⟩

/-- The number that a value is. -/
def number : Value → Nat
  | .word _ n => n.toNat
  | _ => 0

/-- A byte as a value. -/
def byte (n : Nat) : Value := .word byteFormat (byteFormat.wrap n)

/-- A word as a value. -/
def word (n : Nat) : Value := .word wordFormat (wordFormat.wrap n)

/-- Answers a query at a component. -/
def ask (w : World Value Journal) (c : ComponentId) (q : Query Value) :
    Except Problem (Reply Value × World Value Journal) :=
  (w.run depthLimit (q.task c)).mapError .halted

/-- A binding of a list of words, whose provider takes its members as positional parameters. -/
def listBinding (types : Types) (count : Nat) (kind : Kind) : Binding Value Journal :=
  .ofProvider types.words kind
    (Dependency.all ((List.range count).map (Dependency.param types.word)))
    fun members => pure (.ok (.words (members.map fun v => UInt32.ofNat (number v))))

/-- A component with one provider of `count` parameters, asked twice: the first error, or the
answer and whether both answers are the same object. -/
def arity (types : Types) (count : Nat) (kind : Kind) (ps : Parameters Value) :
    Except Problem (Except ResolveError (Value × Bool)) := do
  let q := Query.get types.words ps
  let (_, m) := Module.bind (listBinding types count kind) .empty
  let (c, w) := (World.initial .empty).addComponent (ComponentBuilder.empty.component m)
  let (first, w) ← ask w c q
  let (second, _) ← ask w c q
  match first, second with
  | .ok (some a), .ok (some b) => return .ok (a.value, a.number = b.number)
  | .error e, _ => return .error e
  | _, .error e => return .error e
  | _, _ => return .error (.unresolved q.key)

/-- The modules given as lists of registrations. -/
inductive Form where
  | empty
  | mixed
  | override
  | duplicate

/-- A registration without options. -/
def plain (binding : Binding Value Journal) : Module.Declaration Value Journal :=
  ⟨binding, none⟩

/-- A registration under a name. -/
def tagged (tag : String) (binding : Binding Value Journal) :
    Module.Declaration Value Journal :=
  (BindingConfig.default.named (.name tag)).declaration binding

/-- The registrations of a form. -/
def Form.declarations (form : Form) (types : Types) (n : Nat) (tag : String) :
    List (Module.Declaration Value Journal) :=
  match form with
  | empty => []
  | mixed =>
    [ plain (.ofValue types.byte .single (byte n)),
      plain (.ofProvider types.word .factory (.inject types.byte) fun object =>
        pure (.ok (word (number object.value + 1)))),
      tagged tag (.ofProvider types.text .multi (.param types.word 0) fun value =>
        pure (.ok (.text (toString (number value))))) ]
  | override =>
    [ plain (.ofValue types.byte .single (byte n)),
      ((BindingConfig.default.named (.name tag)).overriding).declaration
        (.ofValue types.byte .factory (byte (n / 2))),
      BindingConfig.default.overriding.declaration
        (.ofValue types.byte .factory (byte (n / 2))) ]
  | duplicate =>
    [ tagged tag (.ofValue types.byte .single (byte n)),
      tagged tag (.ofValue types.byte .multi (byte n)) ]

/-- The value of an answer. -/
def plainValue : Reply Value → Except ResolveError (Option Value)
  | .error e => .error e
  | .ok found => .ok (found.map Object.value)

/-- The module of a form in brief, and what a component of the module answers for a byte, for a
word, and for a text under the name with parameters. -/
def formAnswer (form : Form) (types : Types) (n : Nat) (tag : String) (ps : Parameters Value) :
    Except Problem
      (Except BindError (Answer × List (Except ResolveError (Option Value)))) := do
  match (Module.build (form.declarations types n tag) Journal.empty).1 with
  | .error e => return .error e
  | .ok m =>
    let (c, w) := (World.initial .empty).addComponent (ComponentBuilder.empty.component m)
    let (first, w) ← ask w c (.get types.byte [])
    let (second, w) ← ask w c (.get types.word [])
    let (third, _) ← ask w c (.getNamed types.text (.name tag) ps)
    return .ok (moduleAnswer m, [first, second, third].map plainValue)

end Injection.Script.Sample
