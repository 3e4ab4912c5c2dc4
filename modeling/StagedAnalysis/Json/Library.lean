import StagedAnalysis.Json.Reader
import StagedAnalysis.Json.Writer
/-!
What a JSON library offers to a program that declares its records: two writers, two readers, and the
rules that turn truth values, texts, numbers, options, lists, named cases and records into documents
and back. A program only puts these together; the library is a parameter of all that it writes and
reads (`Json.Library`).

The library that stands in for it when the program runs is `Json.Library.builtIn`.
-/
namespace StagedAnalysis.Json

structure Codec (α : Type) where
  write : α → Json
  read? : Json → Option α
  /-- What a field of this type is read as where the record has none. -/
  missing? : Option α

/-- The value of a field, from its document if the record has one. -/
def Codec.field? {α : Type} (codec : Codec α) : Option Json → Option α
  | some json => codec.read? json
  | none => codec.missing?

inductive Fields (ρ : Type) : Type → Type 1 where
  | nil : Fields ρ Unit
  | cons {α β : Type} (key : String) (codec : Codec α) (get : ρ → α) (skips : α → Bool)
      (others : Fields ρ β) : Fields ρ (α × β)

namespace Fields

variable {ρ α β : Type}

/-- A field that is never left out, in front of others. -/
def always (key : String) (codec : Codec α) (get : ρ → α) (others : Fields ρ β) : Fields ρ (α × β) :=
  cons key codec get (fun _ => false) others

def keys {β : Type} : Fields ρ β → List String
  | nil => []
  | cons key _ _ _ others => key :: others.keys

def values {β : Type} : Fields ρ β → ρ → β
  | nil, _ => ()
  | cons _ _ get _ others, record => (get record, others.values record)

/-- The members of the written record; a field that is to be skipped is left out. -/
def members {β : Type} : Fields ρ β → ρ → List (String × Json)
  | nil, _ => []
  | cons key codec get skips others, record =>
    if skips (get record) then others.members record
    else (key, codec.write (get record)) :: others.members record

/-- What the fields hold, where `find` gives the document of a key if there is one. -/
def read? {β : Type} : Fields ρ β → (String → Option Json) → Option β
  | nil, _ => some ()
  | cons key codec _ _ others, find => do
    let value ← codec.field? (find key)
    let rest ← others.read? find
    some (value, rest)

end Fields

structure Library where
  /-- The values that a text is parsed to where no type is asked for. -/
  Value : Type
  value : Json → Value
  compact? : {α : Type} → Codec α → α → Option String
  pretty? : {α : Type} → Codec α → α → Option String
  parse? : String → Option Value
  decode? : {α : Type} → Codec α → String → Option α
  bool : Codec Bool
  string : Codec String
  uint32 : Codec UInt32
  uint64 : Codec UInt64
  option : {α : Type} → Codec α → Codec (Option α)
  list : {α : Type} → Codec α → Codec (List α)
  /-- The cases of an enumeration, by their names. -/
  variants : {α : Type} → (α → String) → List α → Codec α
  /-- A record of these fields, and how it is built from what they hold. -/
  record : {ρ β : Type} → Fields ρ β → (β → ρ) → Codec ρ

namespace Library

/-! ### The built-in library -/

section BuiltIn

variable {α ρ β : Type}

def readOption? (codec : Codec α) : Json → Option (Option α)
  | .null => some none
  | json => (codec.read? json).map some

/-- A case is read from its name, or from an object with the name as its only key and `null`. -/
def readName? : Json → Option String
  | .string name => some name
  | .object [(name, .null)] => some name
  | _ => none

/-- Fields may come in any order, each at most once, among unknown ones; a record may also be the
list of all its fields in order. -/
def readRecord? (fields : Fields ρ β) (build : β → ρ) : Json → Option ρ
  | .object members =>
    if ((members.map Prod.fst).filter (· ∈ fields.keys)).Nodup then
      (fields.read? (object members).get?).map build
    else none
  | .array items =>
    if items.length = fields.keys.length then
      (fields.read? ((fields.keys.zip items).lookup ·)).map build
    else none
  | _ => none

def builtIn : Library where
  Value := Json
  value := pruned
  compact? codec value := some (codec.write value).compact
  pretty? codec value := some (codec.write value).pretty
  parse? := Json.parse?
  decode? codec text := (document? text).bind codec.read?
  bool := ⟨.bool, asBool?, none⟩
  string := ⟨.string, asString?, none⟩
  uint32 := ⟨fun value => .nat value.toNat, fun json =>
    (json.asNatBelow? UInt32.size).map UInt32.ofNat, none⟩
  uint64 := ⟨fun value => .nat value.toNat, fun json =>
    (json.asNatBelow? UInt64.size).map UInt64.ofNat, none⟩
  option codec := ⟨ofOption codec.write, readOption? codec, some none⟩
  list codec :=
    ⟨fun values => .array (values.map codec.write), fun json =>
      json.asArray?.bind (·.mapM codec.read?), none⟩
  variants name all :=
    ⟨fun value => .string (name value), fun json =>
      (readName? json).bind fun text => all.find? (name · == text), none⟩
  record fields build := ⟨fun record => .object (fields.members record), readRecord? fields build, none⟩

end BuiltIn

end Library

end StagedAnalysis.Json
