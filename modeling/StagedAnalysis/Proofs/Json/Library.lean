import StagedAnalysis.Json.Library
import StagedAnalysis.Proofs.Json.Reading
import StagedAnalysis.Proofs.Json.Writing
/-!
What is relied on in a JSON library (`Json.Library.Documented`), and what follows for records that
are put together with it: if every field is read back as it is written, so is the record. The
built-in library is one of these.
-/
namespace StagedAnalysis.Json

variable {α ρ β : Type}

theorem lookup_eq_none {members : List (String × Json)} {key : String}
    (foreign : key ∉ members.map Prod.fst) : members.lookup key = none := by
  rw [List.lookup_eq_none_iff]
  intro member isMember
  exact bne_iff_ne.mpr fun same => foreign (List.mem_map.mpr ⟨member, isMember, same.symm⟩)

/-! ### Codecs and fields -/

/-- What is written is read back. -/
def Codec.Keeps (codec : Codec α) : Prop :=
  ∀ value, codec.read? (codec.write value) = some value

namespace Fields

/-- Each field is read back from what is written of it, or from there being nothing if it is left
out. -/
inductive Keep {ρ : Type} : {β : Type} → Fields ρ β → Prop
  | nil : Keep .nil
  | cons {α β : Type} {key : String} {codec : Codec α} {get : ρ → α} {skips : α → Bool}
      {others : Fields ρ β} (keeps : codec.Keeps)
      (restored : ∀ value, skips value = true → codec.missing? = some value)
      (othersKeep : others.Keep) : Keep (.cons key codec get skips others)

theorem Keep.always {key : String} {codec : Codec α} {get : ρ → α} {others : Fields ρ β}
    (keeps : codec.Keeps) (othersKeep : others.Keep) : (always key codec get others).Keep :=
  .cons keeps (fun _ skipped => nomatch skipped) othersKeep

theorem members_sublist (fields : Fields ρ β) (record : ρ) :
    ((fields.members record).map Prod.fst).Sublist fields.keys := by
  induction fields with
  | nil => exact .slnil
  | cons key codec get skips others inductionHypothesis =>
      rw [members, keys]
      split
      · exact inductionHypothesis.cons key
      · exact inductionHypothesis.cons_cons key

theorem read?_congr (fields : Fields ρ β) {find other : String → Option Json}
    (same : ∀ key ∈ fields.keys, find key = other key) : fields.read? find = fields.read? other := by
  induction fields with
  | nil => rfl
  | cons key codec get skips others inductionHypothesis =>
      obtain ⟨first, rest⟩ := List.forall_mem_cons.mp same
      rw [read?, read?, first, inductionHypothesis rest]

theorem lookup_members_eq_none (fields : Fields ρ β) (record : ρ) {key : String}
    (foreign : key ∉ fields.keys) : (fields.members record).lookup key = none :=
  lookup_eq_none fun known => foreign ((fields.members_sublist record).subset known)

/-- A member that none of the fields asks for makes no difference. -/
theorem read?_lookup_cons (fields : Fields ρ β) {key : String} (foreign : key ∉ fields.keys)
    (json : Json) (members : List (String × Json)) :
    fields.read? (((key, json) :: members).lookup ·) = fields.read? (members.lookup ·) := by
  refine fields.read?_congr fun other isOther => ?_
  have differs : other ≠ key := fun same => foreign (same ▸ isOther)
  rw [List.lookup_cons, beq_eq_false_iff_ne.mpr differs]

/-- A written record is read back field by field. -/
theorem Keep.read?_members {fields : Fields ρ β} (keep : fields.Keep) (distinct : fields.keys.Nodup)
    (record : ρ) :
    fields.read? ((fields.members record).lookup ·) = some (fields.values record) := by
  induction keep with
  | nil => rfl
  | @cons α β key codec get skips others keeps restored othersKeep inductionHypothesis =>
      obtain ⟨foreign, othersDistinct⟩ := List.nodup_cons.mp distinct
      have rest := inductionHypothesis othersDistinct
      rw [members]
      split
      case isTrue skipped =>
        rw [read?, others.lookup_members_eq_none record foreign, Codec.field?, restored _ skipped, rest]
        rfl
      case isFalse kept =>
        rw [read?, List.lookup_cons_self, Codec.field?, keeps, others.read?_lookup_cons foreign, rest]
        rfl

end Fields

/-! ### Libraries -/

/-- What is relied on in a library, as it is documented: it writes the two layouts of the format,
reads every text within its limits, and has a document for each kind of value. In reading a record
every key counts once, and unknown keys do not count. -/
structure Library.Documented (library : Library) : Prop where
  compact {α : Type} {codec : Codec α} {value : α} {word : List Char}
    (shown : Shows .compact word (codec.write value)) :
    library.compact? codec value = some (String.ofList word)
  pretty {α : Type} {codec : Codec α} {value : α} {word : List Char}
    (shown : Shows (.indented 0) word (codec.write value)) :
    library.pretty? codec value = some (String.ofList word)
  parse {text : String} {json : Json} (spelled : SpellsElement text.toList json)
    (fits : Fits 127 json) : library.parse? text = some (library.value json)
  decode {α : Type} (codec : Codec α) {text : String} {json : Json}
    (spelled : SpellsElement text.toList json) (fits : Fits 127 json) :
    library.decode? codec text = codec.read? json
  bool_writes (value : Bool) : library.bool.write value = .bool value
  bool_reads (value : Bool) : library.bool.read? (.bool value) = some value
  string_writes (text : String) : library.string.write text = .string text
  string_reads (text : String) : library.string.read? (.string text) = some text
  uint32_writes (value : UInt32) : library.uint32.write value = .nat value.toNat
  uint32_reads {number : Nat} (small : number < UInt32.size) :
    library.uint32.read? (.nat number) = some (UInt32.ofNat number)
  uint64_writes (value : UInt64) : library.uint64.write value = .nat value.toNat
  uint64_reads {number : Nat} (small : number < UInt64.size) :
    library.uint64.read? (.nat number) = some (UInt64.ofNat number)
  option_writes {α : Type} (codec : Codec α) (value? : Option α) :
    (library.option codec).write value? = .ofOption codec.write value?
  option_reads_null {α : Type} (codec : Codec α) :
    (library.option codec).read? .null = some none
  option_reads {α : Type} (codec : Codec α) {json : Json} (notNull : json ≠ .null) :
    (library.option codec).read? json = (codec.read? json).map some
  option_missing {α : Type} (codec : Codec α) : (library.option codec).missing? = some none
  list_writes {α : Type} (codec : Codec α) (values : List α) :
    (library.list codec).write values = .array (values.map codec.write)
  list_reads {α : Type} (codec : Codec α) (items : List Json) :
    (library.list codec).read? (.array items) = items.mapM codec.read?
  variants_writes {α : Type} (name : α → String) (all : List α) (value : α) :
    (library.variants name all).write value = .string (name value)
  variants_reads {α : Type} (name : α → String) (all : List α) (text : String) :
    (library.variants name all).read? (.string text) = all.find? (name · == text)
  record_writes {ρ β : Type} (fields : Fields ρ β) (build : β → ρ) (record : ρ) :
    (library.record fields build).write record = .object (fields.members record)
  record_reads {ρ β : Type} (fields : Fields ρ β) (build : β → ρ) {members : List (String × Json)}
    (distinct : (members.map Prod.fst).Nodup) :
    (library.record fields build).read? (.object members) =
      (fields.read? (members.lookup ·)).map build

namespace Library.Documented

variable {library : Library} (documented : library.Documented)

include documented

theorem bool_keeps : library.bool.Keeps := by
  intro value
  rw [documented.bool_writes, documented.bool_reads]

theorem string_keeps : library.string.Keeps := by
  intro text
  rw [documented.string_writes, documented.string_reads]

theorem uint32_keeps : library.uint32.Keeps := by
  intro value
  rw [documented.uint32_writes, documented.uint32_reads value.toNat_lt_size, UInt32.ofNat_toNat]

theorem uint64_keeps : library.uint64.Keeps := by
  intro value
  rw [documented.uint64_writes, documented.uint64_reads value.toNat_lt_size, UInt64.ofNat_toNat]

/-- An option is read back if no value of its own is written as `null`. -/
theorem option_keeps {codec : Codec α} (keeps : codec.Keeps)
    (notNull : ∀ value, codec.write value ≠ .null) : (library.option codec).Keeps := by
  intro value?
  rw [documented.option_writes]
  cases value? with
  | none => exact documented.option_reads_null codec
  | some value =>
      exact (documented.option_reads codec (notNull value)).trans
        (congrArg (Option.map some) (keeps value))

theorem list_keeps {codec : Codec α} (keeps : codec.Keeps) : (library.list codec).Keeps := by
  intro values
  rw [documented.list_writes, documented.list_reads]
  induction values with
  | nil => rfl
  | cons value values inductionHypothesis =>
      rw [List.map_cons, List.mapM_cons, keeps, inductionHypothesis]
      rfl

theorem variants_keeps {name : α → String} {all : List α}
    (found : ∀ value, all.find? (name · == name value) = some value) :
    (library.variants name all).Keeps := by
  intro value
  rw [documented.variants_writes, documented.variants_reads, found]

theorem record_keeps {fields : Fields ρ β} {build : β → ρ} (keep : fields.Keep)
    (distinct : fields.keys.Nodup) (rebuilt : ∀ record, build (fields.values record) = record) :
    (library.record fields build).Keeps := by
  intro record
  have distinctMembers := distinct.sublist (fields.members_sublist record)
  rw [documented.record_writes, documented.record_reads fields build distinctMembers,
    keep.read?_members distinct, Option.map_some, rebuilt]

end Library.Documented

/-! ### The built-in library -/

theorem asNatBelow?_nat {bound value : Nat} (small : value < bound) :
    (nat value).asNatBelow? bound = some value := by
  simp [nat, asNatBelow?, small]

theorem Library.builtIn_documented : builtIn.Documented where
  compact shown := congrArg (some ∘ String.ofList) shown.write_eq
  pretty shown := congrArg (some ∘ String.ofList) shown.write_eq
  parse spelled _ := congrArg (Option.map pruned) (document?_of_spells spelled)
  decode codec _ _ spelled _ := congrArg (·.bind codec.read?) (document?_of_spells spelled)
  bool_writes _ := rfl
  bool_reads _ := rfl
  string_writes _ := rfl
  string_reads _ := rfl
  uint32_writes _ := rfl
  uint32_reads small := congrArg (Option.map UInt32.ofNat) (asNatBelow?_nat small)
  uint64_writes _ := rfl
  uint64_reads small := congrArg (Option.map UInt64.ofNat) (asNatBelow?_nat small)
  option_writes _ _ := rfl
  option_reads_null _ := rfl
  option_reads codec json notNull := by
    cases json with
    | null => exact absurd rfl notNull
    | bool _ | int _ | real _ | string _ | array _ | object _ => rfl
  option_missing _ := rfl
  list_writes _ _ := rfl
  list_reads _ _ := rfl
  variants_writes _ _ _ := rfl
  variants_reads _ _ _ := rfl
  record_writes _ _ _ := rfl
  record_reads _ _ _ distinct := if_pos (distinct.sublist List.filter_sublist)

end StagedAnalysis.Json
