import StagedAnalysis.Proofs.Json.Library
import StagedAnalysis.Report.Json
/-!
Reports survive being written as JSON and read again, in both layouts, with any library that keeps
to its documentation.
-/
namespace StagedAnalysis

/-- The text of a value alone, without spacing around it. -/
theorem Json.Spells.text {word : List Char} {value : Json} (spelled : Json.Spells word value) :
    Json.SpellsElement (String.ofList word).toList value := by
  have alone := Json.SpellsElement.spaced (List.forall_mem_nil _) spelled (List.forall_mem_nil _)
  rwa [List.nil_append, List.append_nil, ← String.toList_ofList (l := word)] at alone

/-! ### Documents -/

section Documents

variable {library : Json.Library} (documented : library.Documented)

include documented

theorem Stage.codec_write : (codec library).write = toJson :=
  funext fun stage => documented.variants_writes name all stage

theorem Severity.codec_write : (codec library).write = toJson :=
  funext fun severity => documented.variants_writes name all severity

theorem Diagnostic.codec_write : (codec library).write = toJson := by
  funext diagnostic
  rw [codec, documented.record_writes]
  rcases diagnostic with ⟨stage, severity, code, message, line, column, suggestion?⟩
  cases suggestion? <;>
    simp [fields, Json.Fields.always, Json.Fields.members, Stage.codec_write documented,
      Severity.codec_write documented, documented.string_writes, documented.uint32_writes,
      documented.option_writes, Json.ofOption, toJson]

theorem Report.codec_write : (codec library).write = toJson := by
  funext report
  rw [codec, documented.record_writes]
  have strings : library.string.write = Json.string := funext documented.string_writes
  simp [fields, Json.Fields.always, Json.Fields.members, Stage.codec_write documented,
    Diagnostic.codec_write documented, strings, documented.bool_writes, documented.uint64_writes,
    documented.option_writes, documented.list_writes, Json.strings, toJson]

theorem Stage.codec_keeps : (codec library).Keeps :=
  documented.variants_keeps ofName?_name

theorem Severity.codec_keeps : (codec library).Keeps :=
  documented.variants_keeps find?_name

theorem Diagnostic.codec_keeps : (codec library).Keeps := by
  have suggestion : (library.option library.string).Keeps :=
    documented.option_keeps documented.string_keeps fun text => by
      rw [documented.string_writes]
      exact Json.noConfusion
  have keep : (fields library).Keep :=
    .always (Stage.codec_keeps documented) <|
    .always (Severity.codec_keeps documented) <|
    .always documented.string_keeps <|
    .always documented.string_keeps <|
    .always documented.uint32_keeps <|
    .always documented.uint32_keeps <|
    .cons suggestion (fun value? absent => by
      rw [Option.isNone_iff_eq_none.mp absent]
      exact documented.option_missing library.string) .nil
  have distinct : (fields library).keys.Nodup := by
    simp [fields, Json.Fields.always, Json.Fields.keys]
  exact documented.record_keeps keep distinct fun _ => rfl

theorem Report.codec_keeps : (codec library).Keeps := by
  have stage : (library.option (Stage.codec library)).Keeps :=
    documented.option_keeps (Stage.codec_keeps documented) fun stage => by
      rw [Stage.codec_write documented]
      exact Json.noConfusion
  have keep : (fields library).Keep :=
    .always documented.bool_keeps <|
    .always stage <|
    .always (documented.list_keeps (Stage.codec_keeps documented)) <|
    .always documented.uint64_keeps <|
    .always (documented.list_keeps (Diagnostic.codec_keeps documented)) <|
    .always (documented.list_keeps documented.string_keeps) .nil
  have distinct : (fields library).keys.Nodup := by
    simp [fields, Json.Fields.always, Json.Fields.keys]
  exact documented.record_keeps keep distinct fun _ => rfl

end Documents

/-! ### What readers take -/

namespace Json

variable {depth : Nat}

theorem Fits.nat {value : Nat} (small : value < UInt64.size) : Fits depth (.nat value) := by
  have size : UInt64.size = 0x10000000000000000 := rfl
  exact .int (by omega) (by omega)

theorem Fits.map {α : Type} {write : α → Json} (fits : ∀ value, Fits depth (write value))
    (values : List α) : Fits (depth + 1) (.array (values.map write)) := by
  refine .array fun item member => ?_
  obtain ⟨value, -, rfl⟩ := List.mem_map.mp member
  exact fits value

theorem Fits.ofOption {α : Type} {write : α → Json} (fits : ∀ value, Fits depth (write value))
    (value? : Option α) : Fits depth (.ofOption write value?) := by
  cases value? with
  | none => exact .null
  | some value => exact fits value

end Json

theorem Stage.toJson_fits {depth : Nat} (stage : Stage) : Json.Fits depth stage.toJson :=
  .string stage.name

theorem Diagnostic.toJson_fits {depth : Nat} (diagnostic : Diagnostic) :
    Json.Fits (depth + 1) diagnostic.toJson := by
  have sizes : UInt32.size < UInt64.size := by decide
  have line := diagnostic.line.toNat_lt_size
  have column := diagnostic.column.toNat_lt_size
  refine .object (List.forall_mem_append.mpr ⟨?_, ?_⟩)
  · simp only [List.forall_mem_cons]
    exact ⟨diagnostic.stage.toJson_fits, .string _, .string _, .string _, .nat (by omega),
      .nat (by omega), List.forall_mem_nil _⟩
  · cases diagnostic.suggestion? with
    | none => exact List.forall_mem_nil _
    | some hint => exact List.forall_mem_singleton.mpr (.string hint)

theorem Report.toJson_fits {depth : Nat} (report : Report) :
    Json.Fits (depth + 3) report.toJson := by
  refine .object ?_
  simp only [List.forall_mem_cons]
  exact ⟨.bool _, .ofOption Stage.toJson_fits _, .map Stage.toJson_fits _,
    .nat report.tokenCount.toNat_lt_size, .map Diagnostic.toJson_fits _, .map Json.Fits.string _,
    List.forall_mem_nil _⟩

theorem Report.toJson_shown (report : Report) (layout : Json.Layout) :
    Json.Shows layout (report.toJson.write layout) report.toJson := by
  have fits : Json.Fits 127 report.toJson := report.toJson_fits
  exact fits.write_shown layout

/-! ### Texts -/

section Texts

variable {library : Json.Library} (documented : library.Documented) (report : Report)

include documented

theorem Report.pretty_eq : report.pretty library = report.toJson.pretty := by
  have shown := report.toJson_shown (.indented 0)
  rw [← Report.codec_write documented] at shown
  rw [pretty, documented.pretty shown, Report.codec_write documented]
  rfl

theorem Report.compact_eq : report.compact library = report.toJson.compact := by
  have shown := report.toJson_shown .compact
  rw [← Report.codec_write documented] at shown
  rw [compact, documented.compact shown, Report.codec_write documented]
  rfl

/-- A report is read back from every text of its document. -/
theorem Report.read_back {layout : Json.Layout} {word : List Char}
    (shown : Json.Shows layout word report.toJson) :
    Json.SpellsElement (String.ofList word).toList report.toJson ∧
    library.parse? (String.ofList word) = some (library.value report.toJson) ∧
    library.decode? (codec library) (String.ofList word) = some report := by
  have fits : Json.Fits 127 report.toJson := report.toJson_fits
  have spelled := shown.spelled.text
  refine ⟨spelled, documented.parse spelled fits, ?_⟩
  rw [documented.decode _ spelled fits, ← Report.codec_write documented]
  exact Report.codec_keeps documented report

end Texts

/-- Both texts of a report are JSON texts of one value, and from either of them the report is read
back as it was. The text on one line has no character below the space. -/
theorem Report.json_roundTrip (library : Json.Library) (documented : library.Documented)
    (report : Report) :
    (∀ text ∈ [report.pretty library, report.compact library],
      Json.SpellsElement text.toList report.toJson ∧
      library.parse? text = some (library.value report.toJson) ∧
      library.decode? (Report.codec library) text = some report) ∧
    ∀ character ∈ (report.compact library).toList, 0x20 ≤ character.toNat := by
  have prettyShown := report.toJson_shown (.indented 0)
  have compactShown := report.toJson_shown .compact
  rw [report.pretty_eq documented, report.compact_eq documented]
  refine ⟨?_, ?_⟩
  · simp only [List.forall_mem_cons]
    exact ⟨report.read_back documented prettyShown, report.read_back documented compactShown,
      List.forall_mem_nil _⟩
  · rw [Json.compact, String.toList_ofList]
    exact compactShown.printable rfl

/-- A report without a stage, about a fault with a suggestion and a warning without one, and with
characters that need escapes of either kind. -/
def Report.sample : Report where
  success := false
  stage? := none
  passed := [.lexical]
  tokenCount := 5
  diagnostics :=
    [⟨.syntactic, .error, "S002", "got '\"'", 1, 9, some "\\ or \x01"⟩,
      ⟨.lexical, .warning, "L003", "open to the end", 0, 0, none⟩]
  summary := ["first line\nsecond line", ""]

theorem Report.json_roundTrip_sample :
    Json.Library.builtIn.Documented ∧
    (∀ text ∈ [sample.pretty .builtIn, sample.compact .builtIn],
      Json.SpellsElement text.toList sample.toJson ∧
      Json.parse? text = some sample.toJson.pruned ∧
      (Json.document? text).bind ofJson? = some sample) ∧
    ∀ character ∈ (sample.compact .builtIn).toList, 0x20 ≤ character.toNat :=
  ⟨Json.Library.builtIn_documented,
    Report.json_roundTrip .builtIn Json.Library.builtIn_documented sample⟩

end StagedAnalysis
