import StagedAnalysis.Proofs.Layout.Checking
import StagedAnalysis.Proofs.Layout.Reading
import StagedAnalysis.Proofs.LineEnds.Tokens
import StagedAnalysis.Proofs.Sessions.Refusals
/-!
Sessions over texts with the other line ends.

If tokenizing finds an error, it finds the same kind of error at the same line and column in the
doubled text, and nothing else is run. Otherwise all tokens are the same ones moved, so parsing and
checking find the same faults, moved.
-/
namespace StagedAnalysis

structure Diagnostic.Mark where
  stage : Stage
  severity : Severity
  code : String
  line : UInt32
  column : UInt32
  suggestion? : Option String
  deriving DecidableEq

def Diagnostic.mark (found : Diagnostic) : Diagnostic.Mark :=
  ⟨found.stage, found.severity, found.code, found.line, found.column, found.suggestion?⟩

structure Report.Matches (first second : Report) : Prop where
  success : first.success = second.success
  stage? : first.stage? = second.stage?
  passed : first.passed = second.passed
  tokenCount : first.tokenCount = second.tokenCount
  diagnostics : first.diagnostics.map (·.mark) = second.diagnostics.map (·.mark)
  summary : first.summary = second.summary

namespace LineEnds

variable {source : String}

/-! ### Faults -/

theorem mark_relocate (text : List Char) (error : AnalysisError) (stage : Stage) :
    ((error.relocate (relocation text)).diagnostic stage).mark = (error.diagnostic stage).mark := by
  cases error <;> rfl

theorem marks_relocate (text : List Char) (errors : List AnalysisError) (stage : Stage) :
    ((errors.map (·.relocate (relocation text))).map (·.diagnostic stage)).map (·.mark) =
      (errors.map (·.diagnostic stage)).map (·.mark) := by
  rw [List.map_map, List.map_map, List.map_map]
  exact List.map_congr_left fun error _ => mark_relocate text error stage

theorem StepCorresponds.marks {text : List Char} {step moved : ScanStep}
    (corresponds : StepCorresponds text step moved) :
    (step.faults.map (·.diagnostic .lexical)).map (·.mark) =
      (moved.faults.map (·.diagnostic .lexical)).map (·.mark) := by
  cases corresponds with
  | moved => exact (marks_relocate text _ .lexical).symm
  | cut line column =>
      simp [AnalysisError.diagnostic, Diagnostic.mark, AnalysisError.span?, line, column,
        AnalysisError.code, AnalysisError.severity, AnalysisError.isWarning, AnalysisError.stage?,
        AnalysisError.suggestion?]

/-- Tokenizing finds the same kinds of faults at the same lines and columns. -/
theorem lexicalDiagnostics_doubled (source : String) :
    (lexicalDiagnostics source).map (·.mark) =
      (lexicalDiagnostics (doubled source)).map (·.mark) := by
  have steps := steps_correspond (ofSource_corresponds source)
  rw [lexicalDiagnostics, lexicalDiagnostics, lexicalErrors_eq, lexicalErrors_eq]
  generalize (Cursor.ofSource source).steps = first at steps ⊢
  generalize (Cursor.ofSource (doubled source)).steps = second at steps ⊢
  induction steps with
  | nil => rfl
  | cons corresponds others inductionHypothesis =>
      simp only [List.flatMap_cons, List.map_append, corresponds.marks, inductionHypothesis]

theorem length_tokenize_doubled (source : String) :
    (tokenize source).length = (tokenize (doubled source)).length :=
  (tokenize_doubled source).length_eq

theorem kinds_doubled (source : String) :
    (tokenize source).map (·.kind) = (tokenize (doubled source)).map (·.kind) := by
  rw [← List.forall₂_eq_eq_eq, List.forall₂_map_left_iff, List.forall₂_map_right_iff]
  exact (tokenize_doubled source).imp fun _ _ same => same.kind.symm

theorem isValidLexically_doubled (source : String) :
    isValidLexically (tokenize source) = isValidLexically (tokenize (doubled source)) := by
  have known := congrArg (fun kinds : List Token.Kind => !kinds.any (· == .unknown))
    (kinds_doubled source)
  simp only [List.any_map] at known
  exact known

/-! ### Parsing and checking -/

theorem move_origin (text : List Char) : (relocation text).move .origin = .origin := by
  have start : shift text 0 = 0 := shift_byteSize [] text
  simp only [relocation, Span.origin, start]

theorem ofTokens_relocate (text : List Char) (tokens : List Token) :
    Program.ofTokens (tokens.map (·.relocate (relocation text))) =
      ((Program.ofTokens tokens).map (·.relocate (relocation text))).mapError
        (·.relocate (relocation text)) := by
  have start : ParseState.ofTokens (tokens.map (·.relocate (relocation text))) =
      (ParseState.ofTokens tokens).relocate (relocation text) := by
    rw [ParseState.ofTokens, ParseState.ofTokens, List.getLast?_map, ParseState.relocate,
      move_origin]
    cases tokens.getLast? with
    | none => exact congrArg (fun span => ParseState.mk _ _ _ _ (.closing span)) (move_origin text).symm
    | some last => rfl
  rw [Program.ofTokens, start, ParseState.program_relocate]
  rfl

theorem isValidSyntax_doubled (valid : isValidLexically (tokenize source) = true) :
    isValidSyntax (tokenize source) = isValidSyntax (tokenize (doubled source)) := by
  rw [tokenize_doubled_of_valid valid, isValidSyntax, isValidSyntax, ofTokens_relocate]
  cases Program.ofTokens (tokenize source) <;> rfl

theorem semanticDiagnostics_doubled (valid : isValidLexically (tokenize source) = true)
    (strict : Bool) :
    (semanticDiagnostics (tokenize source) strict).map (·.mark) =
      (semanticDiagnostics (tokenize (doubled source)) strict).map (·.mark) := by
  rw [tokenize_doubled_of_valid valid, semanticDiagnostics, semanticDiagnostics, ofTokens_relocate]
  cases Program.ofTokens (tokenize source) with
  | ok program =>
      change _ = (((program.relocate _).check strict).map _).map _
      rw [Program.check_relocate, marks_relocate]
  | error error => exact congrArg (fun mark => [mark]) (mark_relocate _ error .syntactic).symm

end LineEnds

namespace Session

open LineEnds (doubled)

variable {source : String} {options : Options} {stage : Stage}

/-! ### Runs from the start -/

theorem valid_of_stopsAt (reaches : stopsAt source options stage = stage)
    (later : stage ≠ .lexical) : isValidLexically (tokenize source) = true :=
  (passes_lexical_iff source options).mp (passes_lexical_of_stopsAt reaches later)

/-- Where the semantic stage is reached, there is a program for each of the texts. -/
theorem parsed_of_stopsAt (reaches : stopsAt source options .semantic = .semantic) :
    ∃ program, Program.ofTokens (tokenize source) = .ok program ∧
      Program.ofTokens (tokenize (doubled source)) =
        .ok (program.relocate (LineEnds.relocation source.toList)) := by
  have valid := valid_of_stopsAt reaches (by simp)
  have parsed := (passes_syntactic_iff options).mp (passes_of_stopsAt reaches rfl)
  rw [LineEnds.tokenize_doubled_of_valid valid, LineEnds.ofTokens_relocate]
  rw [isValidSyntax] at parsed
  cases read : Program.ofTokens (tokenize source) with
  | ok program => exact ⟨program, rfl, rfl⟩
  | error error =>
      rw [read] at parsed
      cases parsed

/-- A stage that is reached passes over both texts or over neither. -/
theorem passes_doubled (reaches : stopsAt source options stage = stage) :
    Passes source options stage ↔ Passes (doubled source) options stage := by
  cases stage with
  | lexical => rw [passes_lexical_iff, passes_lexical_iff, LineEnds.isValidLexically_doubled]
  | syntactic =>
      rw [passes_syntactic_iff, passes_syntactic_iff,
        LineEnds.isValidSyntax_doubled (valid_of_stopsAt reaches (by simp))]
  | semantic =>
      obtain ⟨program, read, otherRead⟩ := parsed_of_stopsAt reaches
      have marks := LineEnds.semanticDiagnostics_doubled (valid_of_stopsAt reaches (by simp))
        options.strict
      rw [(checked_of_ok options read).1, (checked_of_ok options otherRead).1,
        ← List.map_eq_nil_iff, marks, List.map_eq_nil_iff]

theorem stopsAt_doubled (source : String) (options : Options) (target : Stage) :
    stopsAt source options target = stopsAt (doubled source) options target := by
  have first := @passes_doubled source options .lexical rfl
  have second (passed : Passes source options .lexical) :
      Passes source options .syntactic ↔ Passes (doubled source) options .syntactic :=
    passes_doubled (if_pos passed)
  cases target with
  | lexical => rfl
  | syntactic => simp only [stopsAt, first]
  | semantic =>
      by_cases passed : Passes source options .lexical
      · simp only [stopsAt, if_pos passed, if_pos (first.mp passed), second passed]
      · simp only [stopsAt, if_neg passed, if_neg (first.not.mp passed)]

/-! ### Settled findings -/

theorem settled_syntactic_summary (source : String) (options : Options) :
    (settled source options .syntactic).summary.map (·.2) =
      [lexicalSummary (tokenize source),
        syntacticSummary (Program.ofTokens (tokenize source)).toOption] := by
  rw [settled, after_summary]
  cases read : Program.ofTokens (tokenize source) with
  | ok program =>
      rw [@step_syntactic_of_ok ⟨source, {}, (ofSource source).after .lexical⟩ program read]
      rfl
  | error error =>
      rw [@step_syntactic_of_error ⟨source, {}, (ofSource source).after .lexical⟩ error read]
      rfl

theorem settled_semantic_summary {program : Program}
    (read : Program.ofTokens (tokenize source) = .ok program) :
    (settled source options .semantic).summary.map (·.2) =
      (settled source options .syntactic).summary.map (·.2) ++
        [semanticSummary (program.check options.strict)] := by
  have kept : (settled source options .syntactic).summary.filter (·.1.before .semantic) =
      (settled source options .syntactic).summary := by
    refine List.filter_eq_self.mpr fun entry member => ?_
    have named := List.mem_map_of_mem (f := (·.1)) member
    rw [settled_summary_stages] at named
    cases stage : entry.1 with
    | lexical | syntactic => rfl
    | semantic =>
        rw [stage] at named
        exact absurd named (by decide)
  have found := (settled_of_ok options read).2.1
  rw [settled_semantic, after_summary, kept, List.map_append, step, semanticStep, found]
  rfl

theorem summary_doubled (reaches : stopsAt source options stage = stage) :
    (settled source options stage).summary.map (·.2) =
      (settled (doubled source) options stage).summary.map (·.2) := by
  have first : lexicalSummary (tokenize source) = lexicalSummary (tokenize (doubled source)) := by
    rw [lexicalSummary, lexicalSummary, LineEnds.isValidLexically_doubled,
      LineEnds.length_tokenize_doubled]
  have second (valid : isValidLexically (tokenize source) = true) :
      (settled source options .syntactic).summary.map (·.2) =
        (settled (doubled source) options .syntactic).summary.map (·.2) := by
    rw [settled_syntactic_summary, settled_syntactic_summary, first,
      LineEnds.tokenize_doubled_of_valid valid, LineEnds.ofTokens_relocate]
    cases Program.ofTokens (tokenize source) <;> rfl
  cases stage with
  | lexical => exact congrArg (fun text => [text]) first
  | syntactic => exact second (valid_of_stopsAt reaches (by simp))
  | semantic =>
      obtain ⟨program, read, otherRead⟩ := parsed_of_stopsAt reaches
      rw [settled_semantic_summary read, settled_semantic_summary otherRead,
        second (valid_of_stopsAt reaches (by simp)), Program.check_relocate, semanticSummary,
        semanticSummary, List.isEmpty_map]

theorem diagnostics_doubled (reaches : stopsAt source options stage = stage) :
    (settled source options stage).diagnostics.map (·.mark) =
      (settled (doubled source) options stage).diagnostics.map (·.mark) := by
  have first := LineEnds.lexicalDiagnostics_doubled source
  cases stage with
  | lexical => rw [settled_lexical_diagnostics, settled_lexical_diagnostics, first]
  | syntactic =>
      have moved := LineEnds.ofTokens_relocate source.toList (tokenize source)
      rw [← LineEnds.tokenize_doubled_of_valid (valid_of_stopsAt reaches (by simp))] at moved
      cases read : Program.ofTokens (tokenize source) with
      | ok program =>
          rw [read] at moved
          rw [(settled_of_ok options read).2.2, (settled_of_ok options moved).2.2, first]
      | error error =>
          rw [read] at moved
          rw [(settled_of_error options read).2, (settled_of_error options moved).2,
            List.map_append, List.map_append, first, List.map_singleton, List.map_singleton,
            LineEnds.mark_relocate]
  | semantic =>
      obtain ⟨program, read, otherRead⟩ := parsed_of_stopsAt reaches
      have marks := LineEnds.semanticDiagnostics_doubled (valid_of_stopsAt reaches (by simp))
        options.strict
      rw [(checked_of_ok options read).2, (checked_of_ok options otherRead).2, List.map_append,
        List.map_append, first, marks]

theorem report_doubled (reaches : stopsAt source options stage = stage) :
    (report ⟨source, options, settled source options stage⟩).Matches
      (report ⟨doubled source, options, settled (doubled source) options stage⟩) := by
  have otherReaches : stopsAt (doubled source) options stage = stage :=
    (stopsAt_doubled source options stage).symm.trans reaches
  have passes := passes_doubled reaches
  have last : (settled source options stage).last? =
      (settled (doubled source) options stage).last? := by
    simp only [settled_last?, passes]
  exact {
    success := by simp only [report, last]
    stage? := by simp only [report, last]
    passed := by simp only [report, settled_passed reaches, settled_passed otherReaches, passes]
    tokenCount := by
      simp only [report, tokens, settled_tokens?, Option.getD_some]
      rw [LineEnds.length_tokenize_doubled]
    diagnostics := diagnostics_doubled reaches
    summary := summary_doubled reaches }

theorem runUntil_blank (blank : Text.isBlank source = true) (options : Options) (target : Stage) :
    (((ofSource source).withOptions options).runUntil target).1 = .error .emptySource :=
  congrArg Prod.fst (@runUntil_of_blank ((ofSource source).withOptions options) blank target)

/-- The line ends of a text do not matter to its analysis. A text and the one with a carriage
return in front of every line feed have the same tokens at the same lines and columns, but that a
string that does not end takes the carriage return with it. With any options and up to any stage,
new sessions over the two are refused alike, or report the same but for the messages of their
diagnostics. -/
theorem runUntil_doubled (source : String) :
    List.Forall₂ LineEnds.SameToken (tokenize source) (tokenize (doubled source)) ∧
      ∀ (options : Options) (target : Stage),
        (∃ refusal,
          (((ofSource source).withOptions options).runUntil target).1 = .error refusal ∧
          (((ofSource (doubled source)).withOptions options).runUntil target).1 =
            .error refusal) ∨
        ∃ first second,
          (((ofSource source).withOptions options).runUntil target).1 = .ok first ∧
          (((ofSource (doubled source)).withOptions options).runUntil target).1 = .ok second ∧
          first.Matches second := by
  refine ⟨LineEnds.tokenize_doubled source, fun options target => ?_⟩
  have same := LineEnds.isBlank_doubled source
  cases blank : Text.isBlank source with
  | true =>
      exact .inl ⟨.emptySource, runUntil_blank blank options target,
        runUntil_blank (same.trans blank) options target⟩
  | false =>
      have firstRan := runUntil_fresh blank options target
      have secondRan := runUntil_fresh (same.trans blank) options target
      rw [← stopsAt_doubled] at secondRan
      exact .inr ⟨_, _, congrArg Prod.fst firstRan, congrArg Prod.fst secondRan,
        report_doubled (stopsAt_stopsAt source options target)⟩

end Session

end StagedAnalysis
