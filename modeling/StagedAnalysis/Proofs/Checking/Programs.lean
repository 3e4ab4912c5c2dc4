import StagedAnalysis.Checking.Analyzer
import StagedAnalysis.Proofs.Checking.Statements
import StagedAnalysis.Proofs.Reading.Programs
/-!
Checking decides which programs follow the rules of names and types.

The type of failed expressions has no keyword, so nothing that is read from tokens is declared with
it.
-/
namespace StagedAnalysis

open Typing

/-! ### Declared types of what is read -/

namespace Statement

mutual

theorem declarations_unplaced (statement : Statement) :
    statement.unplaced.declarations = statement.declarations.map (·.unplaced) := by
  cases statement with
  | declaration declared => rfl
  | assignment stored => rfl
  | ifThen condition branch span => exact declarations_unplaced branch
  | ifElse condition branch otherwise span =>
      rw [unplaced, declarations, declarations, List.map_append, declarations_unplaced branch,
        declarations_unplaced otherwise]
  | whileLoop condition body span => exact declarations_unplaced body
  | forLoop start condition? update? body span =>
      rw [unplaced, declarations, declarations, List.map_append, declarations_unplaced body]
      cases start <;> rfl
  | print value span => rfl
  | block body span => exact declarationsAll_unplaced body
  | empty span => rfl

theorem declarationsAll_unplaced (statements : List Statement) :
    declarationsAll (unplacedAll statements) =
      (declarationsAll statements).map (·.unplaced) := by
  cases statements with
  | nil => rfl
  | cons statement statements =>
      rw [unplacedAll, declarationsAll, declarationsAll, List.map_append,
        declarations_unplaced statement, declarationsAll_unplaced statements]

end

end Statement

namespace Grammar

variable {limits : Limits}

theorem declares_declarable {level : Nat} {word : List Token.Kind} {tree : Declaration}
    (derived : Declares limits level word tree) : tree.ty ≠ .error := by
  have named {keyword : Keyword} {ty : Ty} (names : keyword.type? = some ty) : ty ≠ .error := by
    rintro rfl
    cases keyword <;> cases names
  cases derived with
  | plain name names => exact named names
  | initialized name names derived => exact named names

theorem starts_declarable {level : Nat} {word : List Token.Kind} {tree : LoopStart}
    (derived : Starts limits level word tree) :
    ∀ declared ∈ tree.declarations, declared.ty ≠ .error := by
  cases derived with
  | declaration derived =>
      intro declared member
      rw [List.mem_singleton.mp member]
      exact declares_declarable derived
  | nothing => exact List.forall_mem_nil _
  | assignment derived => exact List.forall_mem_nil _

mutual

theorem states_declarable {level : Nat} {word : List Token.Kind} {tree : Statement}
    (derived : States limits level word tree) :
    ∀ declared ∈ tree.declarations, declared.ty ≠ .error := by
  cases derived with
  | declaration fits derived =>
      intro declared member
      rw [List.mem_singleton.mp member]
      exact declares_declarable derived
  | assignment fits derived => exact List.forall_mem_nil _
  | ifThen fits tested derived =>
      have inner := states_declarable derived
      exact inner
  | ifElse fits tested derived closed otherDerived =>
      exact List.forall_mem_append.mpr
        ⟨states_declarable derived, states_declarable otherDerived⟩
  | whileLoop fits tested derived =>
      have inner := states_declarable derived
      exact inner
  | forLoop fits started tested stepped derived =>
      exact List.forall_mem_append.mpr ⟨starts_declarable started, states_declarable derived⟩
  | print fits derived => exact List.forall_mem_nil _
  | block fits derived => exact statesAll_declarable derived
  | empty fits => exact List.forall_mem_nil _

theorem statesAll_declarable {level : Nat} {word : List Token.Kind} {trees : List Statement}
    (derived : StatesAll limits level word trees) :
    ∀ declared ∈ Statement.declarationsAll trees, declared.ty ≠ .error := by
  cases derived with
  | nil => exact List.forall_mem_nil _
  | cons derived othersDerived =>
      exact List.forall_mem_append.mpr
        ⟨states_declarable derived, statesAll_declarable othersDerived⟩

end

end Grammar

theorem Program.declarable_of_ofTokens {tokens : List Token} {program : Program}
    (parsed : Program.ofTokens tokens = .ok program) : program.Declarable := by
  obtain ⟨behind, given⟩ := ofTokens_eq_ok_iff.mp parsed
  have derived := Parse.program_reads (ParseState.ofTokens_ready tokens) rfl given
  intro declared member
  have unplacedMember :
      declared.unplaced ∈ Statement.declarationsAll program.unplaced.statements := by
    rw [Program.unplaced, Statement.declarationsAll_unplaced]
    exact List.mem_map_of_mem member
  exact Grammar.statesAll_declarable derived declared.unplaced unplacedMember

/-! ### Programs -/

theorem Typing.sound_outermost : Sound [[]] := by
  intro name ty resolved
  cases resolved with
  | here found => cases found
  | further fresh resolved => cases resolved

theorem Program.check_eq (program : Program) (strict : Bool) :
    program.check strict =
      (Statement.checkAll (!strict) .outermost program.statements).2 := by
  rw [check, Analyzer.analyze]
  exact List.nil_append _

/-- Checking decides the rules for the programs whose declarations use the types that have
keywords, with and without strictness. All programs that are read from tokens are such programs. -/
theorem Program.check_eq_nil_iff_follows :
    (∀ (tokens : List Token) (program : Program),
      Program.ofTokens tokens = .ok program → program.Declarable) ∧
    ∀ (program : Program) (strict : Bool), program.Declarable →
      (program.check strict = [] ↔ Follows (!strict) program) := by
  refine ⟨fun _ _ => declarable_of_ofTokens, fun program strict declarable => ?_⟩
  rw [check_eq]
  exact Statement.checkAll_iff program.statements ScopeTable.outermost_views sound_outermost
    declarable

/-- An int as the first value of a float follows the rules with widening only. -/
theorem Program.follows_widening_only :
    ∃ program : Program,
      program.Declarable ∧ Follows true program ∧ ¬Follows false program := by
  have declarable : Program.Declarable
      ⟨[.declaration ⟨.float, ⟨"x", .origin⟩, some (.literal (.int 1) .origin), .origin⟩]⟩ := by
    simp [Declarable, Statement.declarationsAll, Statement.declarations]
  refine ⟨_, declarable, ?_, ?_⟩
  · exact (check_eq_nil_iff_follows.2 _ false declarable).mp rfl
  · rw [show false = !true from rfl, ← check_eq_nil_iff_follows.2 _ true declarable]
    decide

end StagedAnalysis
