import StagedAnalysis.Proofs.Lexing
import StagedAnalysis.Proofs.Lexing.Scans
/-!
Where lexemes stand.

A gap stops where no part of a gap stands at the head of the text: at the end of the text, or in front
of a lexeme. So every step but the last cuts off the lexeme at such a place, and the last one skips the
gap that is left.
-/
namespace StagedAnalysis

namespace Gap

/-- No gap goes on at the head of the text. -/
def Stops : List Char → Prop
  | [] => True
  | first :: rest => isSpace first = false ∧
      (first = '/' → ∀ second ∈ rest.head?, second ≠ '/' ∧ second ≠ '*')

theorem skip_of_stops {text : List Char} (stops : Stops text) (place : Position) :
    skip place .nothing text = ⟨⟨place, text⟩, none⟩ := by
  cases text with
  | nil => rfl
  | cons first rest =>
      obtain ⟨noSpace, noComment⟩ := stops
      rw [skip, if_neg (Bool.eq_false_iff.mp noSpace)]
      · rintro behind slash rfl
        exact (noComment slash '/' rfl).1 rfl
      · rintro behind slash rfl
        exact (noComment slash '*' rfl).2 rfl

theorem stops_skip (place : Position) (inside : Inside) (text : List Char) :
    Stops (skip place inside text).next.rest := by
  fun_induction skip place inside text with
  | case4 place character rest noLine noBlock different =>
      refine ⟨Bool.eq_false_iff.mpr different, fun slash second isSecond => ?_⟩
      obtain ⟨behind, rfl⟩ := List.head?_eq_some_iff.mp isSecond
      exact ⟨fun line => noLine behind slash (line ▸ rfl),
        fun block => noBlock behind slash (block ▸ rfl)⟩
  | case9 | case10 => trivial
  | _ => assumption

theorem Stops.inLine {first : Char} {rest : List Char} (stops : Stops (first :: rest)) :
    first ≠ '\n' := by
  rintro rfl
  cases stops.1

/-- Where no gap goes on in front of a lexeme, none does if the line or the text ends behind it. -/
theorem Stops.of_cut {first : Char} {rest body behind : List Char} (stops : Stops (first :: rest))
    (shape : (Lexeme.scan first rest).text = first :: body)
    (ends : ∀ next ∈ behind.head?, next = '\n') : Stops (first :: (body ++ behind)) := by
  have parts := Lexeme.scan_append first rest
  rw [shape, List.cons_append] at parts
  rw [← parts] at stops
  refine ⟨stops.1, fun slash second isSecond => ?_⟩
  cases body with
  | nil =>
      rw [ends second isSecond]
      decide
  | cons next body => exact stops.2 slash second isSecond

/-- Skipping moves on to what is left. -/
theorem Over.moves {place : Position} {text : List Char} {gap : Gap} (skips : Over place text gap) :
    ∃ passed, passed ++ gap.next.rest = text ∧ gap.next.place = place.after passed := by
  cases skips with
  | @closed passed rest fills => exact ⟨passed, rfl, rfl⟩
  | @unclosed passed body fills within => exact ⟨_, List.append_nil _, rfl⟩

end Gap

/-! ### Steps -/

theorem ScanStep.ofLexeme_of_ok {place : Position} {first : Char} {rest : List Char}
    {kind : Token.Kind} (sort : (Lexeme.scan first rest).sort = .ok kind) :
    (ofLexeme place first rest).token.kind = kind ∧ (ofLexeme place first rest).faults = [] := by
  simp [ofLexeme, sort]

theorem ScanStep.ofLexeme_of_error {place : Position} {first : Char} {rest : List Char} {flaw : Flaw}
    (sort : (Lexeme.scan first rest).sort = .error flaw) :
    (ofLexeme place first rest).token.kind = .unknown ∧
      (ofLexeme place first rest).faults =
        [flaw.error (ofLexeme place first rest).token.lexeme
          (ofLexeme place first rest).token.span] := by
  simp [ofLexeme, sort]

/-- A token of the language is what its lexeme is. -/
theorem ScanStep.sort_of_ofLexeme {place : Position} {first : Char} {rest : List Char}
    (known : (ofLexeme place first rest).token.kind ≠ .unknown) :
    (Lexeme.scan first rest).sort = .ok (ofLexeme place first rest).token.kind := by
  cases sort : (Lexeme.scan first rest).sort with
  | ok kind => rw [(ofLexeme_of_ok sort).1]
  | error flaw => exact absurd (ofLexeme_of_error sort).1 known

def ScanStep.CutsFrom (cursor : Cursor) (step : ScanStep) : Prop :=
  ∃ before first rest, before ++ first :: rest = cursor.rest ∧ Gap.Stops (first :: rest) ∧
    step = .ofLexeme (cursor.place.after before) first rest

def ScanStep.EndsFrom (cursor : Cursor) (step : ScanStep) : Prop :=
  ∃ before rest, before ++ rest = cursor.rest ∧
    (Gap.skip (cursor.place.after before) .nothing rest).next.rest = [] ∧
    step = .ofEnd (Gap.skip (cursor.place.after before) .nothing rest)

section Further

variable {cursor later : Cursor} {passed : List Char} (whole : passed ++ later.rest = cursor.rest)
  (place : later.place = cursor.place.after passed)

include whole place

theorem ScanStep.CutsFrom.further {step : ScanStep} (cuts : step.CutsFrom later) :
    step.CutsFrom cursor := by
  obtain ⟨before, first, rest, split, stops, rfl⟩ := cuts
  refine ⟨passed ++ before, first, rest, ?_, stops, ?_⟩
  · rw [List.append_assoc, split, whole]
  · rw [Position.after_append, place]

theorem ScanStep.EndsFrom.further {step : ScanStep} (ends : step.EndsFrom later) :
    step.EndsFrom cursor := by
  obtain ⟨before, rest, split, done, rfl⟩ := ends
  rw [place, ← Position.after_append] at done ⊢
  exact ⟨passed ++ before, rest, by rw [List.append_assoc, split, whole], done, rfl⟩

end Further

/-- The first step, and the steps behind it if it is not the last. -/
theorem Cursor.steps_eq_cons (cursor : Cursor) :
    cursor.steps = cursor.step ::
      if cursor.gap.next.rest = [] then [] else cursor.step.next.steps := by
  rw [steps]
  split <;> rfl

theorem Cursor.steps_nil (place : Position) :
    (⟨place, []⟩ : Cursor).steps = [.ofEnd ⟨⟨place, []⟩, none⟩] := by
  rw [steps]
  rfl

theorem Cursor.steps_congr {cursor other : Cursor} (same : cursor.gap = other.gap) :
    cursor.steps = other.steps := by
  rw [steps, same, ← steps]

/-- A space is only skipped. -/
theorem Cursor.steps_of_space {character : Char} (space : Gap.isSpace character = true)
    (place : Position) (rest : List Char) :
    (⟨place, character :: rest⟩ : Cursor).steps = (⟨place.next character, rest⟩ : Cursor).steps := by
  apply steps_congr
  have notSlash : character ≠ '/' := by
    rintro rfl
    exact Bool.false_ne_true space
  rw [gap, Gap.skip, if_pos space]
  · rfl
  · exact fun _ slash => absurd slash notSlash
  · exact fun _ slash => absurd slash notSlash

/-- Where no gap goes on, the next step cuts off a lexeme. -/
theorem Cursor.steps_of_stops {first : Char} {rest : List Char} (stops : Gap.Stops (first :: rest))
    (place : Position) : (⟨place, first :: rest⟩ : Cursor).steps =
      .ofLexeme place first rest :: (ScanStep.ofLexeme place first rest).next.steps := by
  have here : (⟨place, first :: rest⟩ : Cursor).gap = ⟨⟨place, first :: rest⟩, none⟩ :=
    Gap.skip_of_stops stops place
  rw [steps, here]
  exact if_neg (List.cons_ne_nil first rest)

/-- A step moves on to what is left behind it. -/
theorem Cursor.step_moves (cursor : Cursor) :
    ∃ passed, passed ++ cursor.step.next.rest = cursor.rest ∧
      cursor.step.next.place = cursor.place.after passed := by
  obtain ⟨passed, whole, place⟩ := cursor.gap_over.moves
  rw [step, ScanStep.ofGap]
  cases shape : cursor.gap.next.rest with
  | nil => exact ⟨passed, whole, place⟩
  | cons first rest =>
      rw [shape] at whole
      refine ⟨passed ++ (Lexeme.scan first rest).text, ?_, ?_⟩
      · rw [ScanStep.ofLexeme_next, List.append_assoc, Lexeme.scan_append, whole]
      · rw [ScanStep.ofLexeme_next, place, Position.after_append]

/-- In front of the end of the text, a step cuts off a lexeme. -/
theorem Cursor.step_cutsFrom {cursor : Cursor} (more : cursor.gap.next.rest ≠ []) :
    cursor.step.CutsFrom cursor := by
  obtain ⟨passed, whole, place⟩ := cursor.gap_over.moves
  have stops : Gap.Stops cursor.gap.next.rest := Gap.stops_skip cursor.place .nothing cursor.rest
  obtain ⟨first, rest, shape⟩ := List.exists_cons_of_ne_nil more
  rw [shape] at whole stops
  refine ⟨passed, first, rest, whole, stops, ?_⟩
  rw [step, ScanStep.ofGap, shape, ← place]

theorem Cursor.step_endsFrom {cursor : Cursor} (done : cursor.gap.next.rest = []) :
    cursor.step.EndsFrom cursor := by
  refine ⟨[], cursor.rest, rfl, done, ?_⟩
  rw [step, ScanStep.ofGap, done]
  rfl

/-- All steps but the last cut off lexemes, and the last one skips what is left. -/
theorem Cursor.steps_shape (cursor : Cursor) :
    ∃ lexemes ending, cursor.steps = lexemes ++ [ending] ∧
      (∀ step ∈ lexemes, ScanStep.CutsFrom cursor step) ∧ ending.EndsFrom cursor := by
  fun_induction Cursor.steps cursor with
  | case1 cursor gap done =>
      exact ⟨[], cursor.step, rfl, List.forall_mem_nil _, step_endsFrom done⟩
  | case2 cursor gap more inductionHypothesis =>
      obtain ⟨passed, whole, place⟩ := cursor.step_moves
      obtain ⟨lexemes, ending, same, cuts, ends⟩ := inductionHypothesis
      refine ⟨cursor.step :: lexemes, ending, congrArg _ same, ?_, ends.further whole place⟩
      refine List.forall_mem_cons.mpr ⟨step_cutsFrom more, ?_⟩
      exact fun later member => (cuts later member).further whole place

/-- The last step leaves nothing, and its token has its place. -/
theorem ScanStep.EndsFrom.settles {cursor : Cursor} {step : ScanStep} (ends : step.EndsFrom cursor) :
    ∃ place, step.token = .closing (.between place place) ∧ step.next = ⟨place, []⟩ := by
  obtain ⟨before, rest, _, done, rfl⟩ := ends
  exact ⟨_, rfl, congrArg (Cursor.mk _) done⟩

/-- Every token in front of the end of the input is that of a lexeme. -/
theorem exists_step_of_mem {source : String} {token : Token} (member : token ∈ tokenize source)
    (goesOn : token.isEnd = false) :
    ∃ step ∈ (Cursor.ofSource source).steps, step.token = token ∧
      step.CutsFrom (.ofSource source) := by
  obtain ⟨lexemes, ending, same, cuts, ends⟩ := (Cursor.ofSource source).steps_shape
  rw [tokenize_eq] at member
  obtain ⟨step, isStep, rfl⟩ := List.mem_map.mp member
  refine ⟨step, isStep, rfl, ?_⟩
  rw [same] at isStep
  rcases List.mem_append.mp isStep with lexeme | last
  · exact cuts step lexeme
  · obtain ⟨place, isEnd, _⟩ := ends.settles
    rw [List.mem_singleton.mp last, isEnd] at goesOn
    cases goesOn

end StagedAnalysis
