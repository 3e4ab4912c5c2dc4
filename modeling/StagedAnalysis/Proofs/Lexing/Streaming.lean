import StagedAnalysis.Proofs.Lexing.Lexemes
/-!
Tokens on demand.

A scanner gives its tokens one by one or all that are left at once, and may be asked in the one way and the
other in any order. Between two calls it stands between two of the steps over its text, or at the end of
the text, where nothing is left to read or to report. So the calls share out what tokenizing the text at
once gives, and from then on they give the end of the input, at the same place.
-/
namespace StagedAnalysis

namespace Scanner

/-! ### Calls -/

inductive Call where
  | next
  | remaining
  deriving DecidableEq

def Call.perform : Call → Scanner → List Token × Scanner
  | next, scanner => ([scanner.next.1], scanner.next.2)
  | remaining, scanner => scanner.remaining

def performAll (scanner : Scanner) : List Call → List Token × Scanner
  | [] => ([], scanner)
  | call :: calls =>
    let (tokens, between) := call.perform scanner
    let (others, behind) := between.performAll calls
    (tokens ++ others, behind)

def given (source : String) (calls : List Call) : List Token :=
  ((ofSource source).performAll calls).1

/-- The faults of a source text that are known behind calls. -/
def reported (source : String) (calls : List Call) : List AnalysisError :=
  ((ofSource source).performAll calls).2.errors

theorem performAll_append (scanner : Scanner) (calls more : List Call) :
    (scanner.performAll (calls ++ more)).2 =
      ((scanner.performAll calls).2.performAll more).2 := by
  induction calls generalizing scanner with
  | nil => rfl
  | cons call calls inductionHypothesis => exact inductionHypothesis (call.perform scanner).2

/-- Faults are only added. -/
theorem errors_prefix_performAll (scanner : Scanner) (calls : List Call) :
    scanner.errors <+: (scanner.performAll calls).2.errors := by
  induction calls generalizing scanner with
  | nil => exact List.prefix_rfl
  | cons call calls inductionHypothesis =>
      have first : scanner.errors <+: (call.perform scanner).2.errors := by
        cases call <;> exact List.prefix_append _ _
      exact first.trans (inductionHypothesis (call.perform scanner).2)

/-! ### Where a scanner stands -/

/-- The scanner stands where it can stand over the text behind `cursor` once these tokens are given:
behind some of the steps, or at the end, which may have been given more than once. -/
inductive Stands (cursor : Cursor) : List Token → Scanner → Prop
  | between {taken : List ScanStep} {scanner : Scanner}
      (steps : cursor.steps = taken ++ scanner.cursor.steps)
      (errors : scanner.errors = taken.flatMap (·.faults)) :
      Stands cursor (taken.map (·.token)) scanner
  | ended {lexemes : List ScanStep} {ending : ScanStep} {place : Position} (further : Nat)
      (steps : cursor.steps = lexemes ++ [ending])
      (isEnd : ending.token = .closing (.between place place)) :
      Stands cursor (cursor.steps.map (·.token) ++
          List.replicate further (.closing (.between place place)))
        ⟨⟨place, []⟩, cursor.steps.flatMap (·.faults)⟩

variable {cursor : Cursor} {tokens : List Token} {scanner : Scanner}

/-- What is left goes up to the last step over it. -/
theorem remaining_eq {lexemes : List ScanStep} {ending : ScanStep}
    (steps : scanner.cursor.steps = lexemes ++ [ending]) :
    scanner.remaining = ((lexemes ++ [ending]).map (·.token),
      ⟨ending.next, scanner.errors ++ (lexemes ++ [ending]).flatMap (·.faults)⟩) := by
  rw [Scanner.remaining, steps, List.foldl_append]
  rfl

theorem next_at_end (place : Position) (errors : List AnalysisError) :
    (⟨⟨place, []⟩, errors⟩ : Scanner).next =
      (.closing (.between place place), ⟨⟨place, []⟩, errors⟩) :=
  congrArg (fun faults => (_, Scanner.mk _ faults)) (List.append_nil errors)

theorem remaining_at_end (place : Position) (errors : List AnalysisError) :
    (⟨⟨place, []⟩, errors⟩ : Scanner).remaining =
      ([.closing (.between place place)], ⟨⟨place, []⟩, errors⟩) := by
  rw [@remaining_eq ⟨⟨place, []⟩, errors⟩ [] _ (Cursor.steps_nil place)]
  exact congrArg (fun faults => (_, Scanner.mk _ faults)) (List.append_nil errors)

theorem Stands.next (stands : Stands cursor tokens scanner) :
    Stands cursor (tokens ++ [scanner.next.1]) scanner.next.2 := by
  cases stands with
  | @between taken _ steps errors =>
      have here := scanner.cursor.steps_eq_cons
      by_cases done : scanner.cursor.gap.next.rest = []
      · obtain ⟨place, isEnd, next⟩ := (Cursor.step_endsFrom done).settles
        rw [if_pos done] at here
        rw [here] at steps
        have ended := Stands.ended 0 steps isEnd
        simpa [Scanner.next, steps, errors, next] using ended
      · rw [if_neg done] at here
        have split : cursor.steps = (taken ++ [scanner.cursor.step]) ++
            scanner.cursor.step.next.steps := by
          rw [steps, here, List.append_assoc, List.singleton_append]
        have between := @Stands.between cursor _ scanner.next.2 split (by simp [Scanner.next, errors])
        rwa [List.map_append, List.map_singleton] at between
  | @ended lexemes ending place further steps isEnd =>
      have ended := Stands.ended (further + 1) steps isEnd
      rw [List.replicate_succ', ← List.append_assoc] at ended
      rw [next_at_end]
      exact ended

theorem Stands.remaining (stands : Stands cursor tokens scanner) :
    Stands cursor (tokens ++ scanner.remaining.1) scanner.remaining.2 := by
  cases stands with
  | @between taken _ steps errors =>
      obtain ⟨lexemes, ending, here, _, ends⟩ := scanner.cursor.steps_shape
      obtain ⟨place, isEnd, next⟩ := ends.settles
      rw [here, ← List.append_assoc] at steps
      have ended := Stands.ended 0 steps isEnd
      rw [remaining_eq here]
      simpa [steps, errors, next] using ended
  | @ended lexemes ending place further steps isEnd =>
      have ended := Stands.ended (further + 1) steps isEnd
      rw [List.replicate_succ', ← List.append_assoc] at ended
      rw [remaining_at_end]
      exact ended

theorem Stands.perform (stands : Stands cursor tokens scanner) (call : Call) :
    Stands cursor (tokens ++ (call.perform scanner).1) (call.perform scanner).2 := by
  cases call with
  | next => exact stands.next
  | remaining => exact stands.remaining

theorem Stands.performAll (stands : Stands cursor tokens scanner) (calls : List Call) :
    Stands cursor (tokens ++ (scanner.performAll calls).1) (scanner.performAll calls).2 := by
  induction calls generalizing tokens scanner with
  | nil =>
      rw [Scanner.performAll, List.append_nil]
      exact stands
  | cons call calls inductionHypothesis =>
      have later := inductionHypothesis (stands.perform call)
      rwa [List.append_assoc] at later

theorem stands_ofSource (source : String) (calls : List Call) :
    Stands (.ofSource source) (given source calls) ((ofSource source).performAll calls).2 := by
  have start : Stands (.ofSource source) [] (ofSource source) :=
    @Stands.between _ [] (ofSource source) rfl rfl
  exact start.performAll calls

/-! ### Agreement with the whole text -/

/-- The tokens so far begin those of all steps, of which the last one goes on for ever. -/
theorem Stands.tokens_prefix (stands : Stands cursor tokens scanner) {last : Token}
    (isLast : (cursor.steps.map (·.token)).getLast? = some last) :
    tokens <+: cursor.steps.map (·.token) ++ List.replicate tokens.length last := by
  cases stands with
  | @between taken _ steps errors =>
      rw [steps, List.map_append, List.append_assoc]
      exact List.prefix_append _ _
  | @ended lexemes ending place further steps isEnd =>
      have same : last = .closing (.between place place) := by
        rw [steps, List.map_append, List.map_singleton, List.getLast?_concat, isEnd] at isLast
        exact (Option.some.inj isLast).symm
      rw [same, List.length_append, List.length_replicate, Nat.add_comm,
        ← List.replicate_append_replicate, ← List.append_assoc]
      exact List.prefix_append _ _

theorem Stands.errors_prefix (stands : Stands cursor tokens scanner) :
    scanner.errors <+: cursor.steps.flatMap (·.faults) := by
  cases stands with
  | between steps errors =>
      rw [steps, errors, List.flatMap_append]
      exact List.prefix_append _ _
  | ended => exact List.prefix_rfl

/-- Only the last of the steps gives the end of the input, and then nothing is left to report. -/
theorem Stands.errors_of_isEnd (stands : Stands cursor tokens scanner) {token : Token}
    (member : token ∈ tokens) (isEnd : token.isEnd = true) :
    scanner.errors = cursor.steps.flatMap (·.faults) := by
  cases stands with
  | @between taken _ steps errors =>
      exfalso
      obtain ⟨lexemes, ending, shape, cuts, _⟩ := cursor.steps_eq
      have notAll : taken ≠ lexemes ++ [ending] := by
        rintro rfl
        rw [shape, List.self_eq_append_right, scanner.cursor.steps_eq_cons] at steps
        cases steps
      have among : taken <+: lexemes ++ [ending] := ⟨_, (shape.symm.trans steps).symm⟩
      have among := (List.prefix_concat_iff.mp among).resolve_left notAll
      obtain ⟨step, isTaken, rfl⟩ := List.mem_map.mp member
      cases cuts step (among.subset isTaken) with
      | token proper => exact proper.2 (eq_of_beq isEnd)
      | flawed => cases isEnd
  | ended => rfl

/-- No call gives nothing. -/
theorem length_le_given (scanner : Scanner) (calls : List Call) :
    calls.length ≤ (scanner.performAll calls).1.length := by
  induction calls generalizing scanner with
  | nil => exact Nat.le_refl 0
  | cons call calls inductionHypothesis =>
      have later := inductionHypothesis (call.perform scanner).2
      have here : 0 < (call.perform scanner).1.length := by
        cases call with
        | next => exact Nat.one_pos
        | remaining =>
            rw [Call.perform, Scanner.remaining, scanner.cursor.steps_eq_cons]
            exact Nat.succ_pos _
      rw [List.length_cons, Scanner.performAll, List.length_append]
      omega

/-- However tokens are taken from a scanner, they are those of the whole text in order, and then the end of
the input again and again. The faults known so far are the first ones of the whole text; they only grow, and
are all of them once the end of the input has been given. -/
theorem streaming_agrees (source : String) (calls : List Call) :
    ∃ span, (tokenize source).getLast? = some (.closing span) ∧
      given source calls <+:
        tokenize source ++ List.replicate (given source calls).length (.closing span) ∧
      calls.length ≤ (given source calls).length ∧
      reported source calls <+: lexicalErrors source ∧
      (∀ more, reported source calls <+: reported source (calls ++ more)) ∧
      ∀ token ∈ given source calls, token.isEnd = true →
        reported source calls = lexicalErrors source := by
  obtain ⟨tokens, span, shape, _⟩ := tokenize_shape source
  have isLast : (tokenize source).getLast? = some (.closing span) := by
    rw [shape, List.getLast?_concat]
  have stands := stands_ofSource source calls
  rw [lexicalErrors_eq]
  refine ⟨span, isLast, stands.tokens_prefix isLast, length_le_given _ calls, stands.errors_prefix,
    fun more => ?_, fun token => stands.errors_of_isEnd⟩
  rw [reported, reported, performAll_append]
  exact errors_prefix_performAll _ more

/-- Two calls behind the end, in both ways: the comment that is never closed is reported once, and the end
of the input stays where it is. -/
theorem streaming_agrees_behind_end :
    let source := "x # /* é\n"
    let name : Token := ⟨.identifier "x", "x", ⟨0, 1, 1, 1⟩⟩
    let sharp : Token := ⟨.unknown, "#", ⟨2, 3, 1, 3⟩⟩
    let ending : Token := .closing ⟨10, 10, 2, 1⟩
    given source [.next] = [name] ∧ reported source [.next] = [] ∧
      given source [.next, .remaining, .next, .remaining] = [name, sharp, ending, ending, ending] ∧
      ending.isEnd = true ∧
      reported source [.next, .remaining, .next, .remaining] = lexicalErrors source ∧
      lexicalErrors source = [.unknownCharacter '#' sharp.span, .unterminatedComment ⟨4, 10, 1, 5⟩] := by
  intro source name sharp ending
  have tokens : given source [.next, .remaining, .next, .remaining] =
      [name, sharp, ending, ending, ending] := by decide +kernel
  obtain ⟨_, _, _, _, _, _, all⟩ := streaming_agrees source [.next, .remaining, .next, .remaining]
  have known := all ending (by rw [tokens]; simp) rfl
  exact ⟨by decide +kernel, by decide +kernel, tokens, rfl, known, by decide +kernel⟩

end Scanner

end StagedAnalysis
