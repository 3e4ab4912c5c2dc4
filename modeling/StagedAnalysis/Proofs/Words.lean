import StagedAnalysis.Proofs.Grammar
/-!
What words of the grammar look like: which tokens they begin with, and that every token in them is
one of the language.
-/
namespace StagedAnalysis

namespace Grammar

open Token (Kind)

variable {limits : Limits} {level : Nat} {word : List Kind}

/-! ### First tokens -/

/-- An expression has a first token, and it is no semicolon. -/
theorem expresses_head {phrase : Phrase} {tree : Expression}
    (derived : Expresses limits phrase level word tree) :
    ∃ kind rest, word = kind :: rest ∧ kind ≠ .symbol .semicolon := by
  induction derived with
  | expression _ _ inductionHypothesis => exact inductionHypothesis
  | single _ inductionHypothesis => exact inductionHypothesis
  | join _ _ _ leftHypothesis _ =>
      obtain ⟨kind, rest, rfl, different⟩ := leftHypothesis
      exact ⟨kind, _, rfl, different⟩
  | prefixed ops _ _ inductionHypothesis =>
      cases ops with
      | nil => exact inductionHypothesis
      | cons op ops => exact ⟨_, _, rfl, by cases op <;> simp [UnaryOp.sign]⟩
  | atom single => exact ⟨_, _, rfl, by cases single <;> simp⟩
  | parentheses _ _ => exact ⟨_, _, rfl, by simp⟩

theorem stores_head {tree : Assignment} (derived : Stores limits level word tree) :
    ∃ name rest, word = .identifier name :: rest := by
  cases derived with
  | store name op derived => exact ⟨name, _, rfl⟩

theorem starts_of_type? {word : Keyword} {ty : Ty} (names : word.type? = some ty) :
    (Kind.keyword word).startsStatement = true := by
  cases word <;> first | rfl | cases names

theorem declares_head {tree : Declaration} (derived : Declares limits level word tree) :
    ∃ kind rest, word = kind :: rest ∧ kind.startsStatement = true := by
  cases derived with
  | plain name names => exact ⟨_, _, rfl, starts_of_type? names⟩
  | initialized name names derived => exact ⟨_, _, rfl, starts_of_type? names⟩

/-- A statement has a first token, and by it one can tell that a statement begins. -/
theorem states_head {tree : Statement} (derived : States limits level word tree) :
    ∃ kind rest, word = kind :: rest ∧ kind.startsStatement = true := by
  cases derived with
  | declaration fits derived => exact declares_head derived
  | assignment fits derived =>
      obtain ⟨name, rest, rfl⟩ := stores_head derived
      exact ⟨_, _, rfl, rfl⟩
  | _ => exact ⟨_, _, rfl, rfl⟩

/-- In front of statements there is no `else`, unless it is behind all of them. -/
theorem statesAll_follow {suffix : List Kind} {trees : List Statement}
    (derived : StatesAll limits level word trees)
    (ends : suffix.headD .endOfInput ≠ .keyword .elseWord) :
    (word ++ suffix).headD .endOfInput ≠ .keyword .elseWord := by
  cases derived with
  | nil => exact ends
  | cons derived _ =>
      obtain ⟨kind, rest, rfl, starts⟩ := states_head derived
      rintro rfl
      cases starts

/-! ### Levels -/

theorem states_level {tree : Statement} (derived : States limits level word tree) :
    level ≤ limits.depth := by
  cases derived <;> assumption

/-! ### Known tokens -/

def Known (word : List Kind) : Prop :=
  ∀ kind ∈ word, kind ≠ .unknown

theorem Known.nil : Known [] :=
  List.forall_mem_nil _

theorem Known.cons {kind : Kind} (known : kind ≠ .unknown) (rest : Known word) :
    Known (kind :: word) :=
  List.forall_mem_cons.mpr ⟨known, rest⟩

theorem Known.append {second : List Kind} (first : Known word) (rest : Known second) :
    Known (word ++ second) :=
  List.forall_mem_append.mpr ⟨first, rest⟩

theorem Known.symbol (sign : Symbol) (rest : Known word) : Known (.symbol sign :: word) :=
  rest.cons (by simp)

theorem Known.keyword (keyword : Keyword) (rest : Known word) : Known (.keyword keyword :: word) :=
  rest.cons (by simp)

theorem Known.identifier (name : String) (rest : Known word) : Known (.identifier name :: word) :=
  rest.cons (by simp)

theorem expresses_known {phrase : Phrase} {tree : Expression}
    (derived : Expresses limits phrase level word tree) : Known word := by
  induction derived with
  | expression _ _ inductionHypothesis => exact inductionHypothesis
  | single _ inductionHypothesis => exact inductionHypothesis
  | join _ _ _ leftKnown rightKnown => exact leftKnown.append (rightKnown.symbol _)
  | prefixed ops _ _ inductionHypothesis =>
      refine .append ?_ inductionHypothesis
      intro kind member
      obtain ⟨op, _, rfl⟩ := List.mem_map.mp member
      simp
  | atom single => exact .cons (by cases single <;> simp) .nil
  | parentheses _ inductionHypothesis =>
      exact (inductionHypothesis.append (Known.nil.symbol _)).symbol _

theorem declares_known {tree : Declaration} (derived : Declares limits level word tree) :
    Known word := by
  cases derived with
  | plain name names => exact ((Known.nil.symbol _).identifier _).keyword _
  | initialized name names derived =>
      exact (((((expresses_known derived.derived).append (Known.nil.symbol _)).symbol
        _).identifier _).keyword _)

theorem stores_known {tree : Assignment} (derived : Stores limits level word tree) :
    Known word := by
  cases derived with
  | store name op derived => exact ((expresses_known derived.derived).symbol _).identifier _

theorem starts_known {tree : LoopStart} (derived : Starts limits level word tree) :
    Known word := by
  cases derived with
  | nothing => exact Known.nil.symbol _
  | declaration derived => exact declares_known derived
  | assignment derived => exact (stores_known derived).append (Known.nil.symbol _)

theorem perhaps_known {α : Type} {rule : List Kind → α → Prop} {tree? : Option α}
    (each : ∀ {word tree}, rule word tree → Known word) (derived : Perhaps rule word tree?) :
    Known word := by
  cases derived with
  | absent => exact .nil
  | present derived => exact each derived

mutual

theorem states_known {level : Nat} {word : List Kind} {tree : Statement}
    (derived : States limits level word tree) : Known word := by
  cases derived with
  | declaration fits derived => exact declares_known derived
  | assignment fits derived => exact (stores_known derived).append (Known.nil.symbol _)
  | ifThen fits tested derived =>
      exact (((expresses_known tested.derived).append
        ((states_known derived).symbol _)).symbol _).keyword _
  | ifElse fits tested derived closed otherDerived =>
      exact (((expresses_known tested.derived).append (((states_known derived).append
        ((states_known otherDerived).keyword _)).symbol _)).symbol _).keyword _
  | whileLoop fits tested derived =>
      exact (((expresses_known tested.derived).append
        ((states_known derived).symbol _)).symbol _).keyword _
  | forLoop fits started tested stepped derived =>
      have testKnown := perhaps_known (fun derived => expresses_known derived.derived) tested
      have stepKnown := perhaps_known stores_known stepped
      exact (((starts_known started).append (testKnown.append
        ((stepKnown.append ((states_known derived).symbol _)).symbol _))).symbol _).keyword _
  | print fits derived =>
      exact (((expresses_known derived.derived).append
        ((Known.nil.symbol _).symbol _)).symbol _).keyword _
  | block fits derived => exact ((statesAll_known derived).append (Known.nil.symbol _)).symbol _
  | empty fits => exact Known.nil.symbol _

theorem statesAll_known {level : Nat} {word : List Kind} {trees : List Statement}
    (derived : StatesAll limits level word trees) : Known word := by
  cases derived with
  | nil => exact .nil
  | cons derived othersDerived =>
      exact (states_known derived).append (statesAll_known othersDerived)

end

end Grammar

end StagedAnalysis
