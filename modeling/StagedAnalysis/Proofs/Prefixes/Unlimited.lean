import StagedAnalysis.Proofs.Reading.Statements
import StagedAnalysis.Proofs.Words
import StagedAnalysis.Proofs.Prefixes.Phrases
/-!
The grammar without limits, as languages that are read with one token of foresight.

A word is of the language without limits if some limits admit it. Whatever is derived within some
limits on some level is derived on every level within all limits that leave as much room, so phrases
that are derived each within its own limits can be put together.
-/
namespace StagedAnalysis

open Token (Kind)

namespace Grammar

/-! ### Room -/

structure Roomier (limits : Limits) (level : Nat) (others : Limits) (other : Nat) : Prop where
  depth : limits.depth + other ≤ others.depth + level
  operators : limits.operators ≤ others.operators

section Shifts

variable {limits others : Limits} {level other : Nat} {word : List Kind}

theorem Roomier.inward (roomier : Roomier limits level others other) :
    Roomier limits (level + 1) others (other + 1) :=
  ⟨by have := roomier.depth; omega, roomier.operators⟩

theorem Roomier.fits (roomier : Roomier limits level others other) (fits : level ≤ limits.depth) :
    other ≤ others.depth := by
  have depth := roomier.depth
  omega

theorem Expresses.shift {phrase : Phrase} {tree : Expression}
    (derived : Expresses limits phrase level word tree) (roomier : Roomier limits level others other) :
    Expresses others phrase other word tree := by
  induction derived generalizing other with
  | expression fits _ inductionHypothesis =>
      exact .expression (roomier.fits fits) (inductionHypothesis roomier)
  | single _ inductionHypothesis => exact .single (inductionHypothesis roomier)
  | join binds _ _ leftHypothesis rightHypothesis =>
      exact .join binds (leftHypothesis roomier) (rightHypothesis roomier)
  | prefixed ops fits _ inductionHypothesis =>
      have depth := roomier.depth
      exact .prefixed ops (by omega) (inductionHypothesis roomier)
  | atom single => exact .atom single
  | parentheses _ inductionHypothesis => exact .parentheses (inductionHypothesis roomier.inward)

theorem Complete.shift {tree : Expression} (complete : Complete limits level word tree)
    (roomier : Roomier limits level others other) : Complete others other word tree :=
  ⟨complete.derived.shift roomier.inward, Nat.le_trans complete.fits roomier.operators⟩

theorem Declares.shift {tree : Declaration} (derived : Declares limits level word tree)
    (roomier : Roomier limits level others other) : Declares others other word tree := by
  cases derived with
  | plain name names => exact .plain name names
  | initialized name names complete => exact .initialized name names (complete.shift roomier)

theorem Stores.shift {tree : Assignment} (derived : Stores limits level word tree)
    (roomier : Roomier limits level others other) : Stores others other word tree := by
  cases derived with
  | store name op complete => exact .store name op (complete.shift roomier)

theorem Starts.shift {tree : LoopStart} (derived : Starts limits level word tree)
    (roomier : Roomier limits level others other) : Starts others other word tree := by
  cases derived with
  | nothing => exact .nothing
  | declaration derived => exact .declaration (derived.shift roomier)
  | assignment derived => exact .assignment (derived.shift roomier)

theorem Perhaps.mono {α : Type} {rule wider : List Kind → α → Prop} {tree? : Option α}
    (derived : Perhaps rule word tree?) (widens : ∀ {word tree}, rule word tree → wider word tree) :
    Perhaps wider word tree? := by
  cases derived with
  | absent => exact .absent
  | present derived => exact .present (widens derived)

mutual

theorem States.shift {limits others : Limits} {level other : Nat} {word : List Kind}
    {tree : Statement} (derived : States limits level word tree)
    (roomier : Roomier limits level others other) : States others other word tree := by
  cases derived with
  | declaration fits derived => exact .declaration (roomier.fits fits) (derived.shift roomier)
  | assignment fits derived => exact .assignment (roomier.fits fits) (derived.shift roomier)
  | ifThen fits tested derived =>
      exact .ifThen (roomier.fits fits) (tested.shift roomier) (derived.shift roomier.inward)
  | ifElse fits tested derived closed otherDerived =>
      exact .ifElse (roomier.fits fits) (tested.shift roomier) (derived.shift roomier.inward) closed
        (otherDerived.shift roomier.inward)
  | whileLoop fits tested derived =>
      exact .whileLoop (roomier.fits fits) (tested.shift roomier) (derived.shift roomier.inward)
  | forLoop fits started tested stepped derived =>
      exact .forLoop (roomier.fits fits) (started.shift roomier)
        (tested.mono fun complete => complete.shift roomier)
        (stepped.mono fun derived => derived.shift roomier) (derived.shift roomier.inward)
  | print fits complete => exact .print (roomier.fits fits) (complete.shift roomier)
  | block fits derived => exact .block (roomier.fits fits) (derived.shift roomier.inward)
  | empty fits => exact .empty (roomier.fits fits)

theorem StatesAll.shift {limits others : Limits} {level other : Nat} {word : List Kind}
    {trees : List Statement} (derived : StatesAll limits level word trees)
    (roomier : Roomier limits level others other) : StatesAll others other word trees := by
  cases derived with
  | nil => exact .nil
  | cons derived othersDerived => exact .cons (derived.shift roomier) (othersDerived.shift roomier)

end

end Shifts

/-- The rule holds wherever the limits leave enough room. -/
def Roomy (rule : Limits → Nat → Prop) : Prop :=
  ∃ room, ∀ limits level, room + level ≤ limits.depth → room ≤ limits.operators → rule limits level

section Roomy

variable {rule other : Limits → Nat → Prop}

theorem roomy_of_shift {limits : Limits} {level : Nat}
    (shift : ∀ {others other}, Roomier limits level others other → rule others other) : Roomy rule := by
  refine ⟨limits.depth + limits.operators, fun others other depth operators => shift ⟨?_, ?_⟩⟩
  · omega
  · omega

theorem Roomy.holds (roomy : Roomy rule) : ∃ limits level, rule limits level := by
  obtain ⟨room, holds⟩ := roomy
  exact ⟨⟨room, room⟩, 0, holds _ _ (Nat.le_refl _) (Nat.le_refl _)⟩

theorem Roomy.and (roomy : Roomy rule) (otherRoomy : Roomy other) :
    Roomy fun limits level => rule limits level ∧ other limits level := by
  obtain ⟨room, holds⟩ := roomy
  obtain ⟨otherRoom, otherHolds⟩ := otherRoomy
  refine ⟨room + otherRoom, fun limits level depth operators => ⟨?_, ?_⟩⟩
  · exact holds limits level (by omega) (by omega)
  · exact otherHolds limits level (by omega) (by omega)

theorem Roomy.mono (roomy : Roomy rule)
    (implies : ∀ {limits level}, rule limits level → other limits level) : Roomy other := by
  obtain ⟨room, holds⟩ := roomy
  exact ⟨room, fun limits level depth operators => implies (holds limits level depth operators)⟩

theorem Roomy.inward (roomy : Roomy rule) : Roomy fun limits level => rule limits (level + 1) := by
  obtain ⟨room, holds⟩ := roomy
  refine ⟨room + 1, fun limits level depth operators => ?_⟩
  exact holds limits (level + 1) (by omega) (by omega)

/-- Any number of levels and of operators fits if there is enough room. -/
theorem roomy_fits (levels count : Nat) :
    Roomy fun limits level => level + levels ≤ limits.depth ∧ count ≤ limits.operators := by
  refine ⟨levels + count, fun limits level depth operators => ?_⟩
  omega

end Roomy

/-! ### Expressions -/

open Phrases

section Expressions

variable {word : List Kind} {behind : Kind} {phrase : Phrase} {precedence : Precedence}

def expressions (phrase : Phrase) : Phrases :=
  fun word behind =>
    (∃ limits level tree, Expresses limits phrase level word tree) ∧ phrase.EndsBefore behind

def IsAtom (kind : Kind) : Prop :=
  ∃ tree, Atom kind tree

def IsSign (kind : Kind) : Prop :=
  ∃ op, kind.unaryOp? = some op

def IsOperator (precedence : Precedence) (kind : Kind) : Prop :=
  ∃ op, kind.binaryOp? = some op ∧ op.precedence = precedence

def parentheses : Phrases :=
  (only (.symbol .leftParen)).followedBy
    ((expressions .expression).followedBy (only (.symbol .rightParen)))

def continuations (precedence : Precedence) : Phrases :=
  Many ((oneOf (IsOperator precedence)).followedBy (expressions (operandOf precedence)))
    (¬IsOperator precedence ·)

theorem Expresses.roomy {limits : Limits} {level : Nat} {tree : Expression}
    (derived : Expresses limits phrase level word tree) :
    Roomy fun limits level => Expresses limits phrase level word tree :=
  roomy_of_shift derived.shift

theorem ends_suits {kind : Kind} (none : kind.binaryOp? = none) : (expressions phrase).Suits kind :=
  fun _ _ stands => ⟨stands.1, Phrase.endsBefore_of_binaryOp? none⟩

theorem expressions_expression : expressions .expression = expressions (.joined .disjunction) := by
  funext word behind
  refine propext ⟨?_, ?_⟩
  · rintro ⟨⟨limits, level, tree, derived⟩, ends⟩
    cases derived with
    | expression fits derived => exact ⟨⟨limits, level, tree, derived⟩, ends⟩
  · rintro ⟨⟨limits, level, tree, derived⟩, ends⟩
    obtain ⟨limits, level, derived, fits, _⟩ := (derived.roomy.and (roomy_fits 0 0)).holds
    exact ⟨⟨limits, level, tree, .expression fits derived⟩, ends⟩

theorem expressions_operand : expressions .operand = (oneOf IsAtom).or parentheses := by
  funext word behind
  refine propext ⟨?_, ?_⟩
  · rintro ⟨⟨limits, level, tree, derived⟩, ends⟩
    cases derived with
    | atom single => exact .inl ⟨_, ⟨tree, single⟩, rfl⟩
    | parentheses derived =>
        have inside : expressions .expression _ (.symbol .rightParen) :=
          ⟨⟨limits, _, tree, derived⟩, Phrase.endsBefore_of_binaryOp? rfl⟩
        exact .inr ⟨_, _, rfl, rfl, _, _, rfl, inside, rfl⟩
  · rintro (⟨kind, ⟨tree, single⟩, rfl⟩ |
      ⟨_, _, rfl, rfl, word, _, rfl, ⟨⟨limits, level, tree, derived⟩, _⟩, rfl⟩)
    · exact ⟨⟨⟨0, 0⟩, 0, tree, .atom single⟩, Phrase.operand_endsBefore behind⟩
    · obtain ⟨limits, level, derived⟩ := derived.roomy.inward.holds
      exact ⟨⟨limits, level, tree, .parentheses derived⟩, Phrase.operand_endsBefore behind⟩

/-- A run of operators ends in front of what is none. -/
theorem many_signs_iff :
    Many (oneOf IsSign) (¬IsSign ·) word behind ↔
      ∃ ops : List UnaryOp, word = ops.map (fun op => .symbol op.sign) ∧ ¬IsSign behind := by
  constructor
  · intro stands
    induction stands with
    | nil closed => exact ⟨[], rfl, closed⟩
    | cons first others inductionHypothesis =>
        obtain ⟨kind, ⟨op, found⟩, rfl⟩ := first
        obtain ⟨ops, rfl, closed⟩ := inductionHypothesis
        rw [Kind.unaryOp?_eq_some_iff.mp found]
        exact ⟨op :: ops, rfl, closed⟩
  · rintro ⟨ops, rfl, closed⟩
    induction ops with
    | nil => exact .nil closed
    | cons op ops inductionHypothesis =>
        have sign : IsSign (.symbol op.sign) := ⟨op, Kind.unaryOp?_eq_some_iff.mpr rfl⟩
        exact .cons ⟨_, sign, rfl⟩ inductionHypothesis

theorem expressions_prefixed :
    expressions .prefixed = (Many (oneOf IsSign) (¬IsSign ·)).followedBy (expressions .operand) := by
  funext word behind
  refine propext ⟨?_, ?_⟩
  · rintro ⟨⟨limits, level, tree, derived⟩, ends⟩
    cases derived with
    | prefixed ops fits derived =>
        obtain ⟨kind, kinds, rfl, noSign⟩ := operand_head derived
        have closed : ¬IsSign kind := by
          rintro ⟨op, found⟩
          rw [noSign] at found
          cases found
        exact ⟨_, _, rfl, many_signs_iff.mpr ⟨ops, rfl, closed⟩,
          ⟨limits, level, _, derived⟩, Phrase.operand_endsBefore behind⟩
  · rintro ⟨_, operand, rfl, signs, ⟨limits, level, tree, derived⟩, ends⟩
    obtain ⟨ops, rfl, closed⟩ := many_signs_iff.mp signs
    obtain ⟨limits, level, derived, fits, _⟩ := (derived.roomy.and (roomy_fits ops.length 0)).holds
    exact ⟨⟨limits, level, _, .prefixed ops fits derived⟩, Phrase.operand_endsBefore behind⟩

/-- What ends the operands of a precedence and is none of its operators ends what they join. -/
theorem endsBefore_joined (ends : (operandOf precedence).EndsBefore behind)
    (closed : ¬IsOperator precedence behind) : (Phrase.joined precedence).EndsBefore behind := by
  intro op found
  have looser := ends op found
  have differs : op.precedence ≠ precedence := fun same => closed ⟨op, found, same⟩
  revert looser differs
  generalize op.precedence = other
  cases precedence <;> cases other <;> decide

theorem endsBefore_operator {op : BinaryOp} (binds : op.precedence = precedence) :
    (operandOf precedence).EndsBefore (.symbol op.sign) := by
  intro other found
  cases Kind.binaryOp?_eq_some_iff.mpr rfl |>.symm.trans found
  rw [binds]
  exact rank_lt_operandOf precedence

/-- Joined operands are the first of them, and each other one behind its operator. -/
theorem joined_splits {limits : Limits} {level : Nat} {left : List Kind} {tree : Expression}
    (derived : Expresses limits (.joined precedence) level word tree)
    (ends : (operandOf precedence).EndsBefore (left.headD behind))
    (others : continuations precedence left behind) :
    ((expressions (operandOf precedence)).followedBy (continuations precedence))
      (word ++ left) behind := by
  generalize same : Phrase.joined precedence = phrase at derived
  induction derived generalizing left with
  | single derived =>
      cases same
      exact ⟨_, left, rfl, ⟨⟨limits, _, _, derived⟩, ends⟩, others⟩
  | @join _ level first second _ _ op binds _ rightDerived leftHypothesis _ =>
      cases same
      have operator : IsOperator precedence (.symbol op.sign) :=
        ⟨op, Kind.binaryOp?_eq_some_iff.mpr rfl, binds⟩
      have right : ((oneOf (IsOperator precedence)).followedBy (expressions (operandOf precedence)))
          (.symbol op.sign :: second) (left.headD behind) :=
        ⟨[_], second, rfl, ⟨_, operator, rfl⟩, ⟨limits, level, _, rightDerived⟩, ends⟩
      have leftEnds : (operandOf precedence).EndsBefore
          ((.symbol op.sign :: second ++ left).headD behind) := endsBefore_operator binds
      have more := leftHypothesis leftEnds (.cons right others) rfl
      simpa only [List.append_assoc, List.cons_append] using more
  | expression | prefixed | atom | parentheses => cases same

theorem joined_of_continuations {left : List Kind}
    (stands : ∃ limits level tree, Expresses limits (.joined precedence) level word tree)
    (ends : (operandOf precedence).EndsBefore (left.headD behind))
    (others : continuations precedence left behind) :
    expressions (.joined precedence) (word ++ left) behind := by
  induction others generalizing word with
  | nil closed =>
      rw [List.append_nil]
      exact ⟨stands, endsBefore_joined ends closed⟩
  | cons right others inductionHypothesis =>
      obtain ⟨_, second, rfl, ⟨kind, ⟨op, found, binds⟩, rfl⟩,
        ⟨otherLimits, otherLevel, rightTree, rightDerived⟩, rightEnds⟩ := right
      obtain ⟨limits, level, tree, derived⟩ := stands
      obtain ⟨limits, level, leftDerived, rightDerived⟩ :=
        (derived.roomy.and rightDerived.roomy).holds
      have joined := Expresses.join binds leftDerived rightDerived
      have more := inductionHypothesis ⟨limits, level, _, joined⟩ rightEnds
      rw [← Kind.binaryOp?_eq_some_iff.mp found] at more
      simpa only [List.append_assoc, List.cons_append, List.nil_append] using more

theorem expressions_joined (precedence : Precedence) :
    expressions (.joined precedence) =
      (expressions (operandOf precedence)).followedBy (continuations precedence) := by
  funext word behind
  refine propext ⟨?_, ?_⟩
  · rintro ⟨⟨limits, level, tree, derived⟩, ends⟩
    have closed : ¬IsOperator precedence behind := by
      rintro ⟨op, found, binds⟩
      exact Nat.lt_irrefl _ (binds ▸ ends op found)
    have tighter : (operandOf precedence).EndsBefore behind :=
      fun op found => Nat.lt_trans (ends op found) (rank_lt_operandOf precedence)
    have splits := @joined_splits _ _ _ _ _ [] _ derived tighter (.nil closed)
    rwa [List.append_nil] at splits
  · rintro ⟨first, left, rfl, ⟨⟨limits, level, tree, derived⟩, ends⟩, others⟩
    exact joined_of_continuations ⟨limits, level, tree, .single derived⟩ ends others

end Expressions

end Grammar

end StagedAnalysis
