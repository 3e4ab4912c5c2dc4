import StagedAnalysis.Proofs.Prefixes.Unlimited
/-!
The statements without limits, form by form.

A statement has one of eight forms, and its first token tells which. A form is a row of languages, as
the tokens of a statement come; a statement that could still take an `else` does not stand in front of
one.
-/
namespace StagedAnalysis

open Token (Kind)

namespace Grammar

open Phrases

variable {word : List Kind} {behind kind : Kind}

/-! ### Parts of statements -/

def names : Phrases :=
  oneOf fun kind => ∃ name, kind = .identifier name

def declarations : Phrases :=
  (oneOf fun kind => ∃ ty, kind.type? = some ty).followedBy (names.followedBy
    (((only (.symbol .assign)).followedBy
      ((expressions .expression).followedBy (only (.symbol .semicolon)))).or
        (only (.symbol .semicolon))))

def stores : Phrases :=
  names.followedBy
    ((oneOf fun kind => ∃ op, kind.assignOp? = some op).followedBy (expressions .expression))

def loopStarts : Phrases :=
  (only (.symbol .semicolon)).or
    (declarations.or (stores.followedBy (only (.symbol .semicolon))))

def perhaps (symbol : Symbol) (phrases : Phrases) : Phrases :=
  (nothing (· = .symbol symbol)).or phrases

def statements : Phrases :=
  fun word behind => ∃ limits level tree,
    States limits level word tree ∧ (tree.endsOpen = true → behind ≠ .keyword .elseWord)

def otherwise : Phrases :=
  ((only (.keyword .elseWord)).followedBy statements).or (nothing (· ≠ .keyword .elseWord))

def EndsBlock (kind : Kind) : Prop :=
  kind = .symbol .rightBrace ∨ kind = .endOfInput

theorem Complete.stands {limits : Limits} {level : Nat} {tree : Expression}
    (complete : Complete limits level word tree) (none : behind.binaryOp? = none) :
    expressions .expression word behind :=
  ⟨⟨limits, _, tree, complete.derived⟩, Phrase.endsBefore_of_binaryOp? none⟩

theorem complete_roomy (stands : expressions .expression word behind) :
    ∃ tree, Roomy fun limits level => Complete limits level word tree := by
  obtain ⟨⟨limits, level, tree, derived⟩, _⟩ := stands
  refine ⟨tree, (derived.roomy.inward.and (roomy_fits 0 tree.operatorCount)).mono ?_⟩
  rintro limits level ⟨derived, _, fits⟩
  exact ⟨derived, fits⟩

theorem declarations_iff :
    declarations word behind ↔ ∃ limits level tree, Declares limits level word tree := by
  constructor
  · rintro ⟨_, _, rfl, ⟨kind, ⟨ty, names⟩, rfl⟩, _, _, rfl, ⟨_, ⟨name, rfl⟩, rfl⟩, rest⟩
    obtain ⟨keyword, rfl, names⟩ := Kind.type?_eq_some_iff.mp names
    rcases rest with ⟨_, _, rfl, rfl, _, _, rfl, value, rfl⟩ | rfl
    · obtain ⟨tree, roomy⟩ := complete_roomy value
      obtain ⟨limits, level, complete⟩ := roomy.holds
      exact ⟨limits, level, _, .initialized name names complete⟩
    · exact ⟨⟨0, 0⟩, 0, _, .plain name names⟩
  · rintro ⟨limits, level, tree, derived⟩
    cases derived with
    | plain name names =>
        have isType := Kind.type?_eq_some_iff.mpr ⟨_, rfl, names⟩
        exact ⟨[_], _, rfl, ⟨_, ⟨_, isType⟩, rfl⟩, [_], _, rfl, ⟨_, ⟨name, rfl⟩, rfl⟩, .inr rfl⟩
    | initialized name names complete =>
        have isType := Kind.type?_eq_some_iff.mpr ⟨_, rfl, names⟩
        exact ⟨[_], _, rfl, ⟨_, ⟨_, isType⟩, rfl⟩, [_], _, rfl, ⟨_, ⟨name, rfl⟩, rfl⟩,
          .inl ⟨[_], _, rfl, rfl, _, _, rfl, complete.stands rfl, rfl⟩⟩

theorem stores_roomy (stands : stores word behind) :
    ∃ tree, Roomy fun limits level => Stores limits level word tree := by
  obtain ⟨_, _, rfl, ⟨_, ⟨name, rfl⟩, rfl⟩, _, _, rfl, ⟨kind, ⟨op, found⟩, rfl⟩, value⟩ := stands
  obtain ⟨tree, roomy⟩ := complete_roomy value
  rw [Kind.assignOp?_eq_some_iff.mp found]
  exact ⟨_, roomy.mono fun complete => .store name op complete⟩

theorem Stores.stands {limits : Limits} {level : Nat} {tree : Assignment}
    (derived : Stores limits level word tree) (none : behind.binaryOp? = none) :
    stores word behind := by
  cases derived with
  | store name op complete =>
      exact ⟨[_], _, rfl, ⟨_, ⟨name, rfl⟩, rfl⟩, [_], _, rfl,
        ⟨_, ⟨op, Kind.assignOp?_eq_some_iff.mpr rfl⟩, rfl⟩, complete.stands none⟩

theorem loopStarts_iff :
    loopStarts word behind ↔ ∃ limits level tree, Starts limits level word tree := by
  constructor
  · rintro (rfl | stands | ⟨_, _, rfl, stands, rfl⟩)
    · exact ⟨⟨0, 0⟩, 0, _, .nothing⟩
    · obtain ⟨limits, level, tree, derived⟩ := declarations_iff.mp stands
      exact ⟨limits, level, _, .declaration derived⟩
    · obtain ⟨tree, roomy⟩ := stores_roomy stands
      obtain ⟨limits, level, derived⟩ := roomy.holds
      exact ⟨limits, level, _, .assignment derived⟩
  · rintro ⟨limits, level, tree, derived⟩
    cases derived with
    | nothing => exact .inl rfl
    | declaration derived => exact .inr (.inl (declarations_iff.mpr ⟨limits, level, _, derived⟩))
    | assignment derived => exact .inr (.inr ⟨_, _, rfl, derived.stands rfl, rfl⟩)

theorem perhaps_roomy {α : Type} {symbol : Symbol} {phrases : Phrases}
    (rule : Limits → Nat → List Kind → α → Prop)
    (roomy : ∀ {word behind}, phrases word behind →
      ∃ tree, Roomy fun limits level => rule limits level word tree)
    (stands : perhaps symbol phrases word behind) :
    ∃ tree?, Roomy fun limits level => Perhaps (rule limits level) word tree? := by
  rcases stands with ⟨rfl, _⟩ | stands
  · exact ⟨none, 0, fun _ _ _ _ => .absent⟩
  · obtain ⟨tree, treeRoomy⟩ := roomy stands
    exact ⟨some tree, treeRoomy.mono .present⟩

theorem Perhaps.stands {α : Type} {symbol : Symbol} {phrases : Phrases}
    {rule : List Kind → α → Prop} {tree? : Option α} (derived : Perhaps rule word tree?)
    (stands : ∀ {word tree}, rule word tree → phrases word (.symbol symbol)) :
    perhaps symbol phrases word (.symbol symbol) := by
  cases derived with
  | absent => exact .inl ⟨rfl, rfl⟩
  | present derived => exact .inr (stands derived)

theorem statements_roomy (stands : statements word behind) :
    ∃ tree, (Roomy fun limits level => States limits level word tree) ∧
      (tree.endsOpen = true → behind ≠ .keyword .elseWord) := by
  obtain ⟨limits, level, tree, derived, closed⟩ := stands
  exact ⟨tree, roomy_of_shift derived.shift, closed⟩

theorem statesAll_of_many {closes : Kind → Prop} (stands : Many statements closes word behind) :
    ∃ limits level trees, StatesAll limits level word trees := by
  suffices ∃ trees, Roomy fun limits level => StatesAll limits level word trees by
    obtain ⟨trees, roomy⟩ := this
    obtain ⟨limits, level, derived⟩ := roomy.holds
    exact ⟨limits, level, trees, derived⟩
  induction stands with
  | nil closed => exact ⟨[], 0, fun _ _ _ _ => .nil⟩
  | cons first others inductionHypothesis =>
      obtain ⟨trees, othersRoomy⟩ := inductionHypothesis
      obtain ⟨tree, roomy, _⟩ := statements_roomy first
      exact ⟨tree :: trees, (roomy.and othersRoomy).mono fun both => .cons both.1 both.2⟩

/-- A list of statements is a row of statements, since no statement begins with `else`. -/
theorem many_of_statesAll {closes : Kind → Prop} {limits : Limits} {level : Nat}
    {trees : List Statement} (closed : closes behind) (noElse : behind ≠ .keyword .elseWord)
    (derived : StatesAll limits level word trees) : Many statements closes word behind := by
  induction trees generalizing word with
  | nil =>
      cases derived
      exact .nil closed
  | cons tree trees inductionHypothesis =>
      cases derived with
      | @cons _ taken left _ _ derived othersDerived =>
          refine .cons ⟨limits, level, tree, derived, fun _ => ?_⟩
            (inductionHypothesis othersDerived)
          cases othersDerived with
          | nil => exact noElse
          | cons next _ =>
              obtain ⟨kind, kinds, rfl, starts⟩ := states_head next
              rintro rfl
              cases starts

/-! ### The forms -/

inductive Form where
  | declaration
  | assignment
  | conditional
  | whileLoop
  | forLoop
  | print
  | block
  | empty
  deriving DecidableEq

namespace Form

def of? : Kind → Option Form
  | .keyword .ifWord => some conditional
  | .keyword .whileWord => some whileLoop
  | .keyword .forWord => some forLoop
  | .keyword .printWord => some print
  | .keyword word => word.type?.map fun _ => declaration
  | .identifier _ => some assignment
  | .symbol .leftBrace => some block
  | .symbol .semicolon => some empty
  | _ => none

def phrases : Form → Phrases
  | declaration => declarations
  | assignment => stores.followedBy (only (.symbol .semicolon))
  | conditional =>
      (only (.keyword .ifWord)).followedBy
        (parentheses.followedBy (statements.followedBy otherwise))
  | whileLoop => (only (.keyword .whileWord)).followedBy (parentheses.followedBy statements)
  | forLoop =>
      (only (.keyword .forWord)).followedBy ((only (.symbol .leftParen)).followedBy
        (loopStarts.followedBy ((perhaps .semicolon (expressions .expression)).followedBy
          ((only (.symbol .semicolon)).followedBy ((perhaps .rightParen stores).followedBy
            ((only (.symbol .rightParen)).followedBy statements))))))
  | print =>
      (only (.keyword .printWord)).followedBy
        (parentheses.followedBy (only (.symbol .semicolon)))
  | block =>
      (only (.symbol .leftBrace)).followedBy
        ((Many statements EndsBlock).followedBy (only (.symbol .rightBrace)))
  | empty => only (.symbol .semicolon)

theorem begins (form : Form) : form.phrases.Begins fun kind => of? kind = some form := by
  cases form with
  | declaration =>
      refine (begins_oneOf _).followedBy.mono ?_
      rintro kind ⟨ty, names⟩
      obtain ⟨keyword, rfl, names⟩ := Kind.type?_eq_some_iff.mp names
      cases keyword <;> first | rfl | cases names
  | assignment =>
      refine (begins_oneOf _).followedBy.followedBy.mono ?_
      rintro kind ⟨name, rfl⟩
      rfl
  | empty => exact (begins_only _).mono fun kind same => same ▸ rfl
  | conditional | whileLoop | forLoop | print | block =>
      exact (begins_only _).followedBy.mono fun kind same => same ▸ rfl

end Form

theorem statement_of_form {form : Form} (stands : form.phrases word behind) :
    statements word behind := by
  cases form with
  | declaration =>
      obtain ⟨limits, level, tree, derived⟩ := declarations_iff.mp stands
      obtain ⟨limits, level, derived, fits, _⟩ :=
        ((roomy_of_shift derived.shift).and (roomy_fits 0 0)).holds
      exact ⟨limits, level, _, .declaration fits derived, fun opened => by cases opened⟩
  | assignment =>
      obtain ⟨_, _, rfl, stored, rfl⟩ := stands
      obtain ⟨tree, roomy⟩ := stores_roomy stored
      obtain ⟨limits, level, derived, fits, _⟩ := (roomy.and (roomy_fits 0 0)).holds
      exact ⟨limits, level, _, .assignment fits derived, fun opened => by cases opened⟩
  | conditional =>
      obtain ⟨_, _, rfl, rfl, _, _, rfl, ⟨_, _, rfl, rfl, _, _, rfl, test, rfl⟩, _, _, rfl, first,
        rest⟩ := stands
      obtain ⟨condition, tested⟩ := complete_roomy test
      obtain ⟨branch, formed, closed⟩ := statements_roomy first
      rcases rest with ⟨_, _, rfl, rfl, second⟩ | ⟨rfl, noElse⟩
      · obtain ⟨other, otherFormed, otherClosed⟩ := statements_roomy second
        obtain ⟨limits, level, ⟨fits, _⟩, tested, derived, otherDerived⟩ :=
          ((roomy_fits 0 0).and (tested.and (formed.inward.and otherFormed.inward))).holds
        have notOpen : branch.endsOpen = false := by
          rw [← Bool.not_eq_true]
          exact fun opened => closed opened rfl
        have whole := States.ifElse fits tested derived notOpen otherDerived
        exact ⟨limits, level, .ifElse _ _ _ _, by simpa using whole, otherClosed⟩
      · obtain ⟨limits, level, ⟨fits, _⟩, tested, derived⟩ :=
          ((roomy_fits 0 0).and (tested.and formed.inward)).holds
        have whole := States.ifThen fits tested derived
        exact ⟨limits, level, .ifThen _ _ _, by simpa using whole, fun _ => noElse⟩
  | whileLoop =>
      obtain ⟨_, _, rfl, rfl, _, _, rfl, ⟨_, _, rfl, rfl, _, _, rfl, test, rfl⟩, inner⟩ := stands
      obtain ⟨condition, tested⟩ := complete_roomy test
      obtain ⟨body, formed, closed⟩ := statements_roomy inner
      obtain ⟨limits, level, ⟨fits, _⟩, tested, derived⟩ :=
        ((roomy_fits 0 0).and (tested.and formed.inward)).holds
      have whole := States.whileLoop fits tested derived
      exact ⟨limits, level, .whileLoop _ _ _, by simpa using whole, closed⟩
  | forLoop =>
      obtain ⟨_, _, rfl, rfl, _, _, rfl, rfl, _, _, rfl, start, _, _, rfl, test, _, _, rfl, rfl, _,
        _, rfl, step, _, _, rfl, rfl, inner⟩ := stands
      obtain ⟨_, _, first, started⟩ := loopStarts_iff.mp start
      obtain ⟨condition?, tested⟩ := perhaps_roomy Complete complete_roomy test
      obtain ⟨update?, stepped⟩ := perhaps_roomy Stores stores_roomy step
      obtain ⟨body, formed, closed⟩ := statements_roomy inner
      obtain ⟨limits, level, ⟨fits, _⟩, started, tested, stepped, derived⟩ :=
        ((roomy_fits 0 0).and ((roomy_of_shift started.shift).and
          (tested.and (stepped.and formed.inward)))).holds
      have whole := States.forLoop fits started tested stepped derived
      exact ⟨limits, level, .forLoop _ _ _ _ _, by simpa using whole, closed⟩
  | print =>
      obtain ⟨_, _, rfl, rfl, _, _, rfl, ⟨_, _, rfl, rfl, _, _, rfl, value, rfl⟩, rfl⟩ := stands
      obtain ⟨tree, printed⟩ := complete_roomy value
      obtain ⟨limits, level, derived, fits, _⟩ := (printed.and (roomy_fits 0 0)).holds
      have whole := States.print fits derived
      exact ⟨limits, level, .print _ _, by simpa using whole, fun opened => by cases opened⟩
  | block =>
      obtain ⟨_, _, rfl, rfl, _, _, rfl, inner, rfl⟩ := stands
      obtain ⟨_, _, trees, formed⟩ := statesAll_of_many inner
      obtain ⟨limits, level, derived, fits, _⟩ :=
        ((roomy_of_shift formed.shift).inward.and (roomy_fits 0 0)).holds
      exact ⟨limits, level, _, .block fits derived, fun opened => by cases opened⟩
  | empty =>
      obtain rfl := stands
      exact ⟨⟨0, 0⟩, 0, _, .empty (Nat.le_refl 0), fun opened => by cases opened⟩

theorem form_of_statement (stands : statements word behind) :
    ∃ form : Form, form.phrases word behind := by
  obtain ⟨limits, level, tree, derived, closed⟩ := stands
  cases derived with
  | declaration fits derived =>
      exact ⟨.declaration, declarations_iff.mpr ⟨limits, level, _, derived⟩⟩
  | assignment fits derived => exact ⟨.assignment, _, _, rfl, derived.stands rfl, rfl⟩
  | ifThen fits tested derived =>
      have noElse := closed rfl
      refine ⟨.conditional, [_], _, rfl, rfl, _, _, ?_,
        ⟨[_], _, rfl, rfl, _, _, rfl, tested.stands rfl, rfl⟩, _, [], (List.append_nil _).symm,
        ⟨_, _, _, derived, fun _ => noElse⟩, .inr ⟨rfl, noElse⟩⟩
      simp
  | ifElse fits tested derived notOpen otherDerived =>
      refine ⟨.conditional, [_], _, rfl, rfl, _, _, ?_,
        ⟨[_], _, rfl, rfl, _, _, rfl, tested.stands rfl, rfl⟩, _, _, rfl,
        ⟨_, _, _, derived, fun opened => ?_⟩,
        .inl ⟨[_], _, rfl, rfl, _, _, _, otherDerived, closed⟩⟩
      · simp
      · rw [notOpen] at opened
        cases opened
  | whileLoop fits tested derived =>
      refine ⟨.whileLoop, [_], _, rfl, rfl, _, _, ?_,
        ⟨[_], _, rfl, rfl, _, _, rfl, tested.stands rfl, rfl⟩, _, _, _, derived, closed⟩
      simp
  | forLoop fits started tested stepped derived =>
      exact ⟨.forLoop, [_], _, rfl, rfl, [_], _, rfl, rfl, _, _, rfl,
        loopStarts_iff.mpr ⟨_, _, _, started⟩, _, _, rfl,
        tested.stands fun complete => complete.stands rfl, [_], _, rfl, rfl, _, _, rfl,
        stepped.stands fun derived => derived.stands rfl, [_], _, rfl, rfl, _, _, _, derived, closed⟩
  | print fits complete =>
      refine ⟨.print, [_], _, rfl, rfl, _, _, ?_,
        ⟨[_], _, rfl, rfl, _, _, rfl, complete.stands rfl, rfl⟩, rfl⟩
      simp
  | block fits derived =>
      exact ⟨.block, [_], _, rfl, rfl, _, _, rfl,
        many_of_statesAll (.inl rfl) (by simp) derived, rfl⟩
  | empty fits => exact ⟨.empty, rfl⟩

/-- The first kind tells the form. -/
theorem agree_form {form : Form} (opens : Form.of? kind = some form) :
    AgreeAt kind form.phrases statements where
  widen := statement_of_form
  narrow := by
    intro word behind stands isNext
    obtain ⟨other, otherStands⟩ := form_of_statement stands
    have begins := other.begins word behind otherStands
    rw [isNext, opens] at begins
    cases begins
    exact otherStands

/-- Where the kind opens no form, no statement begins. -/
theorem refuses_statement (opens : Form.of? kind = none) : Refuses statements [] kind := by
  refine refuses_nil [.symbol .semicolon] .endOfInput (@statement_of_form _ _ .empty rfl) ?_
  intro word behind stands isNext
  obtain ⟨form, formStands⟩ := form_of_statement stands
  have begins := form.begins word behind formStands
  rw [isNext, opens] at begins
  cases begins

theorem Form.of?_isSome (kind : Kind) : (Form.of? kind).isSome = kind.startsStatement := by
  cases kind with
  | keyword word => cases word <;> rfl
  | symbol sign => cases sign <;> rfl
  | _ => rfl

end Grammar

end StagedAnalysis
