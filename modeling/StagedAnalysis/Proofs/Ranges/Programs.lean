import StagedAnalysis.Proofs.Lexing.Lexemes
import StagedAnalysis.Proofs.Lexing.Tiling
import StagedAnalysis.Proofs.Ranges.Reading
/-!
The ranges of a tree that is read from a source text.

The tokens of a text are in order, so the ranges of the nodes that stand in them are nested and point
at the text: a node covers what is below it, what is below it comes one behind the other, and a name
or a literal covers the very characters that it is written with.
-/
namespace StagedAnalysis

open Node (Row Stands)
open Grammar (States)

/-! ### The tokens of a text -/

/-- A word that is a name is written as the name. -/
theorem ScanStep.lexeme_of_identifier {place : Position} {first : Char} {rest : List Char}
    {name : String} (kind : (ofLexeme place first rest).token.kind = .identifier name) :
    (ofLexeme place first rest).token.lexeme = name := by
  have known : (ofLexeme place first rest).token.kind ≠ .unknown := by
    rw [kind]
    simp
  have sort := sort_of_ofLexeme known
  rw [kind] at sort
  rw [(ofLexeme_token place first rest).1]
  cases Lexeme.scan_tells sort with
  | identifier => rfl

theorem lexeme_of_identifier {source : String} {token : Token} {name : String}
    (member : token ∈ tokenize source) (kind : token.kind = .identifier name) : token.lexeme = name := by
  have goesOn : token.isEnd = false := by
    rw [Token.isEnd, kind]
    rfl
  obtain ⟨step, _, rfl, before, first, rest, _, _, rfl⟩ := exists_step_of_mem member goesOn
  exact ScanStep.lexeme_of_identifier kind

theorem Expression.identifier_of_ofToken? {token : Token} {written : Identifier}
    (found : ofToken? token = some (.identifier written)) :
    token.kind = .identifier written.name ∧ token.span = written.span := by
  unfold ofToken? at found
  split at found <;> cases found
  rename_i kind
  exact ⟨kind, rfl⟩

/-- The tokens in front of the end of the input are in order. -/
theorem tokenize_inOrder {source : String} {tokens : List Token}
    (within : tokens.Sublist (tokenize source)) (goesOn : ∀ token ∈ tokens, token.isEnd = false) :
    Token.InOrder tokens := by
  obtain ⟨_, ⟨lexemes, span, shape, _, _, written⟩, _, ordered⟩ := tokenize_tiles source
  refine ⟨ordered.sublist within, fun token member => ?_⟩
  have among := within.subset member
  rw [shape] at among
  rcases List.mem_append.mp among with lexeme | last
  · exact (written token lexeme).2
  · have ended := goesOn token member
    cases List.mem_singleton.mp last
    cases ended

/-! ### Programs -/

/-- A statement that is more than a store or a semicolon. -/
def Statement.isConstruct : Statement → Bool
  | assignment _ | empty _ => false
  | _ => true

def Program.HasNode (program : Program) (node : Node) : Prop :=
  ∃ outer ∈ program.statements, Node.Reaches (.statement outer) node

/-- The statements of a program stand in tokens of its text that are in order. -/
theorem Program.stands_of_read {source : String} {program : Program}
    (read : ofTokens (tokenize source) = .ok program) :
    ∃ tokens, tokens <:+: tokenize source ∧ Token.InOrder tokens ∧
      Row Stands tokens (program.statements.map .statement) := by
  obtain ⟨later, given⟩ := ofTokens_eq_ok_iff.mp read
  obtain ⟨tokens, passes, row⟩ := Parse.program_collects (ParseState.ofTokens_ready _) given
  have shape : tokenize source = tokens ++ later.rest := passes.rest
  have within : tokens <:+: tokenize source := shape ▸ (List.prefix_append _ _).isInfix
  exact ⟨tokens, within, tokenize_inOrder within.sublist passes.goesOn, row⟩

/-- Every node of a program stands in tokens of its text that are in order. -/
theorem Program.HasNode.stands {source : String} {program : Program} {node : Node}
    (has : program.HasNode node) (read : ofTokens (tokenize source) = .ok program) :
    ∃ part, part <:+: tokenize source ∧ Token.InOrder part ∧ Stands part node := by
  obtain ⟨outer, member, reaches⟩ := has
  obtain ⟨tokens, within, inOrder, row⟩ := stands_of_read read
  obtain ⟨whole, wholeWithin, stands⟩ := row.of_mem (List.mem_map_of_mem member)
  obtain ⟨part, partWithin, nodeStands⟩ := reaches.stands stands
  have inTokens := partWithin.trans wholeWithin
  exact ⟨part, inTokens.trans within, inOrder.sublist inTokens.sublist, nodeStands⟩

/-- A statement that is more than a store or a semicolon runs from the first to the last of the tokens
that it is derived from. -/
theorem Node.Stands.construct_runs {tree : Statement} {part : List Token}
    (stands : Stands part (.statement tree)) (construct : tree.isConstruct = true)
    (inOrder : Token.InOrder part) :
    ∃ first inner last, part = first :: (inner ++ [last]) ∧
      (∃ level, States .kept level (part.map (·.kind)) tree.unplaced) ∧
      tree.span = first.span.through last.span := by
  cases stands with
  | assignment gap targetStands valueStands => cases construct
  | empty token => cases construct
  | @construct first last inner tree level range derived parts =>
      have isLast : last ∈ inner ++ [last] := List.mem_append_right inner (List.mem_singleton_self last)
      have ordered := (List.pairwise_cons.mp inOrder.ordered).1 last isLast
      have firstWritten := inOrder.written first List.mem_cons_self
      have lastWritten := inOrder.written last (List.mem_cons_of_mem first isLast)
      have whole : tree.span = first.span.through last.span := by
        rw [range]
        exact @Span.merge_through first.span first.span last.span last.span (by omega) (by omega)
      exact ⟨first, inner, last, rfl, ⟨level, derived⟩, whole⟩

/-- The ranges of a program point at its text. Every node begins where a token does and ends where a
token does; it covers what is below it, which comes one behind the other, and so do the statements
of the program. A statement that is more than a store or a semicolon runs from the first to the last
of the tokens that it is derived from. At the range of a name stands the name, and at that of a
literal the lexeme of its token. -/
theorem Program.ranges_nest {source : String} {program : Program}
    (read : ofTokens (tokenize source) = .ok program) :
    (∀ node, program.HasNode node →
      (∃ first ∈ tokenize source, ∃ last ∈ tokenize source,
        node.span = first.span.through last.span) ∧
      node.span.start < node.span.stop ∧
      (∀ child ∈ node.children, node.span.Contains child.span) ∧
      node.children.Pairwise fun first second => first.span.Before second.span) ∧
    (program.statements.Pairwise fun first second => first.span.Before second.span) ∧
    (∀ tree, program.HasNode (.statement tree) → tree.isConstruct = true →
      ∃ before first inner last after,
        tokenize source = before ++ (first :: (inner ++ [last])) ++ after ∧
        (∃ level, States .kept level ((first :: (inner ++ [last])).map (·.kind)) tree.unplaced) ∧
        tree.span = first.span.through last.span) ∧
    (∀ written, program.HasNode (.name written) ∨ program.HasNode (.expression (.identifier written)) →
      source.toUTF8.extract written.span.start written.span.stop = written.name.toUTF8) ∧
    ∀ value span, program.HasNode (.expression (.literal value span)) →
      ∃ token ∈ tokenize source, Expression.ofToken? token = some (.literal value span) ∧
        source.toUTF8.extract span.start span.stop = token.lexeme.toUTF8 := by
  obtain ⟨_, _, slices, _⟩ := tokenize_tiles source
  refine ⟨?_, ?_, ?_, ?_, ?_⟩
  · intro node has
    obtain ⟨part, within, inOrder, stands⟩ := has.stands read
    obtain ⟨first, isFirst, last, isLast, range, bounds⟩ := stands.spans.extremes inOrder
    refine ⟨⟨first, within.subset isFirst, last, within.subset isLast, range⟩, ?_, ?_, ?_⟩
    · rw [range]
      exact Nat.lt_of_le_of_lt (bounds last isLast).1 (inOrder.written last isLast)
    · intro child below
      obtain ⟨inner, innerWithin, childStands⟩ := stands.children.of_mem below
      exact stands.contains inOrder childStands innerWithin
    · exact stands.children.before inOrder
  · obtain ⟨tokens, within, inOrder, row⟩ := stands_of_read read
    have before := row.before inOrder
    rw [List.pairwise_map] at before
    exact before
  · intro tree has construct
    obtain ⟨part, ⟨before, after, shape⟩, inOrder, stands⟩ := has.stands read
    obtain ⟨first, inner, last, rfl, derived, range⟩ := stands.construct_runs construct inOrder
    exact ⟨before, first, inner, last, after, shape.symm, derived, range⟩
  · have named {token : Token} {written : Identifier} (member : token ∈ tokenize source)
        (kind : token.kind = .identifier written.name) (range : token.span = written.span) :
        source.toUTF8.extract written.span.start written.span.stop = written.name.toUTF8 := by
      rw [← range, slices token member, lexeme_of_identifier member kind]
    intro written has
    rcases has with has | has
    · obtain ⟨part, within, _, stands⟩ := has.stands read
      cases stands with
      | @name token text kind => exact named (within.subset (List.mem_singleton_self token)) kind rfl
    · obtain ⟨part, within, _, stands⟩ := has.stands read
      cases stands with
      | @atom token tree found =>
          obtain ⟨kind, range⟩ := Expression.identifier_of_ofToken? found
          exact named (within.subset (List.mem_singleton_self token)) kind range
  · intro value span has
    obtain ⟨part, within, _, stands⟩ := has.stands read
    cases stands with
    | @atom token tree found =>
        have member := within.subset (List.mem_singleton_self token)
        have range : span = token.span := Expression.span_of_ofToken? found
        rw [range]
        exact ⟨token, member, range ▸ found, slices token member⟩

/-- An operator with its operand in parentheses: the range ends inside of them, and still covers the
name. -/
theorem Program.ranges_nest_negation :
    let source := "int x = -(y);"
    let name : Identifier := ⟨"y", ⟨10, 11, 1, 11⟩⟩
    let value := Expression.unary .neg (.identifier name) ⟨8, 11, 1, 9⟩
    let declared : Declaration := ⟨.int, ⟨"x", ⟨4, 5, 1, 5⟩⟩, some value, ⟨0, 13, 1, 1⟩⟩
    ofTokens (tokenize source) = .ok ⟨[.declaration declared]⟩ ∧
      declared.span.Contains value.span ∧ declared.name.span.Before value.span ∧
      source.toUTF8.extract 10 11 = "y".toUTF8 := by
  intro source name value declared
  have tokens : tokenize source =
      [⟨.keyword .intWord, "int", ⟨0, 3, 1, 1⟩⟩, ⟨.identifier "x", "x", ⟨4, 5, 1, 5⟩⟩,
        ⟨.symbol .assign, "=", ⟨6, 7, 1, 7⟩⟩, ⟨.symbol .minus, "-", ⟨8, 9, 1, 9⟩⟩,
        ⟨.symbol .leftParen, "(", ⟨9, 10, 1, 10⟩⟩, ⟨.identifier "y", "y", ⟨10, 11, 1, 11⟩⟩,
        ⟨.symbol .rightParen, ")", ⟨11, 12, 1, 12⟩⟩, ⟨.symbol .semicolon, ";", ⟨12, 13, 1, 13⟩⟩,
        .closing ⟨13, 13, 1, 14⟩] := by
    decide +kernel
  have read : ofTokens (tokenize source) = .ok ⟨[.declaration declared]⟩ := by
    rw [tokens]
    rfl
  obtain ⟨nodes, _, _, names, _⟩ := ranges_nest read
  have below : Node.expression value ∈ (Node.statement (.declaration declared)).children :=
    List.mem_cons_of_mem _ List.mem_cons_self
  have nameBelow : Node.expression (.identifier name) ∈ (Node.expression value).children :=
    List.mem_cons_self
  obtain ⟨_, _, contains, before⟩ := nodes _ ⟨_, List.mem_cons_self, .here⟩
  have slice := names name (.inr ⟨_, List.mem_cons_self, .further below (.further nameBelow .here)⟩)
  exact ⟨read, contains _ below, (List.pairwise_cons.mp before).1 _ List.mem_cons_self, slice⟩

end StagedAnalysis
