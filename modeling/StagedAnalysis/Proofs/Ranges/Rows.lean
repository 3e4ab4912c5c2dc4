import StagedAnalysis.Parsing.Expression
import StagedAnalysis.Proofs.Trees
/-!
Where the nodes of a tree stand among the tokens of its text.

A node stands in a row of tokens if its range runs from the first of them to the last one. The nodes
directly below it stand in parts of that row, one behind the other. Between the parts there may be
tokens that belong to the node itself, and parentheses, which belong to none.

Where the tokens are in the order of the text, ranges are nested like the rows they run over.
-/
namespace StagedAnalysis

def Span.through (first last : Span) : Span :=
  ⟨first.start, last.stop, first.line, first.column⟩

/-- All bytes of the inner range are in the outer one. -/
def Span.Contains (outer inner : Span) : Prop :=
  outer.start ≤ inner.start ∧ inner.stop ≤ outer.stop

def Span.Before (first second : Span) : Prop :=
  first.stop ≤ second.start

theorem Span.merge_through {first firstLast second secondLast : Span}
    (starts : first.start ≤ second.start) (stops : firstLast.stop ≤ secondLast.stop) :
    (first.through firstLast).merge (second.through secondLast) = first.through secondLast := by
  have notEarlier : ¬(second.through secondLast).start < (first.through firstLast).start :=
    Nat.not_lt.mpr starts
  rw [merge, if_neg notEarlier, through, through, through, Nat.max_eq_right stops]

namespace Node

def span : Node → Span
  | statement tree => tree.span
  | expression tree => tree.span
  | name written => written.span

/-! ### Rows of tokens -/

inductive Spans : List Token → Span → Prop
  | token (token : Token) : Spans [token] token.span
  | merge {first second : List Token} {left right : Span} (gap : List Token)
      (firstSpans : Spans first left) (secondSpans : Spans second right) :
      Spans (first ++ (gap ++ second)) (left.merge right)

inductive Row (stands : List Token → Node → Prop) : List Token → List Node → Prop
  | nil (gap : List Token) : Row stands gap []
  | cons {part rest : List Token} {node : Node} {nodes : List Node} (gap : List Token)
      (first : stands part node) (others : Row stands rest nodes) :
      Row stands (gap ++ (part ++ rest)) (node :: nodes)

namespace Row

variable {stands : List Token → Node → Prop} {tokens others : List Token} {node : Node}
  {nodes more : List Node}

theorem prepend (gap : List Token) (row : Row stands tokens nodes) :
    Row stands (gap ++ tokens) nodes := by
  cases row with
  | nil _ => exact .nil _
  | cons inner first rest =>
      rw [← List.append_assoc]
      exact .cons (gap ++ inner) first rest

theorem append (row : Row stands tokens nodes) (rest : Row stands others more) :
    Row stands (tokens ++ others) (nodes ++ more) := by
  induction row with
  | nil gap => exact rest.prepend gap
  | cons gap first _ inductionHypothesis =>
      rw [List.append_assoc, List.append_assoc]
      exact .cons gap first inductionHypothesis

theorem single (opens closes : List Token) {part : List Token} (one : stands part node) :
    Row stands (opens ++ (part ++ closes)) [node] :=
  .cons opens one (.nil closes)

theorem pair (gap : List Token) {first second : List Token} {left right : Node}
    (leftStands : stands first left) (rightStands : stands second right) :
    Row stands (first ++ (gap ++ second)) [left, right] := by
  have row : Row stands ([] ++ (first ++ (gap ++ (second ++ [])))) [left, right] :=
    .cons [] leftStands (single gap [] rightStands)
  rwa [List.append_nil] at row

theorem of_single (row : Row stands tokens [node]) :
    ∃ opens part closes, tokens = opens ++ (part ++ closes) ∧ stands part node := by
  cases row with
  | cons gap first others => exact ⟨gap, _, _, rfl, first⟩

/-- Each of the nodes has its part of the row. -/
theorem of_mem (row : Row stands tokens nodes) (member : node ∈ nodes) :
    ∃ part, part <:+: tokens ∧ stands part node := by
  induction row with
  | nil gap => cases member
  | @cons part rest head nodes gap first others inductionHypothesis =>
      rcases List.mem_cons.mp member with rfl | member
      · exact ⟨part, ⟨gap, rest, List.append_assoc _ _ _⟩, first⟩
      · obtain ⟨inner, within, stands⟩ := inductionHypothesis member
        refine ⟨inner, within.trans ?_, stands⟩
        rw [← List.append_assoc]
        exact (List.suffix_append (gap ++ part) rest).isInfix

end Row

/-! ### Nodes among tokens -/

open Grammar (States)

/-- The node stands in the tokens: its range runs from the first of them to the last one. A statement
that is more than a store or a semicolon stands in all tokens that it is written with. -/
inductive Stands : List Token → Node → Prop
  | name {token : Token} {text : String} (written : token.kind = .identifier text) :
      Stands [token] (.name ⟨text, token.span⟩)
  | atom {token : Token} {tree : Expression} (found : Expression.ofToken? token = some tree) :
      Stands [token] (.expression tree)
  | binary {first second : List Token} {op : BinaryOp} {left right : Expression} (gap : List Token)
      (leftStands : Stands first (.expression left))
      (rightStands : Stands second (.expression right)) :
      Stands (first ++ (gap ++ second))
        (.expression (.binary op left right (left.span.merge right.span)))
  | unary {sign : Token} {part : List Token} {op : UnaryOp} {operand : Expression}
      (gap : List Token) (operandStands : Stands part (.expression operand)) :
      Stands ([sign] ++ (gap ++ part))
        (.expression (.unary op operand (sign.span.merge operand.span)))
  | assignment {first second : List Token} {target : Identifier} {op : AssignOp}
      {value : Expression} (gap : List Token) (targetStands : Stands first (.name target))
      (valueStands : Stands second (.expression value)) :
      Stands (first ++ (gap ++ second))
        (.statement (.assignment ⟨target, op, value, target.span.merge value.span⟩))
  | empty (token : Token) : Stands [token] (.statement (.empty token.span))
  | construct {first last : Token} {inner : List Token} {tree : Statement} {level : Nat}
      (range : tree.span = first.span.merge last.span)
      (derived : States .kept level ((first :: (inner ++ [last])).map (·.kind)) tree.unplaced)
      (parts : Row Stands (first :: (inner ++ [last])) (Node.statement tree).children) :
      Stands (first :: (inner ++ [last])) (.statement tree)

end Node

theorem Expression.span_of_ofToken? {token : Token} {tree : Expression}
    (found : ofToken? token = some tree) : tree.span = token.span := by
  unfold ofToken? at found
  split at found <;> cases found <;> rfl

theorem Expression.children_of_ofToken? {token : Token} {tree : Expression}
    (found : ofToken? token = some tree) : (Node.expression tree).children = [] := by
  unfold ofToken? at found
  split at found <;> cases found <;> rfl

namespace Node

variable {tokens : List Token} {node child : Node}

theorem Stands.spans_name {written : Identifier} (stands : Stands tokens (.name written)) :
    Spans tokens written.span := by
  cases stands with
  | name seen => exact .token _

theorem Stands.spans_expression {tree : Expression} (stands : Stands tokens (.expression tree)) :
    Spans tokens tree.span := by
  induction tree generalizing tokens with
  | literal value span | identifier name =>
      cases stands with
      | atom found =>
          rw [Expression.span_of_ofToken? found]
          exact .token _
  | binary op left right span leftHypothesis rightHypothesis =>
      cases stands with
      | atom found =>
          rw [Expression.span_of_ofToken? found]
          exact .token _
      | binary gap leftStands rightStands =>
          exact .merge gap (leftHypothesis leftStands) (rightHypothesis rightStands)
  | unary op operand span inductionHypothesis =>
      cases stands with
      | atom found =>
          rw [Expression.span_of_ofToken? found]
          exact .token _
      | unary gap operandStands => exact .merge gap (.token _) (inductionHypothesis operandStands)

/-- The range of a node is that of the tokens it stands in. -/
theorem Stands.spans (stands : Stands tokens node) : Spans tokens node.span := by
  cases stands with
  | name seen => exact .token _
  | assignment gap targetStands valueStands =>
      exact .merge gap targetStands.spans_name valueStands.spans_expression
  | empty token => exact .token token
  | @construct first last inner tree level range derived parts =>
      change Spans ([first] ++ (inner ++ [last])) tree.span
      rw [range]
      exact .merge inner (.token first) (.token last)
  | atom found => exact Stands.spans_expression (.atom found)
  | binary gap leftStands rightStands =>
      exact .merge gap leftStands.spans_expression rightStands.spans_expression
  | unary gap operandStands => exact .merge gap (.token _) operandStands.spans_expression

theorem Spans.ne_nil {span : Span} (spans : Spans tokens span) : tokens ≠ [] := by
  induction spans with
  | token token => exact List.cons_ne_nil _ _
  | merge gap firstSpans secondSpans firstHypothesis _ =>
      exact List.append_ne_nil_of_left_ne_nil firstHypothesis _

theorem Stands.ne_nil (stands : Stands tokens node) : tokens ≠ [] :=
  stands.spans.ne_nil

/-- The nodes below a node stand in parts of its tokens. -/
theorem Stands.children (stands : Stands tokens node) : Row Stands tokens node.children := by
  cases stands with
  | name seen => exact .nil _
  | atom found =>
      rw [Expression.children_of_ofToken? found]
      exact .nil _
  | binary gap leftStands rightStands => exact .pair gap leftStands rightStands
  | @unary sign part op operand gap operandStands =>
      have row := Row.single ([sign] ++ gap) [] operandStands
      rwa [List.append_nil, List.append_assoc] at row
  | assignment gap targetStands valueStands => exact .pair gap targetStands valueStands
  | empty token => exact .nil _
  | construct range derived parts => exact parts

end Node

/-! ### Tokens in order -/

structure Token.InOrder (tokens : List Token) : Prop where
  ordered : tokens.Pairwise fun first second => first.span.stop ≤ second.span.start
  written : ∀ token ∈ tokens, token.span.start < token.span.stop

theorem Token.InOrder.sublist {tokens part : List Token} (inOrder : InOrder tokens)
    (within : part.Sublist tokens) : InOrder part :=
  ⟨inOrder.ordered.sublist within, fun token member => inOrder.written token (within.subset member)⟩

namespace Node

variable {tokens : List Token} {node child : Node}

/-- Among tokens in order the range of a row begins where the first token does, with its line and
column, and ends where the last one does. -/
theorem Spans.extremes {span : Span} (spans : Spans tokens span) (inOrder : Token.InOrder tokens) :
    ∃ first ∈ tokens, ∃ last ∈ tokens, span = first.span.through last.span ∧
      ∀ token ∈ tokens, first.span.start ≤ token.span.start ∧ token.span.stop ≤ last.span.stop := by
  induction spans with
  | token token =>
      refine ⟨token, List.mem_singleton_self _, token, List.mem_singleton_self _, rfl, ?_⟩
      intro other member
      cases List.mem_singleton.mp member
      exact ⟨Nat.le_refl _, Nat.le_refl _⟩
  | @merge firstPart secondPart left right gap firstSpans secondSpans firstHypothesis secondHypothesis =>
      obtain ⟨_, restOrdered, acrossFirst⟩ := List.pairwise_append.mp inOrder.ordered
      obtain ⟨_, _, acrossGap⟩ := List.pairwise_append.mp restOrdered
      obtain ⟨first, isFirst, firstLast, isFirstLast, rfl, firstBounds⟩ :=
        firstHypothesis (inOrder.sublist (List.sublist_append_left _ _))
      obtain ⟨second, isSecond, last, isLast, rfl, secondBounds⟩ := secondHypothesis
        (inOrder.sublist ((List.sublist_append_right gap _).trans (List.sublist_append_right _ _)))
      have lastBehind : last ∈ gap ++ secondPart := List.mem_append_right gap isLast
      have secondBehind : second ∈ gap ++ secondPart := List.mem_append_right gap isSecond
      have firstWritten := inOrder.written first (List.mem_append_left _ isFirst)
      have lastWritten := inOrder.written last (List.mem_append_right _ lastBehind)
      refine ⟨first, List.mem_append_left _ isFirst, last, List.mem_append_right _ lastBehind, ?_, ?_⟩
      · have starts := acrossFirst first isFirst second secondBehind
        have stops := acrossFirst firstLast isFirstLast last lastBehind
        exact Span.merge_through (by omega) (by omega)
      · intro token member
        rcases List.mem_append.mp member with inFirst | behind
        · have bounds := firstBounds token inFirst
          have ahead := acrossFirst token inFirst last lastBehind
          omega
        · have ahead := acrossFirst first isFirst token behind
          rcases List.mem_append.mp behind with inGap | inSecond
          · have before := acrossGap token inGap last isLast
            omega
          · have bounds := secondBounds token inSecond
            omega

theorem Stands.contains {part : List Token} (stands : Stands tokens node)
    (inOrder : Token.InOrder tokens) (childStands : Stands part child) (within : part <:+: tokens) :
    node.span.Contains child.span := by
  obtain ⟨first, _, last, _, range, bounds⟩ := stands.spans.extremes inOrder
  obtain ⟨childFirst, isFirst, childLast, isLast, childRange, _⟩ :=
    childStands.spans.extremes (inOrder.sublist within.sublist)
  rw [range, childRange]
  exact ⟨(bounds childFirst (within.subset isFirst)).1, (bounds childLast (within.subset isLast)).2⟩

/-- Nodes in parts one behind the other have ranges one behind the other. -/
theorem Row.before {nodes : List Node} (row : Row Stands tokens nodes)
    (inOrder : Token.InOrder tokens) :
    nodes.Pairwise fun first second => first.span.Before second.span := by
  induction row with
  | nil gap => exact .nil
  | @cons part rest head nodes gap first others inductionHypothesis =>
      have behindGap := inOrder.sublist (List.sublist_append_right gap (part ++ rest))
      have partInOrder := behindGap.sublist (List.sublist_append_left part rest)
      have restInOrder := behindGap.sublist (List.sublist_append_right part rest)
      obtain ⟨_, _, across⟩ := List.pairwise_append.mp behindGap.ordered
      refine List.pairwise_cons.mpr ⟨?_, inductionHypothesis restInOrder⟩
      intro later member
      obtain ⟨inner, within, laterStands⟩ := others.of_mem member
      obtain ⟨_, _, last, isLast, range, _⟩ := first.spans.extremes partInOrder
      obtain ⟨laterFirst, isFirst, _, _, laterRange, _⟩ :=
        laterStands.spans.extremes (restInOrder.sublist within.sublist)
      rw [range, laterRange]
      exact across last isLast laterFirst (within.subset isFirst)

/-- Whatever is reached from a node stands in tokens of that node. -/
theorem Reaches.stands {target : Node} (reaches : Reaches node target) (stands : Stands tokens node) :
    ∃ part, part <:+: tokens ∧ Stands part target := by
  induction reaches generalizing tokens with
  | here => exact ⟨tokens, List.infix_rfl, stands⟩
  | further below onward inductionHypothesis =>
      obtain ⟨part, within, childStands⟩ := stands.children.of_mem below
      obtain ⟨inner, innerWithin, targetStands⟩ := inductionHypothesis childStands
      exact ⟨inner, innerWithin.trans within, targetStands⟩

end Node

end StagedAnalysis
