import StagedAnalysis.Lexeme.Scan
import StagedAnalysis.Proofs.Lexing.Numerals
/-!
How far a lexeme reaches.

A lexeme stays within its line, and it is decided there: what the next lines hold does not matter, and as
soon as the line or the text ends behind it, nor does what stood there before. And it is as long as it
can be: where a text is a token of the language as a whole, the lexeme at its head is no shorter if more
text follows.
-/
namespace StagedAnalysis

/-! ### Runs of characters -/

section Runs

variable {part : Char → Bool} (noFeed : part '\n' = false)

include noFeed

theorem newline_notMem_takeWhile (text : List Char) : '\n' ∉ text.takeWhile part := fun member =>
  Bool.false_ne_true (noFeed ▸ List.mem_takeWhile_imp member)

/-- Where a run stops, it still stops if some of what is behind it is cut off there, or is moved to the
next line. -/
theorem stops_of_cut {text kept left behind : List Char} (shape : text.dropWhile part = kept ++ left)
    (ends : ∀ next ∈ behind.head?, next = '\n') :
    ∀ next ∈ (kept ++ behind).head?, part next = false := by
  cases kept with
  | nil => exact fun next isNext => ends next isNext ▸ noFeed
  | cons first kept =>
      have stops := List.head?_dropWhile_not part text
      rw [shape] at stops
      rintro next ⟨⟩
      exact stops

omit noFeed

variable {behind : List Char} (stops : ∀ next ∈ behind.head?, part next = false)

include stops

theorem takeWhile_behind : behind.takeWhile part = [] ∧ behind.dropWhile part = behind := by
  cases behind with
  | nil => exact ⟨rfl, rfl⟩
  | cons next behind => simp [stops next rfl]

theorem takeWhile_of_stops (text : List Char) :
    (text.takeWhile part ++ behind).takeWhile part = text.takeWhile part := by
  rw [List.takeWhile_append_of_pos fun character => List.mem_takeWhile_imp,
    (takeWhile_behind stops).1, List.append_nil]

theorem dropWhile_of_stops (text : List Char) :
    (text.takeWhile part ++ behind).dropWhile part = behind := by
  rw [List.dropWhile_append_of_pos fun character => List.mem_takeWhile_imp,
    (takeWhile_behind stops).2]

end Runs

/-! ### String literals and symbols -/

namespace Quoted

theorem newline_notMem_split (text : List Char) : '\n' ∉ (split text).text := by
  fun_induction split text <;> simp_all [prepend, eq_comm]

theorem split_of_ends {behind : List Char} (ends : ∀ next ∈ behind.head?, next = '\n') :
    split behind = ⟨[], [], false, behind⟩ ∧
      split ('\\' :: behind) = ⟨['\\'], ['\\'], false, behind⟩ := by
  cases behind with
  | nil => exact ⟨rfl, rfl⟩
  | cons next behind =>
      obtain rfl := ends next rfl
      exact ⟨rfl, rfl⟩

theorem split_of_cut (text : List Char) {behind : List Char}
    (ends : ∀ next ∈ behind.head?, next = '\n') :
    split ((split text).text ++ behind) = { split text with rest := behind } := by
  fun_induction split text with
  | case1 => exact (split_of_ends ends).1
  | case2 rest => rfl
  | case3 rest => exact (split_of_ends ends).1
  | case4 rest => exact (split_of_ends ends).2
  | case5 character rest inLine inductionHypothesis =>
      simp only [prepend, List.cons_append, List.nil_append]
      rw [split, inductionHypothesis]
      · rfl
      · exact inLine
  | case6 character rest noQuote noFeed noFeedBehind noBackslash inductionHypothesis =>
      by_cases backslash : character = '\\'
      · -- a backslash that joins nothing is the last character
        cases rest with
        | nil =>
            subst backslash
            exact (split_of_ends ends).2
        | cons next rest => exact (noBackslash next rest backslash rfl).elim
      · simp only [prepend, List.cons_append, List.nil_append]
        rw [split, inductionHypothesis]
        · rfl
        · exact noQuote
        · exact noFeed
        · exact fun _ same => absurd same backslash
        · exact fun _ _ same => absurd same backslash

/-- A literal that is closed does not look at what follows. -/
theorem split_append_of_closed {text : List Char} (closed : (split text).closed = true)
    (more : List Char) :
    split (text ++ more) = { split text with rest := (split text).rest ++ more } := by
  fun_induction split text with
  | case1 | case3 | case4 => cases closed
  | case2 rest => rfl
  | case5 character rest inLine inductionHypothesis =>
      rw [List.cons_append, List.cons_append, split, inductionHypothesis closed]
      · rfl
      · exact inLine
  | case6 character rest noQuote noFeed noFeedBehind noBackslash inductionHypothesis =>
      have noBackslash : character ≠ '\\' := by
        rintro rfl
        cases rest with
        | nil => cases closed
        | cons next rest => exact noBackslash next rest rfl rfl
      rw [List.cons_append, split, inductionHypothesis closed]
      · rfl
      · exact noQuote
      · exact noFeed
      · exact fun _ same => absurd same noBackslash
      · exact fun _ _ same => absurd same noBackslash

/-- A literal that is not closed goes on up to the end of its line. -/
theorem split_rest_of_unclosed {text : List Char} (unclosed : (split text).closed = false) :
    ∀ next ∈ (split text).rest.head?, next = '\n' := by
  fun_induction split text with
  | case1 => simp
  | case2 rest => cases unclosed
  | case3 rest | case4 rest => exact fun next isNext => (Option.some.inj isNext).symm
  | case5 | case6 =>
      rename_i inductionHypothesis
      exact inductionHypothesis unclosed

theorem split_of_kept {text kept left behind : List Char} (shape : (split text).rest = kept ++ left)
    (ends : ∀ next ∈ behind.head?, next = '\n') :
    split ((split text).text ++ (kept ++ behind)) = { split text with rest := kept ++ behind } := by
  cases closed : (split text).closed with
  | true =>
      have alone : split (split text).text = { split text with rest := [] } := by
        have cut := @split_of_cut text [] (by simp)
        rwa [List.append_nil] at cut
      rw [split_append_of_closed (by rw [alone, closed]), alone, List.nil_append]
  | false =>
      apply split_of_cut
      have feeds := split_rest_of_unclosed closed
      rw [shape] at feeds
      cases kept with
      | nil => exact ends
      | cons first kept => exact feeds

end Quoted

namespace Symbol

theorem newline_notMem_spelling (symbol : Symbol) : '\n' ∉ symbol.spelling.toList := by
  cases symbol <;> decide

theorem ofPair?_eq_none (first : Char) {second : Char} (noSecond : second ∉ ['=', '&', '|']) :
    ofPair? first second = none := by
  unfold ofPair?
  split <;> simp_all

theorem split?_of_noPair {first : Char} {text : List Char}
    (noPair : ∀ second ∈ text.head?, ofPair? first second = none) :
    split? first text = (ofCharacter? first).map (·, text) := by
  cases text with
  | nil => rfl
  | cons second rest => rw [split?, noPair second rfl]

theorem split?_eq_none_iff {first : Char} {text : List Char} :
    split? first text = none ↔
      (∀ second ∈ text.head?, ofPair? first second = none) ∧ ofCharacter? first = none := by
  cases text with
  | nil => simp [split?]
  | cons second rest => cases pair : ofPair? first second <;> simp [split?, pair]

section Kept

variable {first : Char} {text kept left body behind : List Char}
  (ends : ∀ next ∈ behind.head?, next = '\n')

include ends

theorem noPair_of_kept (noPair : ∀ second ∈ (kept ++ left).head?, ofPair? first second = none) :
    ∀ second ∈ (kept ++ behind).head?, ofPair? first second = none := by
  cases kept with
  | nil => exact fun next isNext => ends next isNext ▸ ofPair?_eq_none first (by decide)
  | cons second kept => exact noPair

theorem split?_of_kept {symbol : Symbol} (found : split? first text = some (symbol, kept ++ left))
    (shape : symbol.spelling.toList = first :: body) :
    split? first (body ++ (kept ++ behind)) = some (symbol, kept ++ behind) := by
  by_cases noPair : ∀ second ∈ text.head?, ofPair? first second = none
  · rw [split?_of_noPair noPair] at found
    obtain ⟨single, known, same⟩ := Option.map_eq_some_iff.mp found
    cases same
    obtain ⟨_, rfl⟩ := List.cons.inj ((spelling_of_ofCharacter? known).symm.trans shape)
    rw [List.nil_append, split?_of_noPair (noPair_of_kept ends noPair), known]
    rfl
  · cases text with
    | nil => exact absurd (by simp) noPair
    | cons second rest =>
        rw [split?] at found
        cases pair : ofPair? first second with
        | none => exact absurd (fun next isNext => Option.some.inj isNext ▸ pair) noPair
        | some double =>
            rw [pair] at found
            cases found
            obtain ⟨_, rfl⟩ := List.cons.inj ((spelling_of_ofPair? pair).symm.trans shape)
            rw [List.cons_append, List.nil_append, split?, pair]

theorem split?_eq_none_of_kept (unknown : split? first (kept ++ left) = none) :
    split? first (kept ++ behind) = none := by
  obtain ⟨noPair, noSingle⟩ := split?_eq_none_iff.mp unknown
  exact split?_eq_none_iff.mpr ⟨noPair_of_kept ends noPair, noSingle⟩

end Kept

end Symbol

/-! ### Lexemes -/

namespace Lexeme

theorem isWordPart_newline : isWordPart '\n' = false :=
  rfl

theorem newline_notMem_scan {first : Char} (inLine : first ≠ '\n') (rest : List Char) :
    '\n' ∉ (scan first rest).text := by
  unfold scan
  split
  · exact newline_notMem_takeWhile isWordPart_newline _
  · split
    · rename_i digit
      rw [ofNumeral, List.mem_append, not_or]
      exact ⟨(Numeral.split_wellFormed digit rest).newline_notMem,
        newline_notMem_takeWhile isWordPart_newline _⟩
    · split
      · exact List.not_mem_cons_of_ne_of_not_mem (by decide) (Quoted.newline_notMem_split rest)
      · unfold ofSymbol
        split
        · rename_i symbol behind found
          exact symbol.newline_notMem_spelling
        · simpa using inLine.symm

section Kept

variable {first : Char} {rest body kept left behind : List Char}
  (ends : ∀ next ∈ behind.head?, next = '\n')

include ends

theorem ofWord_of_kept {text : List Char} (shape : (ofWord text).rest = kept ++ left) :
    ofWord ((ofWord text).text ++ (kept ++ behind)) =
      { ofWord text with rest := kept ++ behind } := by
  have stops := stops_of_cut isWordPart_newline shape ends
  simp only [ofWord, takeWhile_of_stops stops, dropWhile_of_stops stops]

theorem ofNumeral_of_kept (isDigit : first.isDigit = true)
    (shape : (ofNumeral (first :: rest)).rest = kept ++ left) :
    ofNumeral ((ofNumeral (first :: rest)).text ++ (kept ++ behind)) =
      { ofNumeral (first :: rest) with rest := kept ++ behind } := by
  have stops := stops_of_cut isWordPart_newline shape ends
  have whole : (Numeral.split (first :: rest)).2 =
      (Numeral.split (first :: rest)).2.takeWhile isWordPart ++ kept ++ left := by
    rw [List.append_assoc, ← shape]
    exact List.takeWhile_append_dropWhile.symm
  have same := Numeral.split_of_cut isDigit whole ends
  rw [List.append_assoc] at same
  simp only [ofNumeral, List.append_assoc, same, takeWhile_of_stops stops, dropWhile_of_stops stops]

theorem ofQuoted_of_kept (shape : (ofQuoted rest).rest = kept ++ left) :
    ofQuoted ((Quoted.split rest).text ++ (kept ++ behind)) =
      { ofQuoted rest with rest := kept ++ behind } := by
  simp only [ofQuoted, Quoted.split_of_kept shape ends]

theorem ofSymbol_of_kept (text : (ofSymbol first rest).text = first :: body)
    (shape : (ofSymbol first rest).rest = kept ++ left) :
    ofSymbol first (body ++ (kept ++ behind)) =
      { ofSymbol first rest with rest := kept ++ behind } := by
  unfold ofSymbol at text shape ⊢
  cases found : Symbol.split? first rest with
  | some split =>
      obtain ⟨symbol, more⟩ := split
      rw [found] at text shape
      obtain rfl : more = kept ++ left := shape
      rw [Symbol.split?_of_kept ends found text]
  | none =>
      rw [found] at text shape
      obtain ⟨_, rfl⟩ := List.cons.inj text
      obtain rfl : rest = kept ++ left := shape
      rw [List.nil_append, Symbol.split?_eq_none_of_kept ends found]

/-- The lexeme at the head of a text is the same if some of what is behind it is cut off there, or is
moved to the next line. -/
theorem scan_of_kept (text : (scan first rest).text = first :: body)
    (shape : (scan first rest).rest = kept ++ left) :
    scan first (body ++ (kept ++ behind)) = { scan first rest with rest := kept ++ behind } := by
  unfold scan at text shape ⊢
  split at text
  · rename_i start
    rw [if_pos start] at shape
    rw [if_pos start, if_pos start, ← List.cons_append, ← text]
    exact ofWord_of_kept ends shape
  · rename_i noStart
    rw [if_neg noStart] at shape
    rw [if_neg noStart, if_neg noStart]
    split at text
    · rename_i isDigit
      rw [if_pos isDigit] at shape
      rw [if_pos isDigit, if_pos isDigit, ← List.cons_append, ← text]
      exact ofNumeral_of_kept ends isDigit shape
    · rename_i noDigit
      rw [if_neg noDigit] at shape
      rw [if_neg noDigit, if_neg noDigit]
      split at text
      · rename_i quote
        rw [if_pos quote] at shape
        rw [if_pos quote, if_pos quote, ← (List.cons.inj text).2]
        exact ofQuoted_of_kept ends shape
      · rename_i noQuote
        rw [if_neg noQuote] at shape
        rw [if_neg noQuote, if_neg noQuote]
        exact ofSymbol_of_kept ends text shape

/-- The lexeme at the head of a text is the same if the line or the text ends behind it. -/
theorem scan_of_cut (text : (scan first rest).text = first :: body) :
    scan first (body ++ behind) = { scan first rest with rest := behind } :=
  scan_of_kept ends text (List.nil_append _).symm

end Kept

section Longest

variable {first : Char} {rest : List Char} {kind : Token.Kind}

theorem ofNumeral_longest (isDigit : first.isDigit = true)
    (whole : (ofNumeral (first :: rest)).rest = [])
    (known : (ofNumeral (first :: rest)).sort = .ok kind) (more : List Char) :
    first :: rest <+: (ofNumeral (first :: (rest ++ more))).text := by
  have wellFormed := Numeral.split_wellFormed isDigit rest
  have parts := Numeral.split_append (first :: rest)
  rw [ofNumeral] at whole known
  generalize Numeral.split (first :: rest) = result at *
  obtain ⟨numeral, behind⟩ := result
  -- nothing runs into a numeral of the language, so nothing is behind it
  have noTail : behind.takeWhile isWordPart = [] := by
    by_contra tail
    rw [← List.isEmpty_iff] at tail
    dsimp only at known
    rw [if_neg tail] at known
    cases known
  have nothing : behind = [] := by
    rw [← List.takeWhile_append_dropWhile (p := isWordPart) (l := behind), noTail]
    exact whole
  have same : numeral.text = first :: rest := by
    rw [← parts, nothing, List.append_nil]
  have begins : numeral.text <+: first :: (rest ++ more) :=
    ⟨more, by rw [same, List.cons_append]⟩
  rw [← same]
  exact (wellFormed.prefix_split begins).trans (List.prefix_append _ _)

theorem ofQuoted_longest (whole : (ofQuoted rest).rest = [])
    (known : (ofQuoted rest).sort = .ok kind) (more : List Char) :
    '"' :: rest <+: (ofQuoted (rest ++ more)).text := by
  have closed : (Quoted.split rest).closed = true := by
    by_contra unclosed
    dsimp only [ofQuoted] at known
    rw [if_neg unclosed] at known
    cases known
  have parts := Quoted.split_append rest
  have nothing : (Quoted.split rest).rest = [] := whole
  rw [nothing, List.append_nil] at parts
  have same : (ofQuoted (rest ++ more)).text = '"' :: rest := by
    simp only [ofQuoted, Quoted.split_append_of_closed closed, parts]
  exact same ▸ List.prefix_rfl

theorem ofSymbol_longest {second : Char} (whole : (ofSymbol first (second :: rest)).rest = [])
    (more : List Char) : first :: second :: rest <+: (ofSymbol first (second :: (rest ++ more))).text := by
  rw [ofSymbol, Symbol.split?] at whole ⊢
  cases pair : Symbol.ofPair? first second with
  | some symbol =>
      rw [pair] at whole
      have nothing : rest = [] := whole
      have same : symbol.spelling.toList = first :: second :: rest := by
        rw [Symbol.spelling_of_ofPair? pair, nothing]
      exact ⟨[], (List.append_nil _).trans same.symm⟩
  | none =>
      rw [pair] at whole
      cases single : Symbol.ofCharacter? first <;> rw [single] at whole <;> cases whole

/-- Where a text is a token of the language as a whole, the lexeme is no shorter if more follows. -/
theorem scan_longest (whole : (scan first rest).rest = [])
    (known : (scan first rest).sort = .ok kind) (more : List Char) :
    first :: rest <+: (scan first (rest ++ more)).text := by
  unfold scan at whole known ⊢
  split at whole
  · rename_i start
    have all : ∀ character ∈ first :: rest, isWordPart character = true :=
      List.dropWhile_eq_nil_iff.mp whole
    rw [if_pos start, ofWord, ← List.cons_append, List.takeWhile_append_of_pos all]
    exact List.prefix_append _ _
  · rename_i noStart
    rw [if_neg noStart] at known ⊢
    split at whole
    · rename_i isDigit
      rw [if_pos isDigit] at known ⊢
      exact ofNumeral_longest isDigit whole known more
    · rename_i noDigit
      rw [if_neg noDigit] at known ⊢
      split at whole
      · rename_i quote
        rw [if_pos quote] at known ⊢
        exact quote ▸ ofQuoted_longest whole known more
      · rename_i noQuote
        rw [if_neg noQuote] at known ⊢
        cases rest with
        | nil =>
            obtain ⟨body, shape⟩ := scan_text_head first more
            rw [scan, if_neg noStart, if_neg noDigit, if_neg noQuote] at shape
            exact ⟨body, shape.symm⟩
        | cons second rest => exact ofSymbol_longest whole more

end Longest

end Lexeme

end StagedAnalysis
