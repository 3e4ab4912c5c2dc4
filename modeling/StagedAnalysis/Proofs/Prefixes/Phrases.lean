import StagedAnalysis.Token
/-!
Words that are read with one token of foresight.

A language is given by its words together with the kind of the token that may come behind them, which
is the end of the input if none does. For a reader that goes from left to right two things matter. A
word is *settled* by what comes next if nothing else in front of it can be a word. A word is *refused*
by what comes next if it begins some word, but none that goes on with what comes next.

Both are known of a row of two languages if they are known of each of them, so a reader can be
followed step by step, and the language of what is left need not be computed.
-/
namespace StagedAnalysis

open Token (Kind)

/-- Words, each with a kind that may come behind it. -/
abbrev Phrases := List Kind → Kind → Prop

def Token.Kind.ahead (left : List Kind) : Kind :=
  left.headD .endOfInput

namespace Phrases

/-! ### Languages -/

def only (kind : Kind) : Phrases :=
  fun word _ => word = [kind]

def oneOf (chosen : Kind → Prop) : Phrases :=
  fun word _ => ∃ kind, chosen kind ∧ word = [kind]

def nothing (allowed : Kind → Prop) : Phrases :=
  fun word behind => word = [] ∧ allowed behind

/-- A word of the first language and then one of the second, in front of which the first may stand. -/
def followedBy (first rest : Phrases) : Phrases :=
  fun word behind => ∃ taken left,
    word = taken ++ left ∧ first taken (left.headD behind) ∧ rest left behind

def or (first second : Phrases) : Phrases :=
  fun word behind => first word behind ∨ second word behind

inductive Many (each : Phrases) (closes : Kind → Prop) : Phrases
  | nil {behind : Kind} (closed : closes behind) : Many each closes [] behind
  | cons {taken left : List Kind} {behind : Kind} (first : each taken (left.headD behind))
      (others : Many each closes left behind) : Many each closes (taken ++ left) behind

/-! ### Settled and refused words -/

structure Settles (phrases : Phrases) (word : List Kind) (next : Kind) : Prop where
  phrase : phrases word next
  unique : ∀ more other left, Kind.ahead more = next → phrases other (Kind.ahead left) →
    other ++ left = word ++ more → other = word

/-- The word begins one of the language, but in front of the kind there is none. -/
structure Refuses (phrases : Phrases) (word : List Kind) (next : Kind) : Prop where
  viable : ∃ more behind, phrases (word ++ more) behind
  none : ∀ more other left, Kind.ahead more = next → phrases other (Kind.ahead left) →
    other ++ left ≠ word ++ more

structure AgreeAt (next : Kind) (narrow wide : Phrases) : Prop where
  widen : ∀ {word behind}, narrow word behind → wide word behind
  narrow : ∀ {word behind}, wide word behind → word.headD behind = next → narrow word behind

section Theory

variable {first rest phrases : Phrases} {word other left more taken : List Kind} {next behind : Kind}

theorem ahead_append (word left : List Kind) :
    Kind.ahead (word ++ left) = word.headD (Kind.ahead left) := by
  cases word <;> rfl

theorem headD_append (word left : List Kind) (behind : Kind) :
    (word ++ left).headD behind = word.headD (left.headD behind) := by
  cases word <;> rfl

theorem Settles.of_agree {wide : Phrases} (settles : Settles phrases word next)
    (agree : AgreeAt (word.headD next) phrases wide) : Settles wide word next where
  phrase := agree.widen settles.phrase
  unique := by
    intro more other left isNext stands same
    refine settles.unique more other left isNext (agree.narrow stands ?_) same
    rw [← ahead_append, same, ahead_append, isNext]

theorem Refuses.of_agree {wide : Phrases} (refuses : Refuses phrases word next)
    (agree : AgreeAt (word.headD next) phrases wide) : Refuses wide word next where
  viable := by
    obtain ⟨more, behind, viable⟩ := refuses.viable
    exact ⟨more, behind, agree.widen viable⟩
  none := by
    intro more other left isNext stands same
    refine refuses.none more other left isNext (agree.narrow stands ?_) same
    rw [← ahead_append, same, ahead_append, isNext]

/-! ### Rows of languages -/

/-- Some word of the second language can stand behind every word of the first. -/
def Meets (first rest : Phrases) : Prop :=
  ∃ word behind, rest word behind ∧
    ∀ taken next, first taken next → first taken (word.headD behind)

/-- A row of which the first word is settled can only be split behind that word. -/
theorem Settles.split {start finish suffix : List Kind} (settles : Settles first taken (left.headD next))
    (isNext : Kind.ahead more = next) (stands : first start (finish.headD (Kind.ahead suffix)))
    (same : (start ++ finish) ++ suffix = (taken ++ left) ++ more) :
    start = taken ∧ finish ++ suffix = left ++ more := by
  rw [List.append_assoc, List.append_assoc] at same
  have startSame : start = taken := by
    refine settles.unique (left ++ more) start (finish ++ suffix) ?_ ?_ same
    · rw [ahead_append, isNext]
    · rwa [ahead_append]
  rw [startSame] at same
  exact ⟨startSame, List.append_cancel_left same⟩

theorem Settles.followedBy (firstSettles : Settles first taken (left.headD next))
    (restSettles : Settles rest left next) :
    Settles (first.followedBy rest) (taken ++ left) next where
  phrase := ⟨taken, left, rfl, firstSettles.phrase, restSettles.phrase⟩
  unique := by
    rintro more _ suffix isNext ⟨start, finish, rfl, startStands, finishStands⟩ same
    obtain ⟨rfl, finishSame⟩ := firstSettles.split isNext startStands same
    rw [restSettles.unique more finish suffix isNext finishStands finishSame]

/-- What the first language refuses, the row refuses. -/
theorem Refuses.followedBy_left (refuses : Refuses first word next) (meets : Meets first rest) :
    Refuses (first.followedBy rest) word next where
  viable := by
    obtain ⟨more, behind, viable⟩ := refuses.viable
    obtain ⟨finish, last, stands, goesOn⟩ := meets
    exact ⟨more ++ finish, last, word ++ more, finish, (List.append_assoc ..).symm, goesOn _ _ viable,
      stands⟩
  none := by
    rintro more _ suffix isNext ⟨start, finish, rfl, startStands, finishStands⟩ same
    rw [List.append_assoc] at same
    refine refuses.none more start (finish ++ suffix) isNext ?_ same
    rwa [ahead_append]

/-- What the second language refuses behind a settled word of the first, the row refuses. -/
theorem Refuses.followedBy_right (settles : Settles first taken (left.headD next))
    (refuses : Refuses rest left next) (meets : Meets first rest) :
    Refuses (first.followedBy rest) (taken ++ left) next where
  viable := by
    cases left with
    | nil =>
        obtain ⟨finish, last, stands, goesOn⟩ := meets
        exact ⟨finish, last, taken, finish, by rw [List.append_nil], goesOn _ _ settles.phrase,
          stands⟩
    | cons kind kinds =>
        obtain ⟨more, behind, viable⟩ := refuses.viable
        exact ⟨more, behind, taken, kind :: kinds ++ more, List.append_assoc .., settles.phrase,
          viable⟩
  none := by
    rintro more _ suffix isNext ⟨start, finish, rfl, startStands, finishStands⟩ same
    obtain ⟨rfl, finishSame⟩ := settles.split isNext startStands same
    exact refuses.none more finish suffix isNext finishStands finishSame

theorem followedBy_assoc (first second third : Phrases) :
    (first.followedBy second).followedBy third = first.followedBy (second.followedBy third) := by
  funext word behind
  refine propext ⟨?_, ?_⟩
  · rintro ⟨_, last, rfl, ⟨taken, left, rfl, firstStands, secondStands⟩, thirdStands⟩
    rw [← headD_append] at firstStands
    exact ⟨taken, left ++ last, List.append_assoc .., firstStands, left, last, rfl, secondStands,
      thirdStands⟩
  · rintro ⟨taken, _, rfl, firstStands, left, last, rfl, secondStands, thirdStands⟩
    rw [headD_append] at firstStands
    exact ⟨taken ++ left, last, (List.append_assoc ..).symm, ⟨taken, left, rfl, firstStands,
      secondStands⟩, thirdStands⟩

/-! ### Single words -/

theorem settles_only (kind next : Kind) : Settles (only kind) [kind] next where
  phrase := rfl
  unique _ _ _ _ stands _ := stands

/-- Where nothing else can stand in front of the kind, the empty word is settled. -/
theorem settles_nil (stands : phrases [] next)
    (empty : ∀ word behind, phrases word behind → word.headD behind = next → word = []) :
    Settles phrases [] next where
  phrase := stands
  unique := by
    intro more other left isNext otherStands same
    refine empty other _ otherStands ?_
    rw [← ahead_append, same]
    exact isNext

/-- Where no word begins with the kind, the empty word is refused. -/
theorem refuses_nil (word : List Kind) (behind : Kind) (stands : phrases word behind)
    (differs : ∀ word behind, phrases word behind → word.headD behind ≠ next) :
    Refuses phrases [] next where
  viable := ⟨word, behind, stands⟩
  none := by
    intro more other left isNext otherStands same
    refine differs other _ otherStands ?_
    rw [← ahead_append, same]
    exact isNext

/-! ### First kinds -/

/-- What comes first, in the word or behind it, is one of these kinds. -/
def Begins (phrases : Phrases) (first : Kind → Prop) : Prop :=
  ∀ word behind, phrases word behind → first (word.headD behind)

def Opens (phrases : Phrases) (kind : Kind) : Prop :=
  ∃ word behind, phrases (kind :: word) behind

/-- The kind may stand behind every word. -/
def Suits (phrases : Phrases) (kind : Kind) : Prop :=
  ∀ word behind, phrases word behind → phrases word kind

variable {second : Phrases} {kind : Kind} {chosen closes : Kind → Prop}

theorem begins_only (kind : Kind) : (only kind).Begins (· = kind) := by
  rintro word behind rfl
  rfl

theorem begins_oneOf (chosen : Kind → Prop) : (oneOf chosen).Begins chosen := by
  rintro word behind ⟨kind, isChosen, rfl⟩
  exact isChosen

theorem begins_nothing (allowed : Kind → Prop) : (nothing allowed).Begins allowed := by
  rintro word behind ⟨rfl, isAllowed⟩
  exact isAllowed

theorem Begins.followedBy (begins : first.Begins chosen) : (first.followedBy rest).Begins chosen := by
  rintro _ behind ⟨taken, left, rfl, stands, _⟩
  rw [headD_append]
  exact begins taken _ stands

theorem Begins.mono {wider : Kind → Prop} (begins : first.Begins chosen)
    (widens : ∀ kind, chosen kind → wider kind) : first.Begins wider :=
  fun word behind stands => widens _ (begins word behind stands)

theorem Begins.or (begins : first.Begins chosen) (otherBegins : second.Begins chosen) :
    (first.or second).Begins chosen := by
  rintro word behind (stands | stands)
  · exact begins word behind stands
  · exact otherBegins word behind stands

theorem opens_only (kind : Kind) : (only kind).Opens kind :=
  ⟨[], .endOfInput, rfl⟩

theorem meets_of_opens (opens : rest.Opens kind) (suits : first.Suits kind) : Meets first rest := by
  obtain ⟨word, behind, stands⟩ := opens
  exact ⟨kind :: word, behind, stands, suits⟩

theorem suits_only (kind next : Kind) : (only kind).Suits next :=
  fun _ _ stands => stands

theorem meets_only (kind : Kind) {next : Kind} (opens : rest.Opens next) : Meets (only kind) rest :=
  meets_of_opens opens (suits_only kind next)

theorem Opens.followedBy (opens : first.Opens kind) (meets : Meets first rest) :
    (first.followedBy rest).Opens kind := by
  obtain ⟨taken, next, stands⟩ := opens
  obtain ⟨left, behind, leftStands, goesOn⟩ := meets
  exact ⟨taken ++ left, behind, kind :: taken, left, rfl, goesOn _ _ stands, leftStands⟩

theorem suits_oneOf (chosen : Kind → Prop) (next : Kind) : (oneOf chosen).Suits next :=
  fun _ _ stands => stands

theorem Suits.followedBy (suits : rest.Suits kind) (notEmpty : ∀ behind, ¬rest [] behind) :
    (first.followedBy rest).Suits kind := by
  rintro _ behind ⟨taken, left, rfl, stands, leftStands⟩
  cases left with
  | nil => exact absurd leftStands (notEmpty behind)
  | cons head tail => exact ⟨taken, head :: tail, rfl, stands, suits _ _ leftStands⟩

theorem Suits.or (suits : first.Suits kind) (otherSuits : second.Suits kind) :
    (first.or second).Suits kind := by
  rintro word behind (stands | stands)
  · exact .inl (suits _ _ stands)
  · exact .inr (otherSuits _ _ stands)

/-! ### Choices by the first kind -/

theorem agree_or_left (differs : second.Begins (· ≠ next)) : AgreeAt next first (first.or second) where
  widen := .inl
  narrow := by
    rintro word behind (stands | stands) isNext
    · exact stands
    · exact absurd isNext (differs word behind stands)

theorem agree_or_right (differs : first.Begins (· ≠ next)) :
    AgreeAt next second (first.or second) where
  widen := .inr
  narrow := by
    rintro word behind (stands | stands) isNext
    · exact absurd isNext (differs word behind stands)
    · exact stands

theorem agree_oneOf (isChosen : chosen next) : AgreeAt next (only next) (oneOf chosen) where
  widen := by
    rintro word behind rfl
    exact ⟨next, isChosen, rfl⟩
  narrow := by
    rintro word behind ⟨kind, _, rfl⟩ isNext
    rw [← isNext]
    rfl

/-- A language of rows may be narrowed in its first part. -/
theorem AgreeAt.followedBy {narrow wide : Phrases} (agree : AgreeAt next narrow wide) :
    AgreeAt next (narrow.followedBy rest) (wide.followedBy rest) where
  widen := by
    rintro _ behind ⟨taken, left, rfl, stands, leftStands⟩
    exact ⟨taken, left, rfl, agree.widen stands, leftStands⟩
  narrow := by
    rintro _ behind ⟨taken, left, rfl, stands, leftStands⟩ isNext
    rw [headD_append] at isNext
    exact ⟨taken, left, rfl, agree.narrow stands isNext, leftStands⟩

theorem AgreeAt.trans {narrow middle wide : Phrases} (agree : AgreeAt next narrow middle)
    (agreeWide : AgreeAt next middle wide) : AgreeAt next narrow wide where
  widen stands := agreeWide.widen (agree.widen stands)
  narrow stands isNext := agree.narrow (agreeWide.narrow stands isNext) isNext

/-- Where one of the closing kinds comes next, there are no more words. -/
theorem agree_many_nil (closed : closes next) (begins : first.Begins (¬closes ·)) :
    AgreeAt next (nothing closes) (Many first closes) where
  widen := by
    rintro word behind ⟨rfl, closed⟩
    exact .nil closed
  narrow := by
    rintro word behind stands isNext
    cases stands with
    | nil closed => exact ⟨rfl, closed⟩
    | cons stands others =>
        rw [headD_append] at isNext
        have opened := begins _ _ stands
        rw [isNext] at opened
        exact absurd closed opened

theorem agree_many_cons (opened : ¬closes next) :
    AgreeAt next (first.followedBy (Many first closes)) (Many first closes) where
  widen := by
    rintro _ behind ⟨taken, left, rfl, stands, others⟩
    exact .cons stands others
  narrow := by
    rintro word behind stands isNext
    cases stands with
    | nil closed =>
        have same : behind = next := isNext
        exact absurd (same ▸ closed) opened
    | cons stands others => exact ⟨_, _, rfl, stands, others⟩

theorem Many.single (stands : first word next) (closed : closes next) : Many first closes word next := by
  have row : Many first closes (word ++ []) next := .cons stands (.nil closed)
  rwa [List.append_nil] at row

/-- Behind a settled word there are as many words as the rest has. -/
theorem Settles.many_iff (settles : Settles first taken (left.headD next)) (notEmpty : taken ≠ []) :
    Many first closes (taken ++ left) next ↔ Many first closes left next := by
  refine ⟨fun stands => ?_, .cons settles.phrase⟩
  generalize same : taken ++ left = word at stands
  cases stands with
  | nil closed => exact absurd (List.append_eq_nil_iff.mp same).1 notEmpty
  | @cons start finish _ stands others =>
      have split : start = taken ∧ finish ++ [next] = left ++ [next] :=
        settles.split rfl stands (by rw [same])
      rwa [← List.append_cancel_right split.2]

/-- A refused word is no row of words, unless nothing is there to be refused. -/
theorem Refuses.not_many (refuses : Refuses first word next) (opens : first.Opens (word.headD next)) :
    ¬Many first closes word next := by
  intro stands
  cases stands with
  | nil closed =>
      obtain ⟨word, behind, stands⟩ := opens
      exact refuses.none (next :: word ++ [behind]) (next :: word) [behind] rfl stands rfl
  | @cons taken left _ stands others =>
      refine refuses.none [next] taken (left ++ [next]) rfl ?_ (List.append_assoc ..).symm
      rwa [ahead_append]

theorem settles_nothing (allowed : closes next) : Settles (nothing closes) [] next :=
  settles_nil ⟨rfl, allowed⟩ fun _ _ stands _ => stands.1

end Theory

end Phrases

end StagedAnalysis
