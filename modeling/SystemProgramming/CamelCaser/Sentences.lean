import SystemProgramming.CamelCaser.CamelCase

/-! The loops of the program, and what they write for every text. -/

namespace SystemProgramming.CamelCaser

open Foundations Foundations.Strings

section Places

variable {input : List UInt8} {i j : Nat} {character : UInt8}

/-- The characters from one index to another. -/
def between (input : List UInt8) (j i : Nat) : List UInt8 := (input.drop j).take (i - j)

theorem between_self : between input i i = [] := by simp [between]

/-- In front of the end of a text, there is a character at each index. -/
theorem characterAt_of_lt (below : i < input.length) : characterAt input i = some input[i] := by
  rw [characterAt, List.getElem?_append_left below, List.getElem?_eq_getElem below]

/-- A character in the text comes first of those from its index on. -/
theorem between_cons (ordered : j < i) (inside : i ≤ input.length) :
    ∃ character, characterAt input j = some character ∧
      between input j i = character :: between input (j + 1) i := by
  have below : j < input.length := by omega
  refine ⟨input[j], characterAt_of_lt below, ?_⟩
  rw [between, between, List.drop_eq_getElem_cons below,
    show i - j = (i - (j + 1)) + 1 by omega, List.take_succ_cons]

/-- Behind the characters, the text has those up to the next index. -/
theorem between_snoc (ordered : j ≤ i) (here : characterAt input i = some character)
    (inside : i < input.length) : between input j (i + 1) = between input j i ++ [character] := by
  rw [characterAt, List.getElem?_append_left inside] at here
  rw [between, between, show i + 1 - j = (i - j) + 1 by omega, List.take_add_one,
    List.getElem?_drop, show j + (i - j) = i by omega, here]
  rfl

/-- From a later index on, there is less up to the same one. -/
theorem between_sublist {later : Nat} (ordered : j ≤ later) :
    (between input later i).Sublist (between input j i) := by
  obtain ⟨skipped, rfl⟩ := Nat.exists_eq_add_of_le ordered
  rw [between, between, ← List.drop_drop, ← Nat.sub_sub, ← List.drop_take]
  exact List.drop_sublist _ _

end Places

section Words

variable {input : List UInt8} {i turns : Nat} {st now : Words}

/-- Only whitespace was passed since the loop over it began. -/
def Skipping (input : List UInt8) (i : Nat) (st now : Words) : Prop :=
  ∃ j, now = { st with j } ∧ st.j ≤ j ∧ j ≤ i ∧
    words (between input st.j i) = words (between input j i)

/-- Where there is whitespace, the loop makes a turn, and it stops elsewhere. -/
theorem Skipping.turn (skipping : Skipping input i st now) (inside : i ≤ input.length) :
    spaceAt input i now = some false ∨ spaceAt input i now = some true ∧
      ∃ next, skipSpace now = some next ∧ Skipping input i st next ∧ i - next.j < i - now.j := by
  obtain ⟨j, rfl, lower, upper, same⟩ := skipping
  by_cases below : j < i
  · obtain ⟨character, here, rest⟩ := between_cons below inside
    by_cases space : isSpace character
    · -- The words are those behind this character.
      refine .inr ⟨by simp [spaceAt, below, here, space], _, rfl, ⟨j + 1, rfl, ?_, below, ?_⟩, ?_⟩
      · exact Nat.le_succ_of_le lower
      · rw [same, rest, words_space space]
      · simp only
        omega
    · exact .inl (by simp [spaceAt, below, here, space])
  · -- The sentence ends here.
    exact .inl (by simp [spaceAt, below])

/-- The loop over whitespace ends at a word, or at the end of the sentence. -/
theorem skipSpaces_eq (ordered : st.j ≤ i) (inside : i ≤ input.length) (enough : i - st.j < turns) :
    ∃ j, whileLoop (spaceAt input i) skipSpace turns st = some { st with j } ∧ st.j ≤ j ∧ j ≤ i ∧
      words (between input st.j i) = words (between input j i) ∧
      (j < i → ∃ character, characterAt input j = some character ∧ isSpace character = false) := by
  have start : Skipping input i st st := ⟨st.j, rfl, Nat.le_refl _, ordered, rfl⟩
  obtain ⟨after, ends, ⟨j, rfl, lower, upper, same⟩, stops⟩ :=
    whileLoop_rule (Skipping input i st) (fun now => i - now.j) start enough
      fun _ skipping => skipping.turn inside
  refine ⟨j, ends, lower, upper, same, fun below => ?_⟩
  -- In front of the end, the loop stops at a character that is not whitespace.
  obtain ⟨character, here, _⟩ := between_cons below inside
  exact ⟨character, here, by simpa [spaceAt, below, here] using stops⟩

/-- The variables behind characters that were copied in lower case. -/
def Words.behind (st : Words) (copied : List UInt8) : Words where
  j := st.j + copied.length
  k := st.k + copied.length
  isFirst := st.isFirst
  resultE := st.resultE.write st.k (copied.map toLower)

@[simp] theorem Words.behind_j {copied : List UInt8} :
    (st.behind copied).j = st.j + copied.length := rfl

@[simp] theorem Words.behind_k {copied : List UInt8} :
    (st.behind copied).k = st.k + copied.length := rfl

/-- Only letters of the word were copied since the loop over them began. -/
def CopyingLetters (input : List UInt8) (i : Nat) (st now : Words) : Prop :=
  ∃ copied, now = st.behind copied ∧ st.j + copied.length ≤ i ∧
    between input st.j i = copied ++ between input (st.j + copied.length) i ∧
    ∀ character ∈ copied, isSpace character = false

/-- One character more is behind one more. -/
theorem copyLetter_behind {copied : List UInt8} {character : UInt8}
    (here : characterAt input (st.j + copied.length) = some character) :
    copyLetter input (st.behind copied) = some (st.behind (copied ++ [character])) := by
  rw [copyLetter, Words.behind, here, Words.behind, List.map_append, Buffer.write_append]
  simp [Buffer.write, Nat.add_assoc]

/-- Where there is a letter, the loop makes a turn, and it stops elsewhere. -/
theorem CopyingLetters.turn (copying : CopyingLetters input i st now) (inside : i ≤ input.length)
    (unpunctuated : ∀ character ∈ between input st.j i, isPunct character = false) :
    letterAt input i now = some false ∨ letterAt input i now = some true ∧
      ∃ next, copyLetter input now = some next ∧ CopyingLetters input i st next ∧
        i - next.j < i - now.j := by
  obtain ⟨copied, rfl, within, split, plain⟩ := copying
  by_cases below : st.j + copied.length < i
  · obtain ⟨character, here, rest⟩ := between_cons below inside
    have unpunct := unpunctuated character (by rw [split, rest]; simp)
    by_cases space : isSpace character
    · -- Whitespace ends the word.
      exact .inl (by simp [letterAt, below, here, space])
    · refine .inr ⟨by simp [letterAt, below, here, space, unpunct], _,
        copyLetter_behind here, ⟨copied ++ [character], rfl, ?_, ?_, ?_⟩, ?_⟩
      · rw [List.length_append, List.length_singleton]
        omega
      · rw [split, rest]
        simp [Nat.add_assoc]
      · intro other member
        rcases List.mem_append.mp member with before | last
        · exact plain other before
        · obtain rfl := List.mem_singleton.mp last
          simpa using space
      · rw [Words.behind_j, Words.behind_j, List.length_append, List.length_singleton]
        omega
  · -- So does the end of the sentence.
    exact .inl (by simp [letterAt, below])

/-- The loop over the other letters of a word ends at whitespace, or at the end of the sentence. -/
theorem copyLetters_eq (ordered : st.j ≤ i) (inside : i ≤ input.length) (enough : i - st.j < turns)
    (unpunctuated : ∀ character ∈ between input st.j i, isPunct character = false) :
    ∃ copied, whileLoop (letterAt input i) (copyLetter input) turns st = some (st.behind copied) ∧
      st.j + copied.length ≤ i ∧
      between input st.j i = copied ++ between input (st.j + copied.length) i ∧
      (∀ character ∈ copied, isSpace character = false) ∧
      ∀ character ∈ (between input (st.j + copied.length) i).head?, isSpace character := by
  have start : CopyingLetters input i st st := ⟨[], rfl, ordered, rfl, by simp⟩
  obtain ⟨after, ends, ⟨copied, rfl, within, split, plain⟩, stops⟩ :=
    whileLoop_rule (CopyingLetters input i st) (fun now => i - now.j) start enough
      fun _ copying => copying.turn inside unpunctuated
  refine ⟨copied, ends, within, split, plain, ?_⟩
  by_cases below : st.j + copied.length < i
  · -- No punctuation is in a sentence, so that the loop stopped at whitespace.
    obtain ⟨character, here, rest⟩ := between_cons below inside
    have unpunct := unpunctuated character (by rw [split, rest]; simp)
    rw [rest]
    simpa [letterAt, below, here, unpunct] using stops
  · rw [show st.j + copied.length = i by omega, between_self]
    simp

/-- One turn over the words writes the next one, if there is one, and leaves the others. -/
theorem copyWord_eq (ordered : st.j < i) (inside : i ≤ input.length) (enough : i - st.j < turns)
    (unpunctuated : ∀ character ∈ between input st.j i, isPunct character = false) :
    ∃ next written, copyWord turns input i st = some next ∧ st.j < next.j ∧ next.j ≤ i ∧
      next.k = st.k + written.length ∧ next.resultE = st.resultE.write st.k written ∧
      (between input next.j i).Sublist (between input st.j i) ∧
      joined st.isFirst (words (between input st.j i)) =
        written ++ joined next.isFirst (words (between input next.j i)) := by
  obtain ⟨j, skips, lower, upper, same, starts⟩ :=
    skipSpaces_eq (Nat.le_of_lt ordered) inside enough
  rw [copyWord, skips, Option.bind_some, same]
  by_cases below : j < i
  · obtain ⟨character, here, plain⟩ := starts below
    obtain ⟨_, here', rest⟩ := between_cons below inside
    obtain rfl := Option.some.inj (here.symm.trans here')
    obtain ⟨copied, copies, within, split, letters, ends⟩ := @copyLetters_eq input i turns
      { j := j + 1
        k := st.k + 1
        isFirst := false
        resultE := st.resultE.store st.k
          (if st.isFirst then toLower character else toUpper character) }
      below inside (by simp only; omega)
      fun other member =>
        unpunctuated other ((between_sublist (Nat.le_succ_of_le lower)).subset member)
    -- The word is the first letter and those that were copied.
    have word : words (between input j i) =
        (character :: copied) :: words (between input (j + 1 + copied.length) i) := by
      rw [rest, split, ← List.cons_append]
      refine words_word (List.cons_ne_nil _ _) ?_ ends
      intro other member
      rcases List.mem_cons.mp member with rfl | among
      · exact plain
      · exact letters other among
    refine ⟨_, (if st.isFirst then toLower character else toUpper character) :: copied.map toLower,
      by rw [if_pos below, here, Option.bind_some, copies], ?_, within, ?_, rfl, ?_, ?_⟩
    · rw [Words.behind_j]
      simp only
      omega
    · rw [Words.behind_k, List.length_cons, List.length_map]
      simp only
      omega
    · rw [Words.behind_j]
      exact between_sublist (by simp only; omega)
    · rw [word, joined]
      cases st.isFirst <;> rfl
  · -- Only whitespace was left, and nothing is written.
    obtain rfl : j = i := Nat.le_antisymm upper (Nat.le_of_not_lt below)
    refine ⟨_, [], if_neg below, ordered, upper, rfl, rfl, between_sublist lower, ?_⟩
    rw [between_self, words_nil, joined]
    rfl

/-- The words that were passed are written behind the start of the buffer, and no others. -/
def WritingWords (input : List UInt8) (head i : Nat) (base : Buffer) (now : Words) : Prop :=
  now.j ≤ i ∧ (between input now.j i).Sublist (between input head i) ∧
    ∃ written, now.k = written.length ∧ now.resultE = base.write 0 written ∧
      camelCase (between input head i) = written ++ joined now.isFirst (words (between input now.j i))

/-- In front of the end of the sentence, the loop makes a turn. -/
theorem WritingWords.turn {base : Buffer} {head : Nat} (writing : WritingWords input head i base now)
    (inside : i ≤ input.length) (enough : input.length < turns)
    (unpunctuated : ∀ character ∈ between input head i, isPunct character = false) (below : now.j < i) :
    ∃ next, copyWord turns input i now = some next ∧ WritingWords input head i base next ∧
      i - next.j < i - now.j := by
  obtain ⟨_, part, written, count, stored, whole⟩ := writing
  obtain ⟨next, word, copies, further, bound, k, resultE, later, rest⟩ :=
    @copyWord_eq input i turns now below inside (by omega)
      fun character member => unpunctuated character (part.subset member)
  -- The word goes behind those that were written.
  refine ⟨next, copies, ⟨bound, later.trans part, written ++ word, ?_, ?_, ?_⟩, by omega⟩
  · rw [k, count, List.length_append]
  · rw [resultE, stored, count, Buffer.write_append, Nat.zero_add]
  · rw [whole, rest, List.append_assoc]

/-- The loop over the words writes a sentence in camel case. -/
theorem copyWords_eq {base : Buffer} {head : Nat} (ordered : head ≤ i) (inside : i ≤ input.length)
    (enough : input.length < turns)
    (unpunctuated : ∀ character ∈ between input head i, isPunct character = false) :
    ∃ after, whileLoop (fun words => some (words.j < i)) (copyWord turns input i) turns
        ⟨head, 0, true, base⟩ = some after ∧
      after.resultE = base.write 0 (camelCase (between input head i)) := by
  have works (now : Words) (writing : WritingWords input head i base now) :
      some (decide (now.j < i)) = some false ∨ some (decide (now.j < i)) = some true ∧
        ∃ next, copyWord turns input i now = some next ∧ WritingWords input head i base next ∧
          i - next.j < i - now.j := by
    by_cases below : now.j < i
    · exact .inr ⟨by simp [below], writing.turn inside enough unpunctuated below⟩
    · exact .inl (by simp [below])
  have start : WritingWords input head i base ⟨head, 0, true, base⟩ :=
    ⟨ordered, List.Sublist.refl _, [], rfl, rfl, rfl⟩
  obtain ⟨after, ends, ⟨within, _, written, _, stored, whole⟩, stops⟩ :=
    whileLoop_rule (WritingWords input head i base) (fun now => i - now.j) start
      (show i - head < turns by omega) works
  refine ⟨after, ends, ?_⟩
  -- At the end of the sentence there are no words left.
  have last : after.j = i := by
    have past : ¬ after.j < i := by simpa using stops
    omega
  rw [last, between_self, words_nil, joined, List.append_nil] at whole
  rw [stored, whole]

end Words

section Counts

variable {input : List UInt8} {value next i turns count : Nat}

/-- What an `int` can count: the characters, and the results with the `NULL` behind them. -/
def Fits (input : List UInt8) : Prop :=
  input.length < 2 ^ 31 ∧ input.countP isPunct + 1 < 2 ^ 31

theorem increment_eq_some : increment value = some next ↔ next = value + 1 ∧ value + 1 < 2 ^ 31 := by
  constructor
  · intro more
    obtain ⟨small, same⟩ := Option.ite_none_right_eq_some.mp more
    exact ⟨(Option.some.inj same).symm, small⟩
  · rintro ⟨rfl, small⟩
    exact if_pos small

theorem increment_of_lt (small : value + 1 < 2 ^ 31) : increment value = some (value + 1) :=
  increment_eq_some.mpr ⟨rfl, small⟩

/-- A text goes on up to its end, and not further. -/
theorem goesOnAt_iff (plain : (0 : UInt8) ∉ input) (within : i ≤ input.length) :
    (goesOnAt input i = some true ↔ i < input.length) ∧
      (goesOnAt input i = some false ↔ i = input.length) := by
  rcases Nat.lt_or_ge i input.length with below | last
  · have nonzero : input[i] ≠ 0 := fun zero => plain (zero ▸ List.getElem_mem below)
    simp [goesOnAt, characterAt_of_lt below, nonzero, below, Nat.ne_of_lt below]
  · obtain rfl : i = input.length := Nat.le_antisymm within last
    simp [goesOnAt, characterAt]

/-- A loop over a text ends behind it, if each of its turns goes to the next character. -/
theorem exists_read {State : Type*} {body : State → Option State} {st : State}
    (plain : (0 : UInt8) ∉ input) (Holds : State → Prop) (index : State → Nat)
    (within : ∀ st, Holds st → index st ≤ input.length)
    (turn : ∀ st, Holds st → index st < input.length →
      ∃ next, body st = some next ∧ Holds next ∧ index next = index st + 1)
    (initial : Holds st) (enough : input.length < turns) :
    ∃ after, whileLoop (fun st => goesOnAt input (index st)) body turns st = some after ∧
      Holds after ∧ index after = input.length := by
  have works (st : State) (holds : Holds st) : goesOnAt input (index st) = some false ∨
      goesOnAt input (index st) = some true ∧ ∃ next, body st = some next ∧ Holds next ∧
        input.length - index next < input.length - index st := by
    obtain ⟨goes, stops⟩ := goesOnAt_iff plain (within st holds)
    rcases Nat.lt_or_ge (index st) input.length with below | last
    · obtain ⟨next, turned, kept, place⟩ := turn st holds below
      exact .inr ⟨goes.mpr below, next, turned, kept, by omega⟩
    · exact .inl (stops.mpr (Nat.le_antisymm (within st holds) last))
  have start : input.length - index st < turns := Nat.lt_of_le_of_lt (Nat.sub_le _ _) enough
  obtain ⟨after, ends, holds, stops⟩ :=
    whileLoop_rule Holds (fun st => input.length - index st) initial start works
  exact ⟨after, ends, holds, (goesOnAt_iff plain (within after holds)).2.mp stops⟩

/-- The counter of the first loop is the number of punctuation characters that it has seen. -/
def Counted (input : List UInt8) (st : Counting) : Prop :=
  st.inputS1 ≤ input.length ∧ st.outNum = (input.take st.inputS1).countP isPunct

theorem countP_take_succ (below : i < input.length) : (input.take (i + 1)).countP isPunct =
    (input.take i).countP isPunct + if isPunct input[i] then 1 else 0 := by
  rw [List.take_succ_eq_append_getElem below, List.countP_append, List.countP_singleton]

/-- One turn of the first loop counts the character at its index, unless the counter overflows. -/
theorem Counted.turn {st st' : Counting} (counted : Counted input st) (below : st.inputS1 < input.length)
    (turned : countCharacter input st = some st') :
    Counted input st' ∧ st'.inputS1 = st.inputS1 + 1 := by
  obtain ⟨_, same⟩ := counted
  rw [countCharacter, characterAt_of_lt below, Option.bind_some] at turned
  obtain ⟨outNum, more, rfl⟩ := Option.map_eq_some_iff.mp turned
  refine ⟨⟨below, ?_⟩, rfl⟩
  rw [countP_take_succ below, ← same]
  split at more
  · rename_i punctuation
    rw [if_pos punctuation]
    exact (increment_eq_some.mp more).1
  · rename_i other
    rw [if_neg other]
    exact (Option.some.inj more).symm

/-- Where the counter does not overflow, the turn is made. -/
theorem Counted.exists_turn {st : Counting} (counted : Counted input st)
    (below : st.inputS1 < input.length) (few : input.countP isPunct < 2 ^ 31) :
    ∃ st', countCharacter input st = some st' := by
  obtain ⟨_, same⟩ := counted
  rw [countCharacter, characterAt_of_lt below, Option.bind_some]
  apply Option.isSome_iff_exists.mp
  rw [Option.isSome_map]
  split
  · rename_i punctuation
    have bound : (input.take (st.inputS1 + 1)).countP isPunct ≤ input.countP isPunct :=
      (List.take_sublist _ _).countP_le
    rw [countP_take_succ below, if_pos punctuation, ← same] at bound
    rw [increment_of_lt (by omega), Option.isSome_some]
  · rfl

/-- At the end of the text, all of them are counted. -/
theorem Counted.all {st : Counting} (counted : Counted input st) (last : st.inputS1 = input.length) :
    st.outNum = input.countP isPunct := by
  rw [counted.2, last, List.take_length]

/-- The number of results is that of the punctuation characters and one, if it is an `int`. -/
theorem countResults_eq (plain : (0 : UInt8) ∉ input) (enough : input.length < turns) :
    countResults turns input = increment (input.countP isPunct) := by
  have start : Counted input ⟨0, 0⟩ := ⟨Nat.zero_le _, rfl⟩
  rw [countResults]
  cases ends : whileLoop (fun st => goesOnAt input st.inputS1) (countCharacter input) turns ⟨0, 0⟩ with
  | some after =>
    obtain ⟨counted, stops⟩ := whileLoop_keeps (Counted input) start
      (fun st next counted goes turned =>
        (counted.turn ((goesOnAt_iff plain counted.1).1.mp goes) turned).1) ends
    rw [Option.bind_some, counted.all ((goesOnAt_iff plain counted.1).2.mp stops)]
  | none =>
    -- A loop that does not end has counted too many of them.
    rw [Option.bind_none, increment, if_neg]
    intro few
    have turn (st : Counting) (counted : Counted input st) (below : st.inputS1 < input.length) :
        ∃ next, countCharacter input st = some next ∧ Counted input next ∧
          next.inputS1 = st.inputS1 + 1 := by
      obtain ⟨next, turned⟩ := counted.exists_turn below (by omega)
      exact ⟨next, turned, counted.turn below turned⟩
    obtain ⟨after, ends', _⟩ := exists_read plain (Counted input) Counting.inputS1
      (fun _ counted => counted.1) turn start enough
    rw [ends] at ends'
    cases ends'

end Counts

section Results

variable {input text : List UInt8} {heap : Nat → Nat → UInt8} {turns : Nat} {st st' : Sentences}
  {finished : List (List UInt8)} {character : UInt8}

/-- There is a sentence for each punctuation character. -/
theorem length_sentences : (sentences text).length = text.countP isPunct := by
  have parts : (text.splitOnP isPunct).length = text.countP isPunct + 1 := by
    induction text with
    | nil => rfl
    | cons character text ih =>
      rw [List.splitOnP_cons_eq_if_modifyHead, List.countP_cons]
      split <;> simp [ih]
  rw [sentences, List.length_dropLast, parts, Nat.add_sub_cancel]

/-- A sentence ends at the first punctuation character. -/
theorem sentences_append {sentence : List UInt8} (plain : ∀ other ∈ sentence, isPunct other = false)
    (punctuation : isPunct character) :
    sentences (sentence ++ character :: text) = sentence :: sentences text := by
  rw [sentences, List.splitOnP_append_cons_of_forall_mem plain _ punctuation,
    List.dropLast_cons_of_ne_nil (List.splitOnP_ne_nil _ _), sentences]

/-- A text without one has no sentence. -/
theorem sentences_plain (plain : ∀ other ∈ text, isPunct other = false) : sentences text = [] := by
  rw [sentences, List.splitOnP_eq_singleton plain, List.dropLast_singleton]

/-- The pointers to the buffers of sentences. -/
def buffersOf (heap : Nat → Nat → UInt8) (sentences : List (List UInt8)) : Results :=
  sentences.mapIdx fun i sentence => some (.to (sentenceBuffer (heap i) sentence))

/-- The first sentences are written, and the next one starts at an index. -/
def Written (heap : Nat → Nat → UInt8) (input : List UInt8) (head idx : Nat) (result : Results) :
    Prop :=
  ∃ finished, idx = finished.length ∧ sentences input = finished ++ sentences (input.drop head) ∧
    result = buffersOf heap finished ++
      (List.replicate (sentences (input.drop head)).length none ++ [some .null])

/-- What holds at the start of each turn of the second loop. -/
structure Reading (heap : Nat → Nat → UInt8) (input : List UInt8) (st : Sentences) : Prop where
  ordered : st.head ≤ st.i
  within : st.i ≤ input.length
  unpunctuated : ∀ character ∈ between input st.head st.i, isPunct character = false
  written : Written heap input st.head st.idx st.result

theorem length_between {j i : Nat} (within : i ≤ input.length) :
    (between input j i).length = i - j := by
  rw [between, List.length_take, List.length_drop]
  omega

/-- The text behind an index is what is between it and another one, and what is behind that. -/
theorem drop_eq_between {j i : Nat} (ordered : j ≤ i) :
    input.drop j = between input j i ++ input.drop i := by
  have behind : input.drop i = (input.drop j).drop (i - j) := by
    rw [List.drop_drop, Nat.add_sub_of_le ordered]
  rw [behind, between, List.take_append_drop]

/-- The result of a sentence replaces the first element that is not defined. -/
theorem storeResult_next {front back : Results} {old : Option Pointer} (pointer : Pointer) :
    storeResult (front ++ old :: back) front.length pointer = some (front ++ some pointer :: back) := by
  rw [storeResult, if_pos (by simp)]
  simp

/-- A punctuation character ends the sentence that is in front of it. -/
theorem Reading.sentences_drop (reading : Reading heap input st) (below : st.i < input.length)
    (punctuation : isPunct input[st.i]) : sentences (input.drop st.head) =
      between input st.head st.i :: sentences (input.drop (st.i + 1)) := by
  rw [drop_eq_between reading.ordered, List.drop_eq_getElem_cons below]
  exact sentences_append reading.unpunctuated punctuation

/-- The sentence is written to its buffer, and the buffer gets its end for the second time. -/
theorem Reading.buffer (reading : Reading heap input st) (enough : input.length < turns) :
    ∃ words, whileLoop (fun words => some (words.j < st.i)) (copyWord turns input st.i) turns
        ⟨st.head, 0, true, (malloc (heap st.idx) (st.i - st.head + 1)).store (st.i - st.head) 0⟩ =
          some words ∧
      words.resultE.store (st.i - st.head) 0 =
        sentenceBuffer (heap st.idx) (between input st.head st.i) := by
  obtain ⟨words, copies, resultE⟩ := @copyWords_eq input st.i turns
    ((malloc (heap st.idx) (st.i - st.head + 1)).store (st.i - st.head) 0) st.head reading.ordered
    reading.within enough reading.unpunctuated
  refine ⟨words, copies, ?_⟩
  rw [resultE, sentenceBuffer, length_between reading.within]

/-- At a punctuation character, the sentence in front of it is written. -/
theorem Reading.writes (reading : Reading heap input st) (fits : Fits input)
    (enough : input.length < turns) (below : st.i < input.length) (punctuation : isPunct input[st.i]) :
    ∃ st', copySentence turns heap input st = some st' ∧ st'.i = st.i ∧ st'.head = st.i + 1 ∧
      Written heap input st'.head st'.idx st'.result := by
  have next := reading.sentences_drop below punctuation
  obtain ⟨words, copies, buffer⟩ := reading.buffer enough
  obtain ⟨short, few⟩ := fits
  obtain ⟨finished, idx, whole, result⟩ := reading.written
  -- The number of the sentence is less than that of all of them, so that it can be incremented.
  have count := congrArg List.length whole
  rw [length_sentences, List.length_append, next, List.length_cons] at count
  have here : (buffersOf heap finished).length = st.idx := by
    rw [buffersOf, List.length_mapIdx, idx]
  have stored := @storeResult_next (buffersOf heap finished)
    (List.replicate (sentences (input.drop (st.i + 1))).length none ++ [some .null]) none
    (.to (sentenceBuffer (heap st.idx) (between input st.head st.i)))
  rw [here] at stored
  rw [next, List.length_cons, List.replicate_succ, List.cons_append] at result
  refine ⟨⟨st.i, st.i + 1, st.idx + 1, buffersOf heap finished ++
    some (.to (sentenceBuffer (heap st.idx) (between input st.head st.i))) ::
      (List.replicate (sentences (input.drop (st.i + 1))).length none ++ [some .null])⟩, ?_, rfl, rfl,
    finished ++ [between input st.head st.i], ?_⟩
  · rw [copySentence, increment_of_lt (by omega), Option.bind_some]
    simp only [copies, Option.bind_some, buffer]
    rw [result, stored, Option.bind_some, increment_of_lt (by omega), Option.bind_some,
      increment_of_lt (by omega), Option.map_some]
  · refine ⟨by simp [idx], ?_, ?_⟩
    · rw [whole, next]
      simp
    · simp [buffersOf, idx, List.mapIdx_append]

/-- One turn of the second loop. -/
theorem Reading.turn (reading : Reading heap input st) (fits : Fits input)
    (enough : input.length < turns) (below : st.i < input.length) :
    ∃ st', nextCharacter turns heap input st = some st' ∧ Reading heap input st' ∧
      st'.i = st.i + 1 := by
  have next : increment st.i = some (st.i + 1) := increment_of_lt (by have := fits.1; omega)
  rw [nextCharacter, characterAt_of_lt below, Option.bind_some]
  by_cases punctuation : isPunct input[st.i]
  · obtain ⟨st', copies, same, head, written⟩ := reading.writes fits enough below punctuation
    refine ⟨{ st' with i := st.i + 1 }, ?_, ⟨by simp only; omega, below, ?_, written⟩, rfl⟩
    · rw [if_pos punctuation, copies, Option.bind_some, same, next, Option.map_some]
    · -- The next sentence has no characters yet.
      simp only [head, between_self]
      simp
  · refine ⟨{ st with i := st.i + 1 }, ?_, ⟨?_, below, ?_, reading.written⟩, rfl⟩
    · rw [if_neg punctuation, Option.bind_some, next, Option.map_some]
    · exact Nat.le_succ_of_le reading.ordered
    · rw [between_snoc reading.ordered (characterAt_of_lt below) below]
      intro other member
      rcases List.mem_append.mp member with before | last
      · exact reading.unpunctuated other before
      · obtain rfl := List.mem_singleton.mp last
        simpa using punctuation

/-- The whole text is read, and each of its sentences is written to a buffer. -/
theorem camelCaser_eq (plain : (0 : UInt8) ∉ input) (fits : Fits input)
    (enough : input.length < turns) : camelCaser turns heap (some input) =
      some (some (buffersOf heap (sentences input) ++ [some .null])) := by
  have count := @length_sentences input
  -- The last element is `NULL` before any other is stored.
  have last := @storeResult_next (List.replicate (sentences input).length none) [] none .null
  rw [List.length_replicate, ← List.replicate_succ'] at last
  have start : Reading heap input ⟨0, 0, 0,
      List.replicate (sentences input).length none ++ [some .null]⟩ := by
    refine ⟨Nat.le_refl _, Nat.zero_le _, by simp [between_self], [], rfl, ?_, ?_⟩ <;> simp [buffersOf]
  obtain ⟨after, ends, reading, all⟩ := exists_read plain (Reading heap input) Sentences.i
    (fun _ reading => reading.within) (fun _ reading => reading.turn fits enough) start enough
  obtain ⟨ordered, within, unpunctuated, finished, idx, whole, result⟩ := reading
  -- What is behind the last punctuation character is no sentence.
  have none_left : sentences (input.drop after.head) = [] := by
    have rest := @drop_eq_between input _ _ ordered
    rw [all, List.drop_length, List.append_nil] at rest
    rw [rest]
    rw [all] at unpunctuated
    exact sentences_plain unpunctuated
  rw [none_left, List.append_nil] at whole
  rw [none_left, List.length_nil, List.replicate_zero, List.nil_append, ← whole] at result
  rw [camelCaser, countResults_eq plain enough, increment_of_lt fits.2, Option.bind_some,
    Nat.add_sub_cancel, ← count, last, Option.bind_some, ends, Option.map_some, result]

/-- Writing a sentence does not move the index. -/
theorem copySentence_i (copies : copySentence turns heap input st = some st') : st'.i = st.i := by
  obtain ⟨_, _, rest⟩ := Option.bind_eq_some_iff.mp copies
  obtain ⟨_, _, rest⟩ := Option.bind_eq_some_iff.mp rest
  obtain ⟨_, _, rest⟩ := Option.bind_eq_some_iff.mp rest
  obtain ⟨_, _, rest⟩ := Option.bind_eq_some_iff.mp rest
  obtain ⟨_, _, rfl⟩ := Option.map_eq_some_iff.mp rest
  rfl

/-- The index of the second loop stays in the text, and it is an `int`. -/
def Bounded (input : List UInt8) (st : Sentences) : Prop := st.i ≤ input.length ∧ st.i < 2 ^ 31

/-- A turn that is made has incremented the index. -/
theorem Bounded.turn (bounded : Bounded input st) (plain : (0 : UInt8) ∉ input)
    (goes : goesOnAt input st.i = some true)
    (turned : nextCharacter turns heap input st = some st') : Bounded input st' := by
  have below := (goesOnAt_iff plain bounded.1).1.mp goes
  rw [nextCharacter, characterAt_of_lt below, Option.bind_some] at turned
  obtain ⟨middle, done, rest⟩ := Option.bind_eq_some_iff.mp turned
  obtain ⟨i, more, rfl⟩ := Option.map_eq_some_iff.mp rest
  -- Whether a sentence was written or not, the index is still that of the character.
  have same : middle.i = st.i := by
    split at done
    · exact copySentence_i done
    · rw [Option.some.inj done]
  obtain ⟨rfl, bound⟩ := increment_eq_some.mp more
  rw [same] at bound
  exact ⟨by simp only [same]; omega, by simpa only [same] using bound⟩

/-- Where the program returns, no `int` has overflown. -/
theorem fits_of_camelCaser {result : Option Results} (plain : (0 : UInt8) ∉ input)
    (enough : input.length < turns) (returns : camelCaser turns heap (some input) = some result) :
    Fits input := by
  obtain ⟨outNum, counted, rest⟩ := Option.bind_eq_some_iff.mp returns
  rw [countResults_eq plain enough, increment_eq_some] at counted
  obtain ⟨array, _, rest⟩ := Option.bind_eq_some_iff.mp rest
  obtain ⟨after, ends, _⟩ := Option.map_eq_some_iff.mp rest
  -- At the end of the text, the index is its length.
  obtain ⟨⟨within, small⟩, stops⟩ := whileLoop_keeps (Bounded input)
    ⟨Nat.zero_le _, Nat.two_pow_pos 31⟩ (fun _ _ bounded => bounded.turn plain) ends
  rw [(goesOnAt_iff plain within).2.mp stops] at small
  exact ⟨small, counted.2⟩

end Results

section CamelCase

/-- What a buffer has for a sentence: every store is inside, and the characters are in front. -/
structure HoldsCamelCase (sentence : List UInt8) (buffer : Buffer) : Prop where
  within : buffer.Within
  stores : buffer.stores =
    sentence.length :: (List.range (camelCase sentence).length ++ [sentence.length])
  characters : buffer.bytes.take (camelCase sentence).length = (camelCase sentence).map some

/--
With enough turns the program returns a buffer for each punctuation character, in which the text in
front of it is written in camel case, and `NULL` behind them.
-/
def WritesCamelCase (input : List UInt8) : Prop :=
  ∀ heap turns, input.length < turns → ∃ buffers : List Buffer,
    camelCaser turns heap (some input) =
      some (some (buffers.map (fun buffer => some (.to buffer)) ++ [some .null])) ∧
    buffers.length = input.countP isPunct ∧
    List.Forall₂ HoldsCamelCase (sentences input) buffers

theorem sentenceBuffer_holds (contents : Nat → UInt8) (sentence : List UInt8) :
    HoldsCamelCase sentence (sentenceBuffer contents sentence) where
  within := sentenceBuffer_within
  stores := stores_sentenceBuffer
  characters := by
    rw [bytes_sentenceBuffer, List.map_append, List.append_assoc, List.take_left']
    rw [List.length_map]

/-- No character of an ASCII string is the zero byte. -/
theorem AsciiString.plain (input : AsciiString) : (0 : UInt8) ∉ input.characters := fun member =>
  absurd (input.ascii 0 member).1 (by decide)

/-- A program that returns is one whose text fits. -/
theorem WritesCamelCase.fits {input : AsciiString} (writes : WritesCamelCase input.characters) :
    Fits input.characters := by
  obtain ⟨buffers, returns, _⟩ := writes (fun _ _ => 0) _ (Nat.lt_succ_self _)
  exact fits_of_camelCaser input.plain (Nat.lt_succ_self _) returns

/--
The program writes the sentences of a text in camel case exactly if an `int` can count its characters
and its results.
-/
theorem writes_camel_case_iff (input : AsciiString) :
    WritesCamelCase input.characters ↔ Fits input.characters := by
  refine ⟨WritesCamelCase.fits, fun fits heap turns enough => ?_⟩
  refine ⟨(sentences input.characters).mapIdx fun i => sentenceBuffer (heap i), ?_, ?_, ?_⟩
  · have pointers : buffersOf heap (sentences input.characters) =
        ((sentences input.characters).mapIdx fun i => sentenceBuffer (heap i)).map
          fun buffer => some (.to buffer) := by
      apply List.ext_getElem?
      intro i
      rw [buffersOf, List.getElem?_map, List.getElem?_mapIdx, List.getElem?_mapIdx, Option.map_map]
      rfl
    rw [camelCaser_eq input.plain fits enough, pointers]
  · rw [List.length_mapIdx, length_sentences]
  · rw [List.forall₂_iff_get]
    refine ⟨by simp, fun i _ inside => ?_⟩
    simp only [List.get_eq_getElem, List.getElem_mapIdx]
    exact sentenceBuffer_holds _ _

/-- A string of 2 ^ 31 letters. -/
def longString : AsciiString where
  characters := List.replicate (2 ^ 31) 97
  ascii := by
    intro character member
    rw [List.eq_of_mem_replicate member]
    decide

/-- The index of the second loop overflows in it. -/
theorem long_string_overflows : ¬ WritesCamelCase longString.characters := by
  intro writes
  have short := writes.fits.1
  rw [longString, List.length_replicate] at short
  exact Nat.lt_irrefl _ short

end CamelCase

end SystemProgramming.CamelCaser
