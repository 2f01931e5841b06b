import Mathlib.Algebra.Order.Ring.Nat
import Mathlib.Data.List.Basic

/-! The helper functions that both password crackers call, and the passwords that they try. -/

namespace SystemProgramming.PasswordCracker

/-- The helper functions, and `crypt_r` with the salt of both programs. -/
structure Utils where
  getPrefixLength : List UInt8 → Nat
  /-- For a number of unknown letters, of threads, and the id of a thread: the start and the count. -/
  getSubrange : Nat → Nat → Nat → Nat × Nat
  setStringPosition : List UInt8 → Nat → List UInt8
  /-- The string that comes next, and whether what is returned is not zero. -/
  incrementString : List UInt8 → List UInt8 × Bool
  crypt : List UInt8 → List UInt8

namespace Utils

/-- The part of a password that is known. -/
def knownPart (utils : Utils) (knownpass : List UInt8) : List UInt8 :=
  knownpass.take (utils.getPrefixLength knownpass)

/-- The part of a password that is not known. -/
def unknownPart (utils : Utils) (knownpass : List UInt8) : List UInt8 :=
  knownpass.drop (utils.getPrefixLength knownpass)

/-- The completion of a known prefix at a position. -/
def completion (utils : Utils) (knownpass : List UInt8) (position : Nat) : List UInt8 :=
  utils.knownPart knownpass ++ utils.setStringPosition (utils.unknownPart knownpass) position

/-- The part of the positions that a thread is to try; ids start at 1. -/
def subrange (utils : Utils) (knownpass : List UInt8) (threads id : Nat) : Nat × Nat :=
  utils.getSubrange (knownpass.length - utils.getPrefixLength knownpass) threads id

/-- A position lies in the part of a thread. -/
def InSubrange (utils : Utils) (knownpass : List UInt8) (threads id position : Nat) : Prop :=
  (utils.subrange knownpass threads id).1 ≤ position ∧
    position < (utils.subrange knownpass threads id).1 + (utils.subrange knownpass threads id).2

/-- After so many more words the last one is reached. -/
def EndsAfter (utils : Utils) : Nat → List UInt8 → Prop
  | 0, word => (utils.incrementString word).2 = false
  | left + 1, word =>
    (utils.incrementString word).2 = true ∧ utils.EndsAfter left (utils.incrementString word).1

/-- The words that come after a word, the last one included. -/
def FollowedBy (utils : Utils) : List UInt8 → List (List UInt8) → Prop
  | word, [] => (utils.incrementString word).2 = false
  | word, next :: rest => utils.incrementString word = (next, true) ∧ utils.FollowedBy next rest

instance FollowedBy.decidable (utils : Utils) : (word : List UInt8) → (rest : List (List UInt8)) →
    Decidable (utils.FollowedBy word rest)
  | word, [] => inferInstanceAs (Decidable ((utils.incrementString word).2 = false))
  | word, next :: rest =>
    have := FollowedBy.decidable utils next rest
    inferInstanceAs (Decidable (utils.incrementString word = (next, true) ∧ utils.FollowedBy next rest))

/-- From the first word for any unknown letters on, the last one is reached. -/
def Exhausts (utils : Utils) : Prop :=
  ∀ unknown, ∃ left, utils.EndsAfter left (utils.setStringPosition unknown 0)

/-- The number of words that are left. -/
theorem EndsAfter.unique {utils : Utils} {word : List UInt8} {left more : Nat}
    (ends : utils.EndsAfter left word) (again : utils.EndsAfter more word) : left = more := by
  induction left generalizing word more with
  | zero =>
    cases more with
    | zero => rfl
    | succ more =>
      have last : (utils.incrementString word).2 = false := ends
      rw [again.1] at last
      cases last
  | succ left ih =>
    cases more with
    | zero =>
      have last : (utils.incrementString word).2 = false := again
      rw [ends.1] at last
      cases last
    | succ more => rw [ih ends.2 again.2]

/-- Where the last word is reached, so many words come after this one. -/
theorem EndsAfter.followedBy {utils : Utils} {word : List UInt8} {left : Nat}
    (ends : utils.EndsAfter left word) : ∃ rest, utils.FollowedBy word rest ∧ rest.length = left := by
  induction left generalizing word with
  | zero => exact ⟨[], ends, rfl⟩
  | succ left ih =>
    obtain ⟨rest, follow, length⟩ := ih ends.2
    refine ⟨(utils.incrementString word).1 :: rest, ⟨?_, follow⟩, congrArg (· + 1) length⟩
    exact Prod.ext rfl ends.1

/-- Where words come after a word, the last one of them is reached. -/
theorem FollowedBy.endsAfter {utils : Utils} {word : List UInt8} {rest : List (List UInt8)}
    (followed : utils.FollowedBy word rest) : utils.EndsAfter rest.length word := by
  induction rest generalizing word with
  | nil => exact followed
  | cons next rest ih =>
    obtain ⟨more, followed⟩ := followed
    refine ⟨by rw [more], ?_⟩
    rw [more]
    exact ih followed

/-- The last word is reached from every first one exactly if each has its list of words. -/
theorem exhausts_iff {utils : Utils} : utils.Exhausts ↔
    ∀ unknown, ∃ rest, utils.FollowedBy (utils.setStringPosition unknown 0) rest := by
  constructor
  · intro exhausts unknown
    obtain ⟨left, ends⟩ := exhausts unknown
    obtain ⟨rest, followed, _⟩ := ends.followedBy
    exact ⟨rest, followed⟩
  · intro lists unknown
    obtain ⟨rest, followed⟩ := lists unknown
    exact ⟨rest.length, followed.endsAfter⟩

/--
The positions are cut into the parts of the threads, and the string after the completion at one
position is the completion at the next.
-/
structure Splits (utils : Utils) (knownpass : List UInt8) (threads positions : Nat) : Prop where
  inside : ∀ id position, 1 ≤ id → id ≤ threads →
    utils.InSubrange knownpass threads id position → position < positions
  covered : ∀ position, position < positions → ∃ id, (1 ≤ id ∧ id ≤ threads) ∧
    utils.InSubrange knownpass threads id position ∧
      ∀ other, 1 ≤ other → other ≤ threads →
        utils.InSubrange knownpass threads other position → other = id
  next : ∀ position, position + 1 < positions →
    (utils.incrementString (utils.completion knownpass position)).1 =
      utils.completion knownpass (position + 1)

end Utils

section Sample

/-- Positions count in lower case letters, the last one first; 97 is 'a'. -/
def samplePosition : List UInt8 → Nat → List UInt8
  | [], _ => []
  | _ :: rest, position =>
    (97 + position / 26 ^ rest.length % 26).toUInt8 :: samplePosition rest position

/-- Counting on from a word of lower case letters, and whether it was not the last one. -/
def sampleIncrement : List UInt8 → List UInt8 × Bool
  | [] => ([], false)
  | letter :: rest =>
    let (rest, carried) := sampleIncrement rest
    if carried then (letter :: rest, true)
    else if letter = 122 then (97 :: rest, false)
    else ((letter + 1) :: rest, true)

/-- Unknown letters are dots at the end, and passwords are not hidden at all. -/
def sampleUtils : Utils where
  getPrefixLength known := (known.takeWhile (· ≠ 46)).length
  getSubrange unknown threads id :=
    (26 ^ unknown * (id - 1) / threads,
      26 ^ unknown * id / threads - 26 ^ unknown * (id - 1) / threads)
  setStringPosition := samplePosition
  incrementString := sampleIncrement
  crypt := id

example : sampleUtils.completion [97, 46, 46] 27 = [97, 98, 98] := by decide

example : sampleUtils.incrementString [97, 98, 122] = ([97, 99, 97], true) := by decide

theorem length_sampleIncrement (word : List UInt8) :
    (sampleIncrement word).1.length = word.length := by
  induction word with
  | nil => rfl
  | cons letter rest ih =>
    rw [sampleIncrement]
    simp only
    split
    · exact congrArg (· + 1) ih
    · split
      · exact congrArg (· + 1) ih
      · exact congrArg (· + 1) ih

/-- Where the letters behind the first one go round, and then the first one ends, the word ends. -/
theorem sample_ends_cons {letter : UInt8} {rest : List UInt8} {left : Nat}
    (ends : sampleUtils.EndsAfter left rest)
    (further : letter ≠ 122 → ∀ next : List UInt8, next.length = rest.length →
      ∃ left, sampleUtils.EndsAfter left ((letter + 1) :: next)) :
    ∃ left, sampleUtils.EndsAfter left (letter :: rest) := by
  -- The induction is on the steps that the letters behind the first one take to go round.
  induction left generalizing rest with
  | zero =>
    have carried : (sampleIncrement rest).2 = false := ends
    by_cases last : letter = 122
    · refine ⟨0, ?_⟩
      show (sampleIncrement (letter :: rest)).2 = false
      simp [sampleIncrement, carried, last]
    · obtain ⟨more, ends⟩ := further last _ (length_sampleIncrement rest)
      refine ⟨more + 1, ?_, ?_⟩
      · show (sampleIncrement (letter :: rest)).2 = true
        simp [sampleIncrement, carried, last]
      · show sampleUtils.EndsAfter more (sampleIncrement (letter :: rest)).1
        simpa [sampleIncrement, carried, last] using ends
  | succ left ih =>
    obtain ⟨stays, ends⟩ := ends
    have within : (sampleIncrement rest).2 = true := stays
    have same := length_sampleIncrement rest
    obtain ⟨more, ends'⟩ := ih ends fun unequal next size => further unequal next (size.trans same)
    refine ⟨more + 1, ?_, ?_⟩
    · show (sampleIncrement (letter :: rest)).2 = true
      simp [sampleIncrement, within]
    · have next : (sampleIncrement (letter :: rest)).1 = letter :: (sampleIncrement rest).1 := by
        simp [sampleIncrement, within]
      show sampleUtils.EndsAfter more (sampleIncrement (letter :: rest)).1
      rw [next]
      exact ends'

/-- Counting on reaches the last word, whatever the letters are. -/
theorem sample_ends (word : List UInt8) : ∃ left, sampleUtils.EndsAfter left word := by
  obtain ⟨length, size⟩ : ∃ length, word.length = length := ⟨_, rfl⟩
  induction length generalizing word with
  | zero =>
    obtain rfl := List.length_eq_zero_iff.mp size
    exact ⟨0, rfl⟩
  | succ length ih =>
    -- The first letter goes up to 122, each time that the letters behind it have gone round.
    have rounds (ups : Nat) : ∀ (letter : UInt8) (rest : List UInt8), (122 - letter).toNat = ups →
        rest.length = length → ∃ left, sampleUtils.EndsAfter left (letter :: rest) := by
      induction ups with
      | zero =>
        intro letter rest reached size
        obtain ⟨left, ends⟩ := ih rest size
        refine sample_ends_cons ends fun unequal => absurd ?_ unequal
        have zero : 122 - letter = 0 := UInt8.toNat_inj.mp reached
        grind
      | succ ups up =>
        intro letter rest away size
        obtain ⟨left, ends⟩ := ih rest size
        refine sample_ends_cons ends fun unequal next same => ?_
        refine up (letter + 1) next ?_ (same.trans size)
        rw [show 122 - (letter + 1) = 122 - letter - 1 by grind, UInt8.toNat_sub_of_le, away]
        · rfl
        · rw [UInt8.le_iff_toNat_le, away]
          exact Nat.succ_pos _
    cases word with
    | nil => cases size
    | cons letter rest => exact rounds _ letter rest rfl (Nat.succ.inj size)

theorem sample_exhausts : sampleUtils.Exhausts :=
  fun _ => sample_ends _

end Sample

end SystemProgramming.PasswordCracker
