import SystemProgramming.Foundations.Runs
import SystemProgramming.PasswordCracker.Utils
import Mathlib.Logic.Function.Basic

/-! The second password cracker: all threads search for one password, each in its own subrange. -/

namespace SystemProgramming.PasswordCracker.Cracker2

open Foundations

/-- Where a thread is in a round; each place but the last is before one use of a shared variable. -/
inductive Place where
  /-- In `generate_initial_password`, about to set `range_count` to 0. -/
  | reset
  /-- About to call `getSubrange`, which writes `range_count`. -/
  | subrange
  /-- In `search_for_password`, about to compare with `range_count`. -/
  | test
  /-- About to read `decrypted_password`. -/
  | check
  /-- About to hash, and to write `decrypted_password` if the hash is the right one. -/
  | hash
  /-- At the end of the round, with a status. -/
  | done (threadStatus : Nat)
  deriving DecidableEq, Repr

/-- The local variables of a thread. -/
structure Worker where
  place : Place
  initialPassword : List UInt8
  i : Nat
  computedHashes : Nat
  deriving DecidableEq, Repr

/-- The shared variables that change in a round, and the threads; `decrypted_password` may be `NULL`. -/
structure Round (threads : Nat) where
  rangeCount : Nat
  decryptedPassword : Option (List UInt8)
  workers : Fin threads → Worker

variable {threads : Nat}

/-- One thread goes on. -/
def Round.goto (st : Round threads) (thread : Fin threads) (worker : Worker) : Round threads :=
  { st with workers := Function.update st.workers thread worker }

/-- The id of a thread. -/
def threadId (thread : Fin threads) : Nat := thread.val + 1

/-- What a thread does next, in `generate_initial_password` and `search_for_password`. -/
def turn (utils : Utils) (password knownpass : List UInt8) (thread : Fin threads)
    (st : Round threads) : Option (Round threads) :=
  let worker := st.workers thread
  match worker.place with
  | .reset => some ({ st with rangeCount := 0 }.goto thread { worker with place := .subrange })
  | .subrange =>
    let (startPos, count) := utils.subrange knownpass threads (threadId thread)
    some ({ st with rangeCount := count }.goto thread
      { worker with
        place := .test
        initialPassword := utils.completion knownpass startPos
        i := 0 })
  | .test =>
    if worker.i < st.rangeCount then some (st.goto thread { worker with place := .check })
    else some (st.goto thread { worker with place := .done 2 })
  | .check =>
    if st.decryptedPassword.isSome then some (st.goto thread { worker with place := .done 1 })
    else some (st.goto thread { worker with place := .hash })
  | .hash =>
    if utils.crypt worker.initialPassword = password then
      some ({ st with decryptedPassword := some worker.initialPassword }.goto thread
        { worker with place := .done 0 })
    else
      -- The whole string is incremented, not only its unknown part.
      some (st.goto thread
        { worker with
          place := .test
          initialPassword := (utils.incrementString worker.initialPassword).1
          computedHashes := worker.computedHashes + 1
          i := worker.i + 1 })
  | .done _ => none

/-- A step of one thread. -/
def Step (utils : Utils) (password knownpass : List UInt8) (st : Round threads)
    (thread : Fin threads) (st' : Round threads) : Prop :=
  turn utils password knownpass thread st = some st'

/-- All threads have passed `start_barrier`; `range_count` and the locals are left from before. -/
def start (rangeCount : Nat) (old : Fin threads → Worker) : Round threads where
  rangeCount := rangeCount
  decryptedPassword := none
  workers thread := { old thread with place := .reset }

/-- All threads have come to `end_barrier`. -/
def Round.Ended (st : Round threads) : Prop :=
  ∀ thread, ∃ threadStatus, (st.workers thread).place = .done threadStatus

/-- In a step of the trace the word was hashed. -/
def Hashed (trace : List (Transition (Round threads) (Fin threads))) (word : List UInt8) : Prop :=
  ∃ taken ∈ trace, (taken.before.workers taken.action).place = .hash ∧
    (taken.before.workers taken.action).initialPassword = word

/--
While no password is found, the shared bound keeps no thread from a string of its own subrange, and
lets none go on to a string that is no completion.
-/
def Bounds (utils : Utils) (knownpass : List UInt8) (positions : Nat) (st : Round threads)
    (thread : Fin threads) : Prop :=
  (st.workers thread).place = .test → st.decryptedPassword = none →
    ((st.workers thread).i < (utils.subrange knownpass threads (threadId thread)).2 →
      (st.workers thread).i < st.rangeCount) ∧
    (positions ≤ (utils.subrange knownpass threads (threadId thread)).1 + (st.workers thread).i →
      st.rangeCount ≤ (st.workers thread).i)

section Search

variable {utils : Utils} {password knownpass : List UInt8} {positions : Nat}
  {st st' : Round threads} {thread other : Fin threads}
  {trace : List (Transition (Round threads) (Fin threads))}

/-- A thread has hashed the first completions of its subrange, and none was the password. -/
def Tried (utils : Utils) (password knownpass : List UInt8) (positions : Nat)
    (trace : List (Transition (Round threads) (Fin threads))) (thread : Fin threads)
    (count : Nat) : Prop :=
  ∀ distance, distance < count →
    (utils.subrange knownpass threads (threadId thread)).1 + distance < positions →
    Hashed trace (utils.completion knownpass
      ((utils.subrange knownpass threads (threadId thread)).1 + distance)) ∧
    utils.crypt (utils.completion knownpass
      ((utils.subrange knownpass threads (threadId thread)).1 + distance)) ≠ password

/-- A string is the completion at a position, if there is one. -/
def Current (utils : Utils) (knownpass : List UInt8) (positions position : Nat)
    (word : List UInt8) : Prop :=
  position < positions → word = utils.completion knownpass position

/-- What is known of a thread, where it is. -/
def Sound (utils : Utils) (password knownpass : List UInt8) (positions : Nat)
    (trace : List (Transition (Round threads) (Fin threads))) (found : Option (List UInt8))
    (thread : Fin threads) (worker : Worker) : Prop :=
  let startPos := (utils.subrange knownpass threads (threadId thread)).1
  let trying := Current utils knownpass positions (startPos + worker.i) worker.initialPassword ∧
    Tried utils password knownpass positions trace thread worker.i
  match worker.place with
  | .reset | .subrange => True
  | .test => trying
  | .check => trying ∧ (found = none → startPos + worker.i < positions)
  | .hash => trying ∧ startPos + worker.i < positions
  | .done _ => found = none → Tried utils password knownpass positions trace thread
      (utils.subrange knownpass threads (threadId thread)).2

/-- A password that was found is right, and every thread has tried what it went past. -/
structure Searched (utils : Utils) (password knownpass : List UInt8) (positions : Nat)
    (trace : List (Transition (Round threads) (Fin threads))) (st : Round threads) : Prop where
  right : ∀ word, st.decryptedPassword = some word → utils.crypt word = password ∧
    ∃ position, position < positions ∧ word = utils.completion knownpass position
  sound : ∀ thread, Sound utils password knownpass positions trace st.decryptedPassword thread
    (st.workers thread)

/-- What was hashed stays so. -/
theorem Hashed.mono {word : List UInt8} {taken : Transition (Round threads) (Fin threads)}
    (hashed : Hashed trace word) : Hashed (trace ++ [taken]) word := by
  obtain ⟨before, member, at_hash⟩ := hashed
  exact ⟨before, List.mem_append_left _ member, at_hash⟩

theorem Tried.mono {count : Nat} {taken : Transition (Round threads) (Fin threads)}
    (tried : Tried utils password knownpass positions trace thread count) :
    Tried utils password knownpass positions (trace ++ [taken]) thread count := by
  intro distance below inside
  obtain ⟨hashed, wrong⟩ := tried distance below inside
  exact ⟨hashed.mono, wrong⟩

/-- Fewer completions are tried as well. -/
theorem Tried.of_le {count fewer : Nat}
    (tried : Tried utils password knownpass positions trace thread count) (le : fewer ≤ count) :
    Tried utils password knownpass positions trace thread fewer :=
  fun distance below inside => tried distance (Nat.lt_of_lt_of_le below le) inside

/-- What is known of a thread stays known in a longer trace, also when a password is found. -/
theorem Sound.mono {found later : Option (List UInt8)} {worker : Worker}
    {taken : Transition (Round threads) (Fin threads)}
    (sound : Sound utils password knownpass positions trace found thread worker)
    (kept : later = none → found = none) :
    Sound utils password knownpass positions (trace ++ [taken]) later thread worker := by
  obtain ⟨place, word, i, computed⟩ := worker
  cases place with
  | reset => trivial
  | subrange => trivial
  | test => exact ⟨sound.1, sound.2.mono⟩
  | check => exact ⟨⟨sound.1.1, sound.1.2.mono⟩, fun none => sound.2 (kept none)⟩
  | hash => exact ⟨⟨sound.1.1, sound.1.2.mono⟩, sound.2⟩
  | done threadStatus => exact fun none => (sound (kept none)).mono

/-- One thread goes on, and the others know what they knew. -/
theorem Searched.goto {found : Option (List UInt8)} {worker : Worker}
    {taken : Transition (Round threads) (Fin threads)}
    (searched : Searched utils password knownpass positions trace st) (rangeCount : Nat)
    (right : ∀ word, found = some word → utils.crypt word = password ∧
      ∃ position, position < positions ∧ word = utils.completion knownpass position)
    (kept : found = none → st.decryptedPassword = none)
    (own : Sound utils password knownpass positions (trace ++ [taken]) found thread worker) :
    Searched utils password knownpass positions (trace ++ [taken])
      (Round.goto ⟨rangeCount, found, st.workers⟩ thread worker) := by
  refine ⟨right, fun other => ?_⟩
  show Sound utils password knownpass positions (trace ++ [taken]) found other
    (Function.update st.workers thread worker other)
  rw [Function.update_apply]
  split
  · rename_i same
    exact same ▸ own
  · exact (searched.sound other).mono kept

/-- A thread compares its count with the bound, which is right. -/
theorem Searched.tests {word : List UInt8} {i computed : Nat}
    (searched : Searched utils password knownpass positions trace st)
    (here : st.workers thread = ⟨.test, word, i, computed⟩)
    (stepped : Step utils password knownpass st thread st')
    (bounds : Bounds utils knownpass positions st thread) :
    Searched utils password knownpass positions (trace ++ [⟨st, thread, st'⟩]) st' := by
  have sound := searched.sound thread
  rw [Step, Cracker2.turn] at stepped
  rw [Bounds] at bounds
  simp only [here] at stepped bounds sound
  obtain ⟨current, tried⟩ := sound
  have bounds := bounds trivial
  split at stepped
  · rename_i goesOn
    obtain rfl := Option.some.inj stepped
    refine searched.goto _ searched.right id ⟨⟨current, tried.mono⟩, fun missing => ?_⟩
    -- A string that is no completion is not gone on to.
    apply Nat.lt_of_not_le
    intro outside
    exact absurd goesOn (Nat.not_lt.mpr ((bounds missing).2 outside))
  · rename_i stops
    obtain rfl := Option.some.inj stepped
    refine searched.goto _ searched.right id fun missing => ?_
    -- The subrange is at its end, as the bound keeps no thread from it before.
    have whole : (utils.subrange knownpass threads (threadId thread)).2 ≤ i := by
      apply Nat.le_of_not_lt
      intro left
      exact stops ((bounds missing).1 left)
    exact tried.mono.of_le whole

/-- A thread hashes its string, and stops if that is the password. -/
theorem Searched.hashes {word : List UInt8} {i computed : Nat}
    (splits : utils.Splits knownpass threads positions)
    (searched : Searched utils password knownpass positions trace st)
    (here : st.workers thread = ⟨.hash, word, i, computed⟩)
    (stepped : Step utils password knownpass st thread st') :
    Searched utils password knownpass positions (trace ++ [⟨st, thread, st'⟩]) st' := by
  have sound := searched.sound thread
  rw [Step, Cracker2.turn] at stepped
  simp only [here] at stepped sound
  obtain ⟨⟨current, tried⟩, inside⟩ := sound
  have word_eq := current inside
  simp only at word_eq
  split at stepped
  · rename_i right
    obtain rfl := Option.some.inj stepped
    refine searched.goto _ ?_ nofun nofun
    intro other same
    obtain rfl := Option.some.inj same
    exact ⟨right, _, inside, word_eq⟩
  · rename_i wrong
    obtain rfl := Option.some.inj stepped
    refine searched.goto _ searched.right id ⟨fun further => ?_, ?_⟩
    · -- The next string is the completion at the next position.
      show (utils.incrementString word).1 = _
      rw [word_eq]
      exact splits.next _ further
    · intro distance below within
      rcases Nat.lt_succ_iff_lt_or_eq.mp below with earlier | rfl
      · obtain ⟨hashed, unequal⟩ := tried distance earlier within
        exact ⟨hashed.mono, unequal⟩
      · rw [← word_eq]
        refine ⟨⟨_, List.mem_append_right _ (List.mem_singleton_self _), ?_, ?_⟩, wrong⟩
        · exact congrArg Worker.place here
        · exact congrArg Worker.initialPassword here

/-- One turn of a thread whose bound is right, place by place. -/
theorem Searched.turn (splits : utils.Splits knownpass threads positions)
    (searched : Searched utils password knownpass positions trace st)
    (stepped : Step utils password knownpass st thread st')
    (bounds : Bounds utils knownpass positions st thread) :
    Searched utils password knownpass positions (trace ++ [⟨st, thread, st'⟩]) st' := by
  obtain ⟨worker, here⟩ : ∃ worker, st.workers thread = worker := ⟨_, rfl⟩
  obtain ⟨place, word, i, computed⟩ := worker
  cases place with
  | test => exact searched.tests here stepped bounds
  | hash => exact searched.hashes splits here stepped
  | reset =>
    simp only [Step, Cracker2.turn, here] at stepped
    obtain rfl := Option.some.inj stepped
    exact searched.goto 0 searched.right id trivial
  | subrange =>
    simp only [Step, Cracker2.turn, here] at stepped
    obtain rfl := Option.some.inj stepped
    -- The search begins at the first completion of the subrange, where nothing is tried yet.
    exact searched.goto _ searched.right id
      ⟨fun _ => rfl, fun distance below => absurd below (Nat.not_lt_zero _)⟩
  | check =>
    have sound := searched.sound thread
    simp only [Step, Cracker2.turn, here] at stepped sound
    obtain ⟨⟨current, tried⟩, inside⟩ := sound
    split at stepped
    · rename_i found
      obtain rfl := Option.some.inj stepped
      refine searched.goto _ searched.right id fun missing => ?_
      rw [missing] at found
      cases found
    · rename_i missing
      obtain rfl := Option.some.inj stepped
      exact searched.goto _ searched.right id
        ⟨⟨current, tried.mono⟩, inside (Option.not_isSome_iff_eq_none.mp missing)⟩
  | done threadStatus =>
    simp only [Step, Cracker2.turn, here] at stepped
    cases stepped

/-- What is known at the end of a round in which the shared bound was always right. -/
theorem searched_of_run (splits : utils.Splits knownpass threads positions)
    {rangeCount : Nat} {old : Fin threads → Worker} {final : Round threads}
    (run : Run (Step utils password knownpass) (start rangeCount old) trace final)
    (bounds : ∀ taken ∈ trace, Bounds utils knownpass positions taken.before taken.action) :
    Searched utils password knownpass positions trace final := by
  revert bounds
  refine @Run.history _ _ (Step utils password knownpass) (start rangeCount old) final trace
    (fun trace st => (∀ taken ∈ trace, Bounds utils knownpass positions taken.before taken.action) →
      Searched utils password knownpass positions trace st) run ?_ ?_
  · exact fun _ => ⟨nofun, fun thread => trivial⟩
  · intro trace before thread after ih stepped bounds
    have past := ih fun taken member => bounds taken (List.mem_append_left _ member)
    have now := bounds ⟨before, thread, after⟩ (by simp)
    exact past.turn splits stepped now

/--
Where the shared bound is right in all steps of a round, the password that was found at its end is
right, and if none of the completions is the password then all were hashed.
-/
theorem no_password_missed (splits : utils.Splits knownpass threads positions)
    {rangeCount : Nat} {old : Fin threads → Worker} {final : Round threads}
    (run : Run (Step utils password knownpass) (start rangeCount old) trace final)
    (ended : final.Ended)
    (bounds : ∀ taken ∈ trace, Bounds utils knownpass positions taken.before taken.action) :
    ((∃ position, position < positions ∧
        utils.crypt (utils.completion knownpass position) = password) →
      ∃ position, position < positions ∧
        utils.crypt (utils.completion knownpass position) = password ∧
        final.decryptedPassword = some (utils.completion knownpass position)) ∧
    ((∀ position, position < positions →
        utils.crypt (utils.completion knownpass position) ≠ password) →
      final.decryptedPassword = none ∧
        ∀ position, position < positions → Hashed trace (utils.completion knownpass position)) := by
  have searched := searched_of_run splits run bounds
  -- Every position lies in the subrange of a thread, which tried it unless a password was found.
  have tried (missing : final.decryptedPassword = none) (position : Nat)
      (below : position < positions) :
      Hashed trace (utils.completion knownpass position) ∧
        utils.crypt (utils.completion knownpass position) ≠ password := by
    obtain ⟨id, ⟨positive, most⟩, ⟨lower, upper⟩, _⟩ := splits.covered position below
    obtain ⟨thread, rfl⟩ : ∃ thread : Fin threads, threadId thread = id :=
      ⟨⟨id - 1, by omega⟩, Nat.sub_add_cancel positive⟩
    obtain ⟨threadStatus, done⟩ := ended thread
    have sound := searched.sound thread
    rw [Sound, done] at sound
    obtain ⟨distance, rfl⟩ := Nat.exists_eq_add_of_le lower
    exact sound missing distance (by omega) below
  constructor
  · rintro ⟨position, below, right⟩
    cases found : final.decryptedPassword with
    | none => exact absurd right (tried found position below).2
    | some word =>
      obtain ⟨hashes, other, within, rfl⟩ := searched.right word found
      exact ⟨other, within, hashes, rfl⟩
  · intro wrong
    have missing : final.decryptedPassword = none := by
      apply Option.eq_none_iff_forall_ne_some.mpr
      intro word found
      obtain ⟨hashes, position, within, rfl⟩ := searched.right word found
      exact wrong position within hashes
    exact ⟨missing, fun position below => (tried missing position below).1⟩

end Search

section Sample

instance Bounds.decidable (utils : Utils) (knownpass : List UInt8) (positions : Nat)
    (st : Round threads) (thread : Fin threads) :
    Decidable (Bounds utils knownpass positions st thread) :=
  inferInstanceAs (Decidable (_ → _ → _ ∧ _))

/-- Threads that search for a password "a" that is known. -/
def sampleStart (threads : Nat) : Round threads :=
  start 0 fun _ => ⟨.done 2, [], 0, 0⟩

def samplePlay (schedule : List (Fin threads)) :
    Option (List (Transition (Round threads) (Fin threads)) × Round threads) :=
  play (turn sampleUtils [97] [97]) schedule (sampleStart threads)

/-- The one string to try lies in the subrange of the second of two threads. -/
theorem sample_splits : sampleUtils.Splits [97] 2 1 := by
  have empty : sampleUtils.subrange [97] 2 1 = (0, 0) := by decide
  have whole : sampleUtils.subrange [97] 2 2 = (0, 1) := by decide
  have inside (id position : Nat) (first : 1 ≤ id) (last : id ≤ 2)
      (member : sampleUtils.InSubrange [97] 2 id position) : id = 2 ∧ position < 1 := by
    rcases Nat.eq_or_lt_of_le first with rfl | more
    · rw [Utils.InSubrange, empty] at member
      exact absurd member.2 (Nat.not_lt_zero _)
    · obtain rfl : id = 2 := by omega
      rw [Utils.InSubrange, whole] at member
      exact ⟨rfl, member.2⟩
  refine ⟨fun id position first last member => (inside id position first last member).2, ?_, ?_⟩
  · intro position below
    obtain rfl : position = 0 := by omega
    refine ⟨2, by decide, ⟨by decide, by decide⟩, ?_⟩
    exact fun other first last member => (inside other 0 first last member).1
  · intro position below
    omega

theorem sample_searched : ∃ trace, ∃ final : Round 2,
    samplePlay [0, 1, 0, 1, 1, 1, 1, 0, 0] = some (trace, final) ∧
      (∀ thread, (final.workers thread).place = .done (1 - thread.val)) ∧
      ∀ taken ∈ trace, Bounds sampleUtils [97] 1 taken.before taken.action :=
  ⟨_, _, rfl, by decide, by decide⟩

/-- Both threads have their subranges before they search, so the second one finds it. -/
theorem no_password_missed_known : ∃ trace, ∃ final : Round 2,
    samplePlay [0, 1, 0, 1, 1, 1, 1, 0, 0] = some (trace, final) ∧
      final.decryptedPassword = some [97] := by
  obtain ⟨trace, final, played, ended, bounds⟩ := sample_searched
  refine ⟨trace, final, played, ?_⟩
  obtain ⟨position, below, right, found⟩ := (no_password_missed sample_splits (run_of_play played)
    (fun thread => ⟨_, ended thread⟩) bounds).1 ⟨0, by decide, by decide⟩
  obtain rfl : position = 0 := by omega
  exact found

theorem sample_cut_short : ∃ trace, ∃ final : Round 2,
    samplePlay [1, 1, 0, 1, 0, 0] = some (trace, final) ∧
      (∀ thread, (final.workers thread).place = .done 2) ∧ final.decryptedPassword = none :=
  ⟨_, _, rfl, by decide, rfl⟩

/--
The second of two threads has its string before it when the first one sets `range_count` to 0, and it
ends its search.
-/
theorem cut_short : ¬ ∀ (utils : Utils) (password knownpass : List UInt8)
    (threads positions rangeCount : Nat) (old : Fin threads → Worker)
    (trace : List (Transition (Round threads) (Fin threads))) (final : Round threads),
    utils.Splits knownpass threads positions →
    Run (Step utils password knownpass) (start rangeCount old) trace final → final.Ended →
    (∃ position, position < positions ∧
      utils.crypt (utils.completion knownpass position) = password) →
    ∃ position, position < positions ∧
      final.decryptedPassword = some (utils.completion knownpass position) := by
  intro claim
  obtain ⟨trace, final, played, ended, missed⟩ := sample_cut_short
  obtain ⟨position, _, found⟩ := claim sampleUtils [97] [97] 2 1 0 (fun _ => ⟨.done 2, [], 0, 0⟩) _ _
    sample_splits (run_of_play played) (fun thread => ⟨2, ended thread⟩) ⟨0, by decide, by decide⟩
  rw [missed] at found
  cases found

end Sample

end SystemProgramming.PasswordCracker.Cracker2
