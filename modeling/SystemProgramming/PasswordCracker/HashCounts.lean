import SystemProgramming.PasswordCracker.Cracker1
import SystemProgramming.PasswordCracker.Cracker2
import Mathlib.Algebra.BigOperators.Fin

/-! The rounds of the second password cracker, one for each line, and the totals of their summaries. -/

namespace SystemProgramming.PasswordCracker.Cracker2

open Foundations

/-- The global variables, and what the threads have kept. -/
structure Session (threads : Nat) where
  userName : List UInt8
  password : List UInt8
  knownpass : List UInt8
  rangeCount : Nat
  workers : Fin threads → Worker
  overallHashCount : Nat

/-- Before the first line: global variables are zero, and so is each `computed_hashes`. -/
def launch (threads : Nat) : Session threads where
  userName := []
  password := []
  knownpass := []
  rangeCount := 0
  workers _ := ⟨.reset, [], 0, 0⟩
  overallHashCount := 0

/-- A `%s` of `sscanf`: where there is no word, the variable keeps its value. -/
def assign (old word : List UInt8) : List UInt8 :=
  if word = [] then old else word

variable {threads : Nat}

/-- `sscanf` of a line into the global variables. It is undefined where words do not fit. -/
def Session.scan (st : Session threads) (command : List UInt8) : Option (Session threads) :=
  let (userName, rest) := Cracker1.nextWord (command.takeWhile (· ≠ 0))
  let (password, rest) := Cracker1.nextWord rest
  let (knownpass, _) := Cracker1.nextWord rest
  if 16 ≤ userName.length ∨ 16 ≤ password.length ∨ 32 ≤ knownpass.length then none
  else
    some { st with
      userName := assign st.userName userName
      password := assign st.password password
      knownpass := assign st.knownpass knownpass }

/-- `overall_hash_count += computed_hashes`, which is undefined where the sum does not fit an `int`. -/
def addHashes (overallHashCount computedHashes : Nat) : Option Nat :=
  if overallHashCount + computedHashes < 2147483648 then some (overallHashCount + computedHashes)
  else none

/-- The loop over all threads after a round; a counter that was too large leaves a sum that is. -/
def sumHashes (workers : Fin threads → Worker) (overallHashCount : Nat) : Option Nat :=
  (List.finRange threads).foldlM (fun overall thread => addHashes overall (workers thread).computedHashes)
    overallHashCount

/-- A round: the line of a user, and the steps of the threads. -/
structure UserRound (threads : Nat) where
  command : List UInt8
  steps : List (Transition (Round threads) (Fin threads))

/-- The threads search for the password of the line, until all have come to `end_barrier`. -/
structure Played (utils : Utils) (st : Session threads) (round : UserRound threads)
    (scanned : Session threads) (final : Round threads) : Prop where
  scans : st.scan round.command = some scanned
  run : Run (Step utils scanned.password scanned.knownpass)
    (start scanned.rangeCount scanned.workers) round.steps final
  ended : final.Ended

/-- What is kept for the next round, with the total that the summary has printed. -/
def Session.summarise (st : Session threads) (final : Round threads) (total : Nat) :
    Session threads :=
  { st with rangeCount := final.rangeCount, workers := final.workers, overallHashCount := total }

/-- A round up to its summary. -/
def Summarised (utils : Utils) (st : Session threads) (round : UserRound threads)
    (after : Session threads) : Prop :=
  ∃ scanned final total, Played utils st round scanned final ∧
    sumHashes final.workers scanned.overallHashCount = some total ∧
    after = scanned.summarise final total

/-- In this step a thread calls `crypt_r`. -/
def hashes (taken : Transition (Round threads) (Fin threads)) : Bool :=
  (taken.before.workers taken.action).place = .hash

/-- In this step a thread hashes a string that is not the password, and goes on. -/
def misses (taken : Transition (Round threads) (Fin threads)) : Bool :=
  hashes taken && (taken.after.workers taken.action).place = .test

/-- In this step a thread hashes the password, and leaves its loop. -/
def hits (taken : Transition (Round threads) (Fin threads)) : Bool :=
  hashes taken && (taken.after.workers taken.action).place = .done 0

/-- The calls of `crypt_r` in a round that do not find the password. -/
def UserRound.misses (round : UserRound threads) : Nat :=
  round.steps.countP Cracker2.misses

/-- The hashes without success of some rounds, each once. -/
def missed (trace : List (Transition (Session threads) (UserRound threads))) : Nat :=
  (trace.map fun taken => taken.action.misses).sum

/--
The same, but each as often as later summaries count it: once in its own thread's counter, and once for
each summary since then.
-/
def carried : List (Transition (Session threads) (UserRound threads)) → Nat
  | [] => 0
  | taken :: later => (later.length + 2) * taken.action.misses + carried later

section Round

variable {utils : Utils} {password knownpass : List UInt8} {st st' final : Round threads}
  {thread : Fin threads} {trace : List (Transition (Round threads) (Fin threads))}

/-- The sum of the threads' counters. -/
def counted (workers : Fin threads → Worker) : Nat :=
  ∑ thread, (workers thread).computedHashes

/-- One thread goes on, and the sum changes by what its own counter does. -/
theorem counted_goto (st : Round threads) (thread : Fin threads) (worker : Worker) (more : Nat)
    (own : worker.computedHashes = (st.workers thread).computedHashes + more) :
    counted (st.goto thread worker).workers = counted st.workers + more := by
  -- In the two sums, all counters but one are the same.
  have sums := Cracker1.sum_update (fun _ : Fin threads => Worker.computedHashes) st.workers thread
    worker
  rw [counted, counted]
  show (∑ other, (Function.update st.workers thread worker other).computedHashes) = _
  omega

/-- A round begins with what the counters were. -/
theorem counted_start (rangeCount : Nat) (old : Fin threads → Worker) :
    counted (start rangeCount old).workers = counted old :=
  rfl

/-- A thread is where it went. -/
@[simp] theorem Round.goto_self (st : Round threads) (thread : Fin threads) (worker : Worker) :
    (st.goto thread worker).workers thread = worker :=
  Function.update_self _ _ _

/-- In a step the counters grow by one if a string was hashed without success. -/
theorem counted_step (stepped : Step utils password knownpass st thread st') :
    counted st'.workers = counted st.workers + if misses ⟨st, thread, st'⟩ then 1 else 0 := by
  rw [Step, turn] at stepped
  cases here : (st.workers thread).place with
  | reset =>
    simp only [here] at stepped
    obtain rfl := Option.some.inj stepped
    rw [misses, hashes, here]
    exact counted_goto _ thread _ 0 rfl
  | subrange =>
    simp only [here] at stepped
    obtain rfl := Option.some.inj stepped
    rw [misses, hashes, here]
    exact counted_goto _ thread _ 0 rfl
  | test =>
    simp only [here] at stepped
    rw [misses, hashes, here]
    split at stepped
    · obtain rfl := Option.some.inj stepped
      exact counted_goto _ thread _ 0 rfl
    · obtain rfl := Option.some.inj stepped
      exact counted_goto _ thread _ 0 rfl
  | check =>
    simp only [here] at stepped
    rw [misses, hashes, here]
    split at stepped
    · obtain rfl := Option.some.inj stepped
      exact counted_goto _ thread _ 0 rfl
    · obtain rfl := Option.some.inj stepped
      exact counted_goto _ thread _ 0 rfl
  | hash =>
    simp only [here] at stepped
    rw [misses, hashes, here]
    split at stepped
    · -- The thread that finds the password leaves its loop before it counts.
      obtain rfl := Option.some.inj stepped
      simp only [Round.goto_self]
      exact counted_goto _ thread _ 0 rfl
    · -- A string that is not the password is counted, and the next one is tried.
      obtain rfl := Option.some.inj stepped
      simp only [Round.goto_self]
      exact counted_goto _ thread _ 1 rfl
  | done threadStatus =>
    simp only [here] at stepped
    cases stepped

/-- A call of `crypt_r` finds the password, or it does not. -/
theorem hashes_step (stepped : Step utils password knownpass st thread st') :
    (if hashes ⟨st, thread, st'⟩ then 1 else 0) =
      (if misses ⟨st, thread, st'⟩ then 1 else 0) + if hits ⟨st, thread, st'⟩ then 1 else 0 := by
  by_cases here : (st.workers thread).place = .hash
  · -- Behind the hash, a thread is at the end of its round or back at the loop condition.
    rw [Step, turn] at stepped
    simp only [here] at stepped
    rw [misses, hits, hashes, here]
    split at stepped
    · obtain rfl := Option.some.inj stepped
      simp
    · obtain rfl := Option.some.inj stepped
      simp
  · simp [misses, hits, hashes, here]

/-- Over a round, the counters grow by the number of hashes without success. -/
theorem counted_of_run {origin : Round threads}
    (run : Run (Step utils password knownpass) origin trace final) :
    counted final.workers = counted origin.workers + trace.countP misses :=
  @Run.counted _ _ _ _ _ _ (fun st => counted st.workers) misses run
    fun _ stepped => counted_step stepped

/-- All calls of `crypt_r` in a round are those without success and those with it. -/
theorem hashes_of_run {origin : Round threads}
    (run : Run (Step utils password knownpass) origin trace final) :
    trace.countP hashes = trace.countP misses + trace.countP hits := by
  refine @Run.history _ _ _ _ _ _ (fun trace _ =>
    trace.countP hashes = trace.countP misses + trace.countP hits) run rfl ?_
  intro trace before thread after ih stepped
  have last := hashes_step stepped
  simp only [List.countP_append, List.countP_singleton]
  omega

end Round

section Totals

/-- A running sum of an `int` is the whole sum, where this fits. -/
theorem foldlM_addHashes (counts : List Nat) (overallHashCount : Nat)
    (fits : overallHashCount < 2147483648) :
    counts.foldlM addHashes overallHashCount =
      if overallHashCount + counts.sum < 2147483648 then some (overallHashCount + counts.sum)
      else none := by
  -- The induction is on the threads that are left, with what is summed so far.
  induction counts generalizing overallHashCount with
  | nil => simp [fits]
  | cons count counts ih =>
    rw [List.foldlM_cons, addHashes, List.sum_cons, ← Nat.add_assoc]
    split
    · rename_i small
      exact ih _ small
    · -- A sum that does not fit does not fit with more added, either.
      rename_i large
      rw [if_neg (by omega)]
      rfl

/-- So the loop over the threads adds up their counters. -/
theorem sumHashes_eq (workers : Fin threads → Worker) {overallHashCount : Nat}
    (fits : overallHashCount < 2147483648) : sumHashes workers overallHashCount =
      if overallHashCount + counted workers < 2147483648 then
        some (overallHashCount + counted workers)
      else none := by
  -- A sum over all threads is one over the list of them.
  have total := foldlM_addHashes ((List.finRange threads).map fun thread =>
    (workers thread).computedHashes) overallHashCount fits
  rw [List.foldlM_map] at total
  rw [sumHashes, total, counted, Fin.sum_univ_def]

end Totals

section Rounds

variable {utils : Utils} {st scanned : Session threads} {round : UserRound threads}
  {final : Round threads} {trace : List (Transition (Session threads) (UserRound threads))}

theorem missed_append (taken : Transition (Session threads) (UserRound threads)) :
    missed (trace ++ [taken]) = missed trace + taken.action.misses := by
  simp [missed]

/-- A further round counts all earlier hashes once more, and its own ones twice. -/
theorem carried_append (taken : Transition (Session threads) (UserRound threads)) :
    carried (trace ++ [taken]) = carried trace + missed trace + 2 * taken.action.misses := by
  induction trace with
  | nil => simp [carried, missed]
  | cons first later ih =>
    -- The first round has one more summary behind it.
    have longer : (later ++ [taken]).length + 2 = later.length + 2 + 1 := by simp
    have all : missed (first :: later) = first.action.misses + missed later := List.sum_cons
    rw [List.cons_append, carried, longer, Nat.succ_mul, ih, carried, all]
    omega

/-- The counters of the threads are never reset, and nor is the total. -/
structure Carries (trace : List (Transition (Session threads) (UserRound threads)))
    (st : Session threads) : Prop where
  counters : counted st.workers = missed trace
  total : st.overallHashCount + counted st.workers = carried trace
  fits : st.overallHashCount < 2147483648

/-- A line changes no counter. -/
theorem scan_keeps {command : List UInt8} (scans : st.scan command = some scanned) :
    scanned.workers = st.workers ∧ scanned.overallHashCount = st.overallHashCount := by
  simp only [Session.scan] at scans
  split at scans
  · cases scans
  · obtain rfl := Option.some.inj scans
    exact ⟨rfl, rfl⟩

/-- What the loop over the threads comes to at the end of a round. -/
theorem Carries.sum_eq (carries : Carries trace st) (played : Played utils st round scanned final) :
    counted final.workers = missed trace + round.misses ∧
      sumHashes final.workers scanned.overallHashCount =
        if carried trace + round.misses < 2147483648 then some (carried trace + round.misses)
        else none := by
  obtain ⟨workers, overall⟩ := scan_keeps played.scans
  have grown : counted final.workers = counted st.workers + round.misses := by
    rw [counted_of_run played.run, counted_start, workers]
    rfl
  refine ⟨by rw [grown, carries.counters], ?_⟩
  rw [overall, sumHashes_eq final.workers carries.fits, grown, ← Nat.add_assoc, carries.total]

theorem Carries.step (carries : Carries trace st) {after : Session threads}
    (stepped : Summarised utils st round after) : Carries (trace ++ [⟨st, round, after⟩]) after := by
  obtain ⟨scanned, final, total, played, summed, rfl⟩ := stepped
  obtain ⟨counters, sum⟩ := carries.sum_eq played
  rw [sum] at summed
  split at summed
  · rename_i small
    obtain rfl := Option.some.inj summed
    -- The new total and the new counters both hold the hashes of this round.
    refine ⟨?_, ?_, small⟩
    · rw [missed_append]
      exact counters
    · rw [carried_append]
      show carried trace + round.misses + counted final.workers =
        carried trace + missed trace + 2 * round.misses
      omega
  · cases summed

/-- What the counters are after any number of rounds. -/
theorem carries_of_run (run : Run (Summarised utils) (launch threads) trace st) :
    Carries trace st := by
  refine @Run.history _ _ _ _ _ _ Carries run ⟨?_, ?_, (by decide : 0 < 2147483648)⟩ ?_
  · exact Finset.sum_const_zero
  · exact (Nat.zero_add _).trans Finset.sum_const_zero
  · exact fun trace before round after carries stepped => carries.step stepped

/--
After any number of rounds, the total of the next summary is the number of calls of `crypt_r` in its
round exactly if what is left over from earlier rounds makes up for the successful hashes of this one,
which no thread counts.
-/
theorem counts_iff (run : Run (Summarised utils) (launch threads) trace st)
    (played : Played utils st round scanned final) :
    sumHashes final.workers scanned.overallHashCount = some (round.steps.countP hashes) ↔
      carried trace = round.steps.countP hits ∧ round.steps.countP hashes < 2147483648 := by
  obtain ⟨_, sum⟩ := (carries_of_run run).sum_eq played
  have all : round.steps.countP hashes = round.misses + round.steps.countP hits :=
    hashes_of_run played.run
  rw [sum]
  constructor
  · intro counts
    split at counts
    · -- Both numbers hold the misses of this round; what is beside them has to be the same.
      rename_i small
      have same := Option.some.inj counts
      omega
    · cases counts
  · rintro ⟨same, small⟩
    have whole : carried trace + round.misses = round.steps.countP hashes := by omega
    rw [whole, if_pos small]

end Rounds

section Samples

/-- A round of a single thread. -/
def sampleRound (st : Session 1) (command : List UInt8) (turns : Nat) :
    Option (UserRound 1 × Session 1 × Round 1) :=
  (st.scan command).bind fun scanned =>
    (play (turn sampleUtils scanned.password scanned.knownpass) (List.replicate turns 0)
      (start scanned.rangeCount scanned.workers)).map fun (steps, final) =>
        (⟨command, steps⟩, scanned, final)

theorem played_of_sample {st scanned : Session 1} {command : List UInt8} {turns threadStatus : Nat}
    {round : UserRound 1} {final : Round 1}
    (sample : sampleRound st command turns = some (round, scanned, final))
    (ended : (final.workers 0).place = .done threadStatus) :
    Played sampleUtils st round scanned final := by
  obtain ⟨_, scans, rest⟩ := Option.bind_eq_some_iff.mp sample
  obtain ⟨⟨steps, _⟩, played, same⟩ := Option.map_eq_some_iff.mp rest
  obtain ⟨rfl, parts⟩ := Prod.mk.inj same
  obtain ⟨rfl, rfl⟩ := Prod.mk.inj parts
  refine ⟨scans, run_of_play played, fun thread => ⟨threadStatus, ?_⟩⟩
  rw [Subsingleton.elim thread 0, ended]

/-- The line "u b a", of a password that is not the known one. -/
def missedLine : List UInt8 := [117, 32, 98, 32, 97, 10]

/-- The line "u a a". -/
def foundLine : List UInt8 := [117, 32, 97, 32, 97, 10]

theorem sample_missed : ∃ round scanned final,
    sampleRound (launch 1) missedLine 6 = some (round, scanned, final) ∧
      (final.workers 0).place = .done 2 ∧ round.steps.countP hashes = 1 ∧
      round.steps.countP hits = 0 :=
  ⟨_, _, _, rfl, by decide, by decide, by decide⟩

/-- A string that is not the password is hashed once, and counted once. -/
theorem counts_iff_missed : ∃ round scanned final,
    sampleRound (launch 1) missedLine 6 = some (round, scanned, final) ∧
      sumHashes final.workers scanned.overallHashCount = some (round.steps.countP hashes) := by
  obtain ⟨round, scanned, final, sample, ended, all, none⟩ := sample_missed
  refine ⟨round, scanned, final, sample,
    (counts_iff .start (played_of_sample sample ended)).mpr ⟨none.symm, ?_⟩⟩
  rw [all]
  decide

theorem sample_found : ∃ round scanned final,
    sampleRound (launch 1) foundLine 5 = some (round, scanned, final) ∧
      (final.workers 0).place = .done 0 ∧ round.steps.countP hashes = 1 ∧
      sumHashes final.workers scanned.overallHashCount = some 0 :=
  ⟨_, _, _, rfl, by decide, by decide, by decide⟩

theorem sample_again : ∃ round scanned final after next scanned' final',
    sampleRound (launch 1) missedLine 6 = some (round, scanned, final) ∧
      (final.workers 0).place = .done 2 ∧
      sumHashes final.workers scanned.overallHashCount = some 1 ∧
      after = scanned.summarise final 1 ∧
      sampleRound after missedLine 6 = some (next, scanned', final') ∧
      (final'.workers 0).place = .done 2 ∧ next.steps.countP hashes = 1 ∧
      next.steps.countP hits = 0 ∧
      sumHashes final'.workers scanned'.overallHashCount = some 3 :=
  ⟨_, _, _, _, _, _, _, rfl, by decide, by decide, rfl, rfl, by decide, by decide, by decide, by decide⟩

/--
The first summary does not count the hash that finds the password, and where none is found the second
one counts the hash of the first round twice more.
-/
theorem counts_carry_over :
    (¬ ∀ (utils : Utils) (threads : Nat) (round : UserRound threads) (scanned : Session threads)
      (final : Round threads), Played utils (launch threads) round scanned final →
      sumHashes final.workers scanned.overallHashCount = some (round.steps.countP hashes)) ∧
    ¬ ∀ (utils : Utils) (threads : Nat)
      (trace : List (Transition (Session threads) (UserRound threads))) (st : Session threads)
      (round : UserRound threads) (scanned : Session threads) (final : Round threads),
      Run (Summarised utils) (launch threads) trace st → Played utils st round scanned final →
      round.steps.countP hits = 0 →
      sumHashes final.workers scanned.overallHashCount = some (round.steps.countP hashes) := by
  constructor
  · intro claim
    obtain ⟨round, scanned, final, sample, ended, all, total⟩ := sample_found
    have counts := claim _ _ _ _ _ (played_of_sample sample ended)
    rw [all, total] at counts
    cases counts
  · intro claim
    obtain ⟨round, scanned, final, after, next, scanned', final', sample, ended, total, rfl, again,
      ended', all, none, total'⟩ := sample_again
    have first : Summarised sampleUtils (launch 1) round (scanned.summarise final 1) :=
      ⟨scanned, final, 1, played_of_sample sample ended, total, rfl⟩
    have counts := claim _ _ _ _ _ _ _ (Run.start.next first) (played_of_sample again ended') none
    rw [all, total'] at counts
    cases counts

end Samples

end SystemProgramming.PasswordCracker.Cracker2
