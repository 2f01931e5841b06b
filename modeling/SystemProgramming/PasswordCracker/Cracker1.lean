import SystemProgramming.BlockingQueue.Fifo
import SystemProgramming.PasswordCracker.Utils
import Mathlib.Algebra.BigOperators.Group.Finset.Basic
import Mathlib.Algebra.Order.BigOperators.Group.Finset
import Mathlib.Algebra.Order.Ring.Nat

/-! The first password cracker: worker threads take lines from a queue, each its own. -/

namespace SystemProgramming.PasswordCracker.Cracker1

open Foundations BlockingQueue

/-- A character that `sscanf` skips. -/
def isSpace (c : UInt8) : Bool := c = 32 || (9 ≤ c && c ≤ 13)

/-- A `%s` of `sscanf`: a word, and the rest behind it. -/
def nextWord (text : List UInt8) : List UInt8 × List UInt8 :=
  let rest := text.dropWhile isSpace
  (rest.takeWhile fun c => !isSpace c, rest.dropWhile fun c => !isSpace c)

/--
`sscanf` of a line into `userName`, `password` and `knownpass`. It is undefined where words are
missing, as the arrays are not initialised, and where words do not fit.
-/
def scan (command : List UInt8) : Option (List UInt8 × List UInt8 × List UInt8) :=
  let (userName, rest) := nextWord command
  let (password, rest) := nextWord rest
  let (knownpass, _) := nextWord rest
  if knownpass = [] then none
  else if 16 ≤ userName.length ∨ 16 ≤ password.length ∨ 32 ≤ knownpass.length then none
  else some (userName, password, knownpass)

/-- A line without its newline. -/
def strip (buff : List UInt8) : List UInt8 :=
  if buff.getLast? = some 10 then buff.dropLast else buff

/-- The local variables of the loop over the passwords. -/
structure Job where
  command : List UInt8
  userName : List UInt8
  password : List UInt8
  knownPart : List UInt8
  unknownDot : List UInt8
  hashCount : Nat
  deriving DecidableEq, Repr

/-- Where a worker thread is in `do_funct`. -/
inductive Place where
  /-- About to lock the mutex for the loop condition. -/
  | locking
  /-- In `queue_pull`, with the mutex. -/
  | pulling
  /-- Behind the unlock, with what was pulled; `NULL` is `none`. -/
  | pulled (command : Option (List UInt8))
  /-- About to try the next password. -/
  | searching (job : Job)
  /-- About to lock the mutex and to count a success, or with the flag a failure. -/
  | counting (job : Job) (flag : Bool)
  | returned
  deriving DecidableEq, Repr

/-- The shared variables, and the worker threads. -/
structure State (threads : Nat) where
  queue : Queue (Option (List UInt8))
  queueSize : Nat
  successCount : Nat
  failCount : Nat
  mutex : Option (Fin threads)
  place : Fin threads → Place

variable {threads : Nat}

/-- One worker goes on. -/
def State.goto (st : State threads) (worker : Fin threads) (place : Place) : State threads :=
  { st with place := Function.update st.place worker place }

/-- What a worker does next in `do_funct`; nothing where it waits, or where this is undefined. -/
def turn (utils : Utils) (worker : Fin threads) (st : State threads) : Option (State threads) :=
  match st.place worker with
  | .locking =>
    if st.mutex ≠ none then none
    else if st.queueSize ≠ 0 then
      some ({ st with queueSize := st.queueSize - 1, mutex := some worker }.goto worker .pulling)
    else some (st.goto worker .returned)
  | .pulling =>
    -- The worker would wait here for a push.
    if st.queue.Empty then none
    else st.queue.pull.map fun (command, queue) =>
      { st with queue := queue, mutex := none }.goto worker (.pulled command)
  | .pulled none => some (st.goto worker .returned)
  | .pulled (some command) =>
    (scan command).map fun (userName, password, knownpass) =>
      st.goto worker (.searching
        { command := command
          userName := userName
          password := password
          knownPart := utils.knownPart knownpass
          unknownDot := utils.setStringPosition (utils.unknownPart knownpass) 0
          hashCount := 1 })
  | .searching job =>
    let (unknownDot, more) := utils.incrementString job.unknownDot
    if more then
      let job := { job with unknownDot := unknownDot, hashCount := job.hashCount + 1 }
      if utils.crypt (job.knownPart ++ unknownDot) = job.password then
        some (st.goto worker (.counting job false))
      else some (st.goto worker (.searching job))
    else some (st.goto worker (.counting { job with unknownDot := unknownDot } true))
  | .counting _ flag =>
    if st.mutex ≠ none then none
    else if flag then some ({ st with failCount := st.failCount + 1 }.goto worker .locking)
    else some ({ st with successCount := st.successCount + 1 }.goto worker .locking)
  | .returned => none

/-- A step of one worker. -/
def Step (utils : Utils) (st : State threads) (worker : Fin threads) (st' : State threads) : Prop :=
  turn utils worker st = some st'

/-- What `start` has read from its input: the queue, and its size. -/
inductive Loaded : List (List UInt8) → Queue (Option (List UInt8)) → Nat → Prop
  | create : Loaded [] (queueCreate (-1)) 0
  | push {lines : List (List UInt8)} {queue after : Queue (Option (List UInt8))}
      {queueSize newNode : Nat} {buff : List UInt8} :
      Loaded lines queue queueSize → newNode ≠ 0 → queue.nodes newNode = none →
      queue.push newNode (some (strip buff)) = some after →
      Loaded (lines ++ [buff]) after (queueSize + 1)

/-- All worker threads are created. -/
def start (queue : Queue (Option (List UInt8))) (queueSize : Nat) : State threads where
  queue := queue
  queueSize := queueSize
  successCount := 0
  failCount := 0
  mutex := none
  place _ := .locking

/-- All worker threads are joined, and the summary is printed. -/
def State.Joined (st : State threads) : Prop :=
  ∀ worker, st.place worker = .returned

section Histories

/-- The line that a worker has in hand. -/
def Place.command : Place → Option (List UInt8)
  | pulled command => command
  | searching job | counting job _ => some job.command
  | locking | pulling | returned => none

/-- The line that a step takes from the queue. -/
def pulledIn (taken : Transition (State threads) (Fin threads)) :
    Option (Fin threads × List UInt8) :=
  match taken.before.place taken.action, taken.after.place taken.action with
  | .pulling, .pulled (some command) => some (taken.action, command)
  | _, _ => none

/-- The line that a step counts as a success or a failure. -/
def processedIn (taken : Transition (State threads) (Fin threads)) :
    Option (Fin threads × List UInt8) :=
  match taken.before.place taken.action with
  | .counting job _ => some (taken.action, job.command)
  | _ => none

/-- The lines that were pulled, in order, each with its worker. -/
def pulls (trace : List (Transition (State threads) (Fin threads))) :
    List (Fin threads × List UInt8) :=
  trace.filterMap pulledIn

/-- The lines that were counted, in order, each with its worker. -/
def processed (trace : List (Transition (State threads) (Fin threads))) :
    List (Fin threads × List UInt8) :=
  trace.filterMap processedIn

end Histories

section Invariant

variable {utils : Utils} {lines : List (List UInt8)} {st st' : State threads}
  {worker : Fin threads} {place place' : Place}
  {trace : List (Transition (State threads) (Fin threads))}
  {cells cells' : List (Nat × Node (Option (List UInt8)))}

/-- The line in hand, with the worker. -/
def held (worker : Fin threads) (place : Place) : Multiset (Fin threads × List UInt8) :=
  place.command.elim 0 fun command => {(worker, command)}

open Classical in
/-- The number of words that are left from a word on. -/
noncomputable def left (utils : Utils) (word : List UInt8) : Nat :=
  if ends : ∃ left, utils.EndsAfter left word then ends.choose else 0

theorem left_eq {word : List UInt8} {more : Nat} (ends : utils.EndsAfter more word) :
    left utils word = more := by
  have exist : ∃ left, utils.EndsAfter left word := ⟨more, ends⟩
  rw [left, dif_pos exist]
  exact exist.choose_spec.unique ends

/-- The steps that a line takes, from its pull on until its worker locks the mutex again. -/
noncomputable def effort (utils : Utils) (command : List UInt8) : Nat :=
  match scan command with
  | some (_, _, knownpass) =>
    4 + left utils (utils.setStringPosition (utils.unknownPart knownpass) 0)
  | none => 4

/-- The steps that a worker takes before it has to pull another line. -/
noncomputable def Place.steps (utils : Utils) : Place → Nat
  | locking => 1
  | pulling => 0
  | pulled none => 1
  | pulled (some command) => effort utils command
  | searching job => 3 + left utils job.unknownDot
  | counting _ _ => 2
  | returned => 0

/-- The steps that are left for what is in the queue. -/
noncomputable def workload (utils : Utils) (commands : List (Option (List UInt8))) : Nat :=
  (commands.map fun command => 1 + Place.steps utils (.pulled command)).sum

/-- What is in the queue, in the hands of the workers and in the counters. -/
structure Working (utils : Utils) (lines : List (List UInt8))
    (trace : List (Transition (State threads) (Fin threads))) (st : State threads)
    (cells : List (Nat × Node (Option (List UInt8)))) : Prop where
  sound : Sound st.queue cells
  order : (pulls trace).map (fun pull => some pull.2) ++ contents cells =
    lines.map fun line => some (strip line)
  size : cells.length = st.queueSize + if st.mutex = none then 0 else 1
  holder : ∀ worker, st.place worker = .pulling ↔ st.mutex = some worker
  ledger : (pulls trace : Multiset (Fin threads × List UInt8)) =
    processed trace + ∑ worker, held worker (st.place worker)
  counts : st.successCount + st.failCount = (processed trace).length
  empty : ∀ worker, st.place worker = .returned → st.queueSize = 0
  given : ∀ worker command, st.place worker = .pulled command →
    ∃ line ∈ lines, command = some (strip line)
  ends : ∀ worker job, st.place worker = .searching job →
    ∃ left, utils.EndsAfter left job.unknownDot
  spent : trace.length + workload utils (contents cells) +
    ∑ worker, (st.place worker).steps utils ≤
      workload utils (lines.map fun line => some (strip line)) + threads

/-- A sum over the workers, where one of them goes on. -/
theorem sum_update {Value Local : Type*} [AddCommMonoid Value] (value : Fin threads → Local → Value)
    (places : Fin threads → Local) (worker : Fin threads) (place : Local) :
    (∑ other, value other (Function.update places worker place other)) +
        value worker (places worker) =
      (∑ other, value other (places other)) + value worker place := by
  have others : ∑ other ∈ Finset.univ.erase worker,
      value other (Function.update places worker place other) =
      ∑ other ∈ Finset.univ.erase worker, value other (places other) := by
    apply Finset.sum_congr rfl
    intro other member
    rw [Function.update_of_ne (Finset.ne_of_mem_erase member)]
  rw [← Finset.add_sum_erase _ _ (Finset.mem_univ worker), others, Function.update_self,
    ← Finset.add_sum_erase _ (fun other => value other (places other)) (Finset.mem_univ worker)]
  ac_rfl

/--
One worker goes on, with what may change beside its place: the queue, the mutex and the counters. What
it takes or counts is what it has in hand afterwards or had before.
-/
theorem Working.move (working : Working utils lines trace st cells) (after : State threads)
    (here : st.place worker = place) (places : after.place = Function.update st.place worker place')
    (sound : Sound after.queue cells')
    (order : (pulledIn ⟨st, worker, after⟩).toList.map (fun pull => some pull.2) ++ contents cells' =
      contents cells)
    (size : cells'.length = after.queueSize + if after.mutex = none then 0 else 1)
    (holder : ∀ other, after.place other = .pulling ↔ after.mutex = some other)
    (ledger : ((pulledIn ⟨st, worker, after⟩).toList : Multiset (Fin threads × List UInt8)) +
      held worker place = (processedIn ⟨st, worker, after⟩).toList + held worker place')
    (counts : after.successCount + after.failCount = st.successCount + st.failCount +
      (processedIn ⟨st, worker, after⟩).toList.length)
    (empty : place' = .returned → after.queueSize = 0) (shrinks : after.queueSize ≤ st.queueSize)
    (given : ∀ command, place' = .pulled command → ∃ line ∈ lines, command = some (strip line))
    (ends : ∀ job, place' = .searching job → ∃ left, utils.EndsAfter left job.unknownDot)
    (spent : workload utils (contents cells') + place'.steps utils + 1 ≤
      workload utils (contents cells) + place.steps utils) :
    Working utils lines (trace ++ [⟨st, worker, after⟩]) after cells' := by
  have pulls_eq : pulls (trace ++ [⟨st, worker, after⟩]) =
      pulls trace ++ (pulledIn ⟨st, worker, after⟩).toList := by
    rw [pulls, List.filterMap_append, ← pulls]
    cases taken : pulledIn ⟨st, worker, after⟩ <;> simp [taken]
  have processed_eq : processed (trace ++ [⟨st, worker, after⟩]) =
      processed trace ++ (processedIn ⟨st, worker, after⟩).toList := by
    rw [processed, List.filterMap_append, ← processed]
    cases taken : processedIn ⟨st, worker, after⟩ <;> simp [taken]
  have cases_place (other : Fin threads) : (other = worker ∧ after.place other = place') ∨
      after.place other = st.place other := by
    rw [places, Function.update_apply]
    split
    · rename_i same
      exact .inl ⟨same, rfl⟩
    · exact .inr rfl
  refine ⟨sound, ?_, size, holder, ?_, ?_, ?_, ?_, ?_, ?_⟩
  · rw [pulls_eq, List.map_append, List.append_assoc, order, working.order]
  · have sums := sum_update held st.place worker place'
    rw [here] at sums
    rw [pulls_eq, processed_eq, ← Multiset.coe_add, ← Multiset.coe_add, working.ledger, places]
    -- What the worker had in hand before is added on both sides.
    apply @add_right_cancel _ _ _ _ (held worker place)
    rw [add_assoc, ledger, add_assoc _ _ (held worker place), sums]
    ac_rfl
  · rw [counts, working.counts, processed_eq, List.length_append]
  · intro other returned
    rcases cases_place other with ⟨rfl, new⟩ | old
    · exact empty (new.symm.trans returned)
    · have none_left := working.empty other (old.symm.trans returned)
      omega
  · intro other command pulled
    rcases cases_place other with ⟨rfl, new⟩ | old
    · exact given command (new.symm.trans pulled)
    · exact working.given other command (old.symm.trans pulled)
  · intro other job searching
    rcases cases_place other with ⟨rfl, new⟩ | old
    · exact ends job (new.symm.trans searching)
    · exact working.ends other job (old.symm.trans searching)
  · have sums := sum_update (fun _ => Place.steps utils) st.place worker place'
    rw [here] at sums
    have before := working.spent
    rw [places, List.length_append, List.length_singleton]
    omega

/-- A worker that goes on with its line, or ends, without touching anything else. -/
theorem Working.quiet (working : Working utils lines trace st cells)
    (here : st.place worker = place) (outside : place ≠ .pulling) (begins : place' ≠ .pulling)
    (silent : processedIn ⟨st, worker, st.goto worker place'⟩ = none)
    (same : place'.command = place.command)
    (empty : place' = .returned → st.queueSize = 0)
    (given : ∀ command, place' ≠ .pulled command)
    (ends : ∀ job, place' = .searching job → ∃ left, utils.EndsAfter left job.unknownDot)
    (spent : place'.steps utils < place.steps utils) :
    Working utils lines (trace ++ [⟨st, worker, st.goto worker place'⟩]) (st.goto worker place')
      cells := by
  have takes : pulledIn ⟨st, worker, st.goto worker place'⟩ = none := by
    rw [pulledIn]
    simp only [here]
    cases place with
    | pulling => exact absurd rfl outside
    | locking | pulled | searching | counting | returned => rfl
  -- The worker has the same command in its hand as before.
  have hand : held worker place' = held worker place := by
    rw [held, held, same]
  apply working.move (st.goto worker place') here rfl working.sound
  · rw [takes]
    rfl
  · exact working.size
  · intro other
    show Function.update st.place worker place' other = .pulling ↔ st.mutex = some other
    rw [← working.holder other, Function.update_apply]
    split
    · rename_i equal
      rw [equal, here]
      exact iff_of_false begins outside
    · rfl
  · rw [takes, silent, hand]
  · rw [silent]
    rfl
  · exact empty
  · exact Nat.le_refl _
  · exact fun command pulled => absurd pulled (given command)
  · exact ends
  · omega

/-- Only where a worker counts, a step counts a line. -/
theorem counts_nothing {after : State threads} (here : st.place worker = place)
    (other : ∀ job flag, place ≠ .counting job flag) : processedIn ⟨st, worker, after⟩ = none := by
  rw [processedIn]
  simp only [here]

/-- A worker that gets the mutex takes the number of a line, or sees that there is none. -/
theorem Working.locks (working : Working utils lines trace st cells)
    (here : st.place worker = .locking) (stepped : turn utils worker st = some st') :
    ∃ cells', Working utils lines (trace ++ [⟨st, worker, st'⟩]) st' cells' := by
  simp only [turn, here] at stepped
  split at stepped
  · cases stepped
  rename_i free
  rw [ne_eq, Decidable.not_not] at free
  split at stepped
  · rename_i more
    obtain rfl := Option.some.inj stepped
    refine ⟨cells, working.move _ here rfl working.sound ?_ ?_ ?_ ?_ ?_ (by rintro ⟨⟩) ?_ (by rintro _ ⟨⟩)
      (by rintro _ ⟨⟩) ?_⟩
    · simp [pulledIn, here]
    · have size := working.size
      rw [if_pos free] at size
      show cells.length = st.queueSize - 1 + 1
      omega
    · intro other
      show Function.update st.place worker .pulling other = .pulling ↔ some worker = some other
      rw [Function.update_apply]
      split
      · rename_i equal
        exact iff_of_true rfl (congrArg some equal.symm)
      · -- No other worker has the mutex, as it was free.
        rename_i apart
        rw [working.holder other, free]
        exact iff_of_false (by rintro ⟨⟩) fun same => apart (Option.some.inj same).symm
    · rw [counts_nothing here (by rintro _ _ ⟨⟩)]
      simp [pulledIn, here, held, Place.command]
    · rw [counts_nothing here (by rintro _ _ ⟨⟩)]
      rfl
    · exact Nat.sub_le _ _
    · show workload utils (contents cells) + 0 + 1 ≤ workload utils (contents cells) + 1
      omega
  · rename_i nothing
    obtain rfl := Option.some.inj stepped
    refine ⟨cells, working.quiet here (by rintro ⟨⟩) (by rintro ⟨⟩)
      (counts_nothing here (by rintro _ _ ⟨⟩)) rfl ?_ (by rintro _ ⟨⟩) (by rintro _ ⟨⟩) ?_⟩
    · exact fun _ => Decidable.not_not.mp nothing
    · show 0 < 1
      omega

/-- A worker with the mutex pulls the next line, and gives the mutex back. -/
theorem Working.pulls (working : Working utils lines trace st cells)
    (here : st.place worker = .pulling) (stepped : turn utils worker st = some st') :
    ∃ cells', Working utils lines (trace ++ [⟨st, worker, st'⟩]) st' cells' := by
  simp only [turn, here] at stepped
  have mutex : st.mutex = some worker := (working.holder worker).mp here
  split at stepped
  · cases stepped
  rename_i occupied
  obtain ⟨data, queue, rest, pulled, kept, shrunk⟩ := working.sound.pull occupied
  rw [pulled] at stepped
  obtain rfl := Option.some.inj stepped
  -- What is pulled is one of the lines.
  have listed : data ∈ lines.map fun line => some (strip line) := by
    rw [← working.order, shrunk]
    simp
  obtain ⟨line, member, rfl⟩ := List.mem_map.mp listed
  have takes (after : State threads) (now : after.place worker = .pulled (some (strip line))) :
      pulledIn ⟨st, worker, after⟩ = some (worker, strip line) := by
    rw [pulledIn]
    simp only [here, now]
  have now := takes _ (show (State.goto { st with queue := queue, mutex := none } worker
    (.pulled (some (strip line)))).place worker = _ from Function.update_self _ _ _)
  refine ⟨rest, working.move _ here rfl kept ?_ ?_ ?_ ?_ ?_ (by rintro ⟨⟩) ?_ ?_ (by rintro _ ⟨⟩) ?_⟩
  · rw [now, shrunk]
    rfl
  · have size := working.size
    rw [mutex] at size
    have lengths := congrArg List.length shrunk
    simp only [contents, List.length_map, List.length_cons] at lengths
    show rest.length = st.queueSize + 0
    simp at size
    omega
  · intro other
    show Function.update st.place worker (.pulled (some (strip line))) other = .pulling ↔
      none = some other
    rw [Function.update_apply]
    split
    · exact iff_of_false (by rintro ⟨⟩) (by rintro ⟨⟩)
    · -- Only this worker had the mutex.
      rename_i apart
      rw [working.holder other, mutex]
      exact iff_of_false (fun same => apart (Option.some.inj same).symm) (by rintro ⟨⟩)
  · rw [now, counts_nothing here (by rintro _ _ ⟨⟩)]
    rfl
  · rw [counts_nothing here (by rintro _ _ ⟨⟩)]
    rfl
  · exact Nat.le_refl _
  · rintro command same
    obtain rfl := Place.pulled.inj same
    exact ⟨line, member, rfl⟩
  · rw [shrunk, workload, workload, List.map_cons, List.sum_cons]
    show _ + Place.steps utils (.pulled (some (strip line))) + 1 ≤ _ + 0
    omega

/-- A worker that has scanned its line begins to search, and the search will end. -/
theorem Working.scans {command : Option (List UInt8)} (exhausts : utils.Exhausts)
    (working : Working utils lines trace st cells) (here : st.place worker = .pulled command)
    (stepped : turn utils worker st = some st') :
    ∃ cells', Working utils lines (trace ++ [⟨st, worker, st'⟩]) st' cells' := by
  obtain ⟨line, member, rfl⟩ := working.given worker command here
  simp only [turn, here] at stepped
  obtain ⟨⟨userName, password, knownpass⟩, scanned, rfl⟩ := Option.map_eq_some_iff.mp stepped
  refine ⟨cells, working.quiet here (by rintro ⟨⟩) (by rintro ⟨⟩)
    (counts_nothing here (by rintro _ _ ⟨⟩)) rfl
    (by rintro ⟨⟩) (by rintro _ ⟨⟩) ?_ ?_⟩
  · intro job same
    obtain rfl := Place.searching.inj same
    exact exhausts _
  · show 3 + left utils (utils.setStringPosition (utils.unknownPart knownpass) 0) <
      effort utils (strip line)
    simp only [effort, scanned]
    omega

/-- A worker that searches has one word less to try, or stops with a success or a failure. -/
theorem Working.searches {job : Job} (working : Working utils lines trace st cells)
    (here : st.place worker = .searching job) (stepped : turn utils worker st = some st') :
    ∃ cells', Working utils lines (trace ++ [⟨st, worker, st'⟩]) st' cells' := by
  simp only [turn, here] at stepped
  obtain ⟨more, ends⟩ := working.ends worker job here
  split at stepped
  · rename_i goesOn
    -- There is a next word, so one less is left.
    cases more with
    | zero =>
      have last : (utils.incrementString job.unknownDot).2 = false := ends
      rw [last] at goesOn
      cases goesOn
    | succ more =>
      split at stepped
      · obtain rfl := Option.some.inj stepped
        refine ⟨cells, working.quiet here (by rintro ⟨⟩) (by rintro ⟨⟩)
          (counts_nothing here (by rintro _ _ ⟨⟩)) rfl
          (by rintro ⟨⟩) (by rintro _ ⟨⟩) (by rintro _ ⟨⟩) ?_⟩
        show 2 < 3 + left utils job.unknownDot
        omega
      · obtain rfl := Option.some.inj stepped
        refine ⟨cells, working.quiet here (by rintro ⟨⟩) (by rintro ⟨⟩)
          (counts_nothing here (by rintro _ _ ⟨⟩)) rfl
          (by rintro ⟨⟩) (by rintro _ ⟨⟩) ?_ ?_⟩
        · intro next same
          obtain rfl := Place.searching.inj same
          exact ⟨more, ends.2⟩
        · show 3 + left utils (utils.incrementString job.unknownDot).1 <
            3 + left utils job.unknownDot
          rw [left_eq ends, left_eq ends.2]
          omega
  · obtain rfl := Option.some.inj stepped
    refine ⟨cells, working.quiet here (by rintro ⟨⟩) (by rintro ⟨⟩)
      (counts_nothing here (by rintro _ _ ⟨⟩)) rfl
      (by rintro ⟨⟩) (by rintro _ ⟨⟩) (by rintro _ ⟨⟩) ?_⟩
    show 2 < 3 + left utils job.unknownDot
    omega

/-- A worker counts its line in one of the two counters. -/
theorem Working.counted {job : Job} {flag : Bool} (working : Working utils lines trace st cells)
    (here : st.place worker = .counting job flag) (stepped : turn utils worker st = some st') :
    ∃ cells', Working utils lines (trace ++ [⟨st, worker, st'⟩]) st' cells' := by
  simp only [turn, here] at stepped
  split at stepped
  · cases stepped
  rename_i free
  rw [ne_eq, Decidable.not_not] at free
  have counted (after : State threads) :
      processedIn ⟨st, worker, after⟩ = some (worker, job.command) := by
    rw [processedIn]
    simp only [here]
  have takes (after : State threads) : pulledIn ⟨st, worker, after⟩ = none := by
    rw [pulledIn]
    simp only [here]
  have holder (other : Fin threads) :
      Function.update st.place worker .locking other = .pulling ↔ st.mutex = some other := by
    rw [← working.holder other, Function.update_apply]
    split
    · rename_i equal
      rw [equal, here]
      exact iff_of_false (by rintro ⟨⟩) (by rintro ⟨⟩)
    · rfl
  -- Either counter grows by one.
  have moved (after : State threads) (places : after.place = Function.update st.place worker .locking)
      (queue : after.queue = st.queue) (queueSize : after.queueSize = st.queueSize)
      (mutex : after.mutex = st.mutex)
      (counts : after.successCount + after.failCount = st.successCount + st.failCount + 1) :
      Working utils lines (trace ++ [⟨st, worker, after⟩]) after cells := by
    apply working.move after here places (queue ▸ working.sound)
    · rw [takes]
      rfl
    · rw [queueSize, mutex]
      exact working.size
    · rw [places, mutex]
      exact holder
    · rw [takes, counted]
      simp [held, Place.command]
    · rw [counted]
      exact counts
    · rintro ⟨⟩
    · exact Nat.le_of_eq queueSize
    · rintro _ ⟨⟩
    · rintro _ ⟨⟩
    · exact Nat.le_refl _
  split at stepped
  · obtain rfl := Option.some.inj stepped
    exact ⟨cells, moved _ rfl rfl rfl rfl rfl⟩
  · obtain rfl := Option.some.inj stepped
    refine ⟨cells, moved _ rfl rfl rfl rfl ?_⟩
    show st.successCount + 1 + st.failCount = _
    omega

/-- One step of a worker, place by place. -/
theorem Working.step (exhausts : utils.Exhausts) (working : Working utils lines trace st cells)
    (stepped : Step utils st worker st') :
    ∃ cells', Working utils lines (trace ++ [⟨st, worker, st'⟩]) st' cells' := by
  cases here : st.place worker with
  | returned =>
    simp only [Step, turn, here] at stepped
    cases stepped
  | locking => exact working.locks here stepped
  | pulling => exact working.pulls here stepped
  | pulled command => exact working.scans exhausts here stepped
  | searching job => exact working.searches here stepped
  | counting job flag => exact working.counted here stepped

end Invariant

section Runs

variable {utils : Utils} {lines : List (List UInt8)} {queue : Queue (Option (List UInt8))}
  {queueSize : Nat} {st final : State threads}
  {trace : List (Transition (State threads) (Fin threads))}
  {cells : List (Nat × Node (Option (List UInt8)))}

/-- A push changes no maximum. -/
theorem maxSize_of_push {after : Queue (Option (List UInt8))} {newNode : Nat}
    {data : Option (List UInt8)} (pushed : queue.push newNode data = some after) :
    after.maxSize = queue.maxSize := by
  simp only [Queue.push] at pushed
  split at pushed
  · split at pushed
    · obtain rfl := Option.some.inj pushed
      rfl
    · cases pushed
  · obtain rfl := Option.some.inj pushed
    rfl

/-- The queue holds the lines, in their order, and `queue_size` is their number. -/
theorem Loaded.sound (loaded : Loaded lines queue queueSize) :
    queue.maxSize = -1 ∧ queueSize = lines.length ∧ ∃ cells, Sound queue cells ∧
      contents cells = lines.map fun line => some (strip line) := by
  induction loaded with
  | create => exact ⟨rfl, rfl, [], Sound.create _, rfl⟩
  | @push lines queue after queueSize newNode buff _ nonnull unused pushed ih =>
    obtain ⟨noMax, size, cells, sound, holds⟩ := ih
    -- A queue without a maximum is never full.
    have room : ¬ queue.Full := by
      rw [Queue.Full, noMax]
      omega
    obtain ⟨_, cells', result, sound', grown⟩ := sound.push room nonnull unused (some (strip buff))
    obtain rfl := Option.some.inj (pushed.symm.trans result)
    refine ⟨(maxSize_of_push pushed).trans noMax, ?_, cells', sound', ?_⟩
    · rw [size, List.length_append, List.length_singleton]
    · rw [grown, holds, List.map_append, List.map_singleton]

/-- At first all lines are in the queue. -/
theorem Loaded.working (loaded : Loaded lines queue queueSize) :
    ∃ cells, Working utils lines [] (start queue queueSize : State threads) cells := by
  obtain ⟨_, size, cells, sound, holds⟩ := loaded.sound
  refine ⟨cells, sound, holds, ?_, ?_, ?_, rfl, (by rintro _ ⟨⟩), (by rintro _ _ ⟨⟩),
    (by rintro _ _ ⟨⟩), ?_⟩
  · have lengths := congrArg List.length holds
    rw [contents, List.length_map, List.length_map] at lengths
    exact lengths.trans size.symm
  · exact fun worker => iff_of_false (by rintro ⟨⟩) (by rintro ⟨⟩)
  · show (0 : Multiset (Fin threads × List UInt8)) = 0 + ∑ worker : Fin threads, 0
    simp
  · rw [holds]
    show 0 + _ + ∑ worker : Fin threads, 1 ≤ _
    simp

/-- After every run the lines are in the queue, in the hands of the workers or in the counters. -/
theorem working_of_run (exhausts : utils.Exhausts) (loaded : Loaded lines queue queueSize)
    (run : Run (Step utils) (start queue queueSize) trace final) :
    ∃ cells, Working utils lines trace final cells := by
  refine @Run.history _ _ (Step utils) (start queue queueSize) final trace
    (fun trace st => ∃ cells, Working utils lines trace st cells) run loaded.working ?_
  rintro trace before worker after ⟨cells, working⟩ stepped
  exact working.step exhausts stepped

/-- With the mutex there is always a line to pull. -/
theorem Working.occupied (working : Working utils lines trace st cells) {worker : Fin threads}
    (pulling : st.place worker = .pulling) : ¬ st.queue.Empty := by
  have size := working.size
  rw [(working.holder worker).mp pulling] at size
  rw [Queue.Empty, working.sound.head_eq_zero_iff]
  rintro rfl
  simp at size

/-- As long as a worker has not returned, one of them can go on. -/
theorem Working.can_step (working : Working utils lines trace st cells)
    (scans : ∀ line ∈ lines, (scan (strip line)).isSome) (more : ¬ st.Joined) :
    ∃ worker st', Step utils st worker st' := by
  cases mutex : st.mutex with
  | some worker =>
    -- The worker with the mutex can pull.
    have pulling := (working.holder worker).mpr mutex
    have occupied := working.occupied pulling
    obtain ⟨data, queue, rest, pulled, _⟩ := working.sound.pull occupied
    refine ⟨worker, ?_⟩
    simp only [Step]
    rw [← Option.isSome_iff_exists, turn, pulling]
    simp only [if_neg occupied, pulled]
    rfl
  | none =>
    -- No worker waits, so every one that has not returned can go on.
    obtain ⟨worker, running⟩ := not_forall.mp more
    refine ⟨worker, ?_⟩
    simp only [Step]
    rw [← Option.isSome_iff_exists, turn]
    cases here : st.place worker with
    | returned => exact absurd here running
    | pulling =>
      have holds := (working.holder worker).mp here
      rw [mutex] at holds
      cases holds
    | locking =>
      simp only [mutex]
      split
      · rename_i held
        exact absurd rfl held
      · split
        · rfl
        · rfl
    | counting job flag =>
      simp only [mutex]
      split
      · rename_i held
        exact absurd rfl held
      · split
        · rfl
        · rfl
    | pulled command =>
      obtain ⟨line, member, rfl⟩ := working.given worker command here
      simp only [Option.isSome_map]
      exact scans line member
    | searching job =>
      simp only
      split
      · split
        · rfl
        · rfl
      · rfl

/--
Every line is pulled in its turn and counted by the worker that pulled it, no worker waits in
`queue_pull`, all workers return, and the summary counts all lines.
-/
theorem every_line_once (exhausts : utils.Exhausts)
    (scans : ∀ line ∈ lines, (scan (strip line)).isSome) (enough : 0 < threads ∨ lines = [])
    (loaded : Loaded lines queue queueSize)
    (run : Run (Step utils) (start queue queueSize) trace final) :
    (pulls trace).map Prod.snd <+: lines.map strip ∧
    (∀ worker, final.place worker = .pulling → ¬ final.queue.Empty) ∧
    trace.length ≤ workload utils (lines.map fun line => some (strip line)) + threads ∧
    (¬ final.Joined → ∃ worker st', Step utils final worker st') ∧
    (final.Joined → (pulls trace).map Prod.snd = lines.map strip ∧
      (processed trace).Perm (pulls trace) ∧
      final.successCount + final.failCount = lines.length) := by
  obtain ⟨cells, working⟩ := working_of_run exhausts loaded run
  have commands : (pulls trace).map (fun pull => some pull.2) = ((pulls trace).map Prod.snd).map some :=
    List.map_map.symm
  have stripped : (lines.map fun line => some (strip line)) = (lines.map strip).map some :=
    List.map_map.symm
  have order := working.order
  rw [commands, stripped] at order
  refine ⟨?_, fun worker => working.occupied, ?_, working.can_step scans, fun joined => ?_⟩
  · obtain ⟨front, back, split, same, _⟩ := List.map_eq_append_iff.mp order.symm
    rw [split, List.map_injective_iff.mpr (Option.some_injective _) same]
    exact List.prefix_append _ _
  · have spent := working.spent
    omega
  · have nothing : cells = [] := by
      rcases enough with positive | rfl
      · -- A worker that has returned has seen that nothing is left, and nobody has the mutex.
        have free : final.mutex = none := by
          cases mutex : final.mutex with
          | none => rfl
          | some worker =>
            have pulling := (working.holder worker).mpr mutex
            rw [joined worker] at pulling
            cases pulling
        have size := working.size
        rw [free, working.empty ⟨0, positive⟩ (joined _)] at size
        exact List.length_eq_zero_iff.mp size
      · have empty := (List.append_eq_nil_iff.mp order).2
        exact List.map_eq_nil_iff.mp empty
    have ledger : (processed trace).Perm (pulls trace) := by
      have idle : ∑ worker, held worker (final.place worker) = 0 := by
        apply Finset.sum_eq_zero
        intro worker _
        rw [joined worker]
        rfl
      have ledger := working.ledger
      rw [idle, add_zero] at ledger
      exact (Multiset.coe_eq_coe.mp ledger).symm
    rw [nothing, show contents ([] : List (Nat × Node (Option (List UInt8)))) = [] from rfl,
      List.append_nil] at order
    have all := List.map_injective_iff.mpr (Option.some_injective _) order
    refine ⟨all, ledger, ?_⟩
    have lengths := congrArg List.length all
    rw [List.length_map, List.length_map] at lengths
    rw [working.counts, ledger.length_eq, lengths]

/-- The line "u b .", with a newline. -/
def sampleLine : List UInt8 := [117, 32, 98, 32, 46, 10]

/-- A queue that holds one line. -/
def queueOf (line : List UInt8) : Queue (Option (List UInt8)) :=
  ⟨1, 1, 1, -1, Function.update (fun _ => none) 1 (some ⟨some (strip line), 0⟩)⟩

theorem queueOf_loaded (line : List UInt8) : Loaded ([] ++ [line]) (queueOf line) (0 + 1) :=
  Loaded.push .create Nat.one_ne_zero rfl rfl

theorem sample_play : ∃ trace, ∃ final : State 1,
    play (turn sampleUtils) [0, 0, 0, 0, 0, 0] (start (queueOf sampleLine) 1) = some (trace, final) ∧
      ∀ worker, final.place worker = .returned :=
  ⟨_, _, rfl, by decide⟩

/-- One worker takes the line, finds the password and returns. -/
theorem every_line_once_single : ∃ trace, ∃ final : State 1,
    play (turn sampleUtils) [0, 0, 0, 0, 0, 0] (start (queueOf sampleLine) 1) = some (trace, final) ∧
      final.successCount + final.failCount = 1 := by
  obtain ⟨trace, final, played, joined⟩ := sample_play
  obtain ⟨_, _, _, _, counted⟩ := every_line_once sample_exhausts (by decide) (.inl (by decide))
    (queueOf_loaded sampleLine) (run_of_play played)
  exact ⟨trace, final, played, (counted joined).2.2⟩

theorem short_play : ∃ trace, ∃ final : State 1,
    play (turn sampleUtils) [0, 0] (start (queueOf [120]) 1) = some (trace, final) ∧
      final.place 0 = .pulled (some [120]) :=
  ⟨_, _, rfl, rfl⟩

/-- Without workers nothing is counted, and a line of one word leaves the arrays undefined. -/
theorem not_every_line :
    (¬ ∀ (utils : Utils) (lines : List (List UInt8)) (queue : Queue (Option (List UInt8)))
      (queueSize threads : Nat) (trace : List (Transition (State threads) (Fin threads)))
      (final : State threads), utils.Exhausts →
      (∀ line ∈ lines, (scan (strip line)).isSome) → Loaded lines queue queueSize →
      Run (Step utils) (start queue queueSize) trace final → final.Joined →
      final.successCount + final.failCount = lines.length) ∧
    ¬ ∀ (utils : Utils) (lines : List (List UInt8)) (queue : Queue (Option (List UInt8)))
      (queueSize threads : Nat) (trace : List (Transition (State threads) (Fin threads)))
      (final : State threads), utils.Exhausts → 0 < threads → Loaded lines queue queueSize →
      Run (Step utils) (start queue queueSize) trace final → ¬ final.Joined →
      ∃ worker st', Step utils final worker st' := by
  constructor
  · intro claim
    have counted := claim sampleUtils [sampleLine] (queueOf sampleLine) 1 0 [] _ sample_exhausts
      (by decide) (queueOf_loaded sampleLine) .start (fun worker => worker.elim0)
    cases counted
  · intro claim
    obtain ⟨trace, final, played, pulled⟩ := short_play
    have running : ¬ final.Joined := by
      intro joined
      rw [joined 0] at pulled
      cases pulled
    obtain ⟨worker, st', stepped⟩ := claim sampleUtils [[120]] _ 1 1 trace final sample_exhausts
      Nat.one_pos (queueOf_loaded [120]) (run_of_play played) running
    obtain rfl : worker = 0 := Subsingleton.elim _ _
    -- There is no second word to read.
    have stuck : scan [120] = none := by decide
    rw [Step, turn, pulled] at stepped
    simp only [stuck, Option.map_none] at stepped
    cases stepped

end Runs

end SystemProgramming.PasswordCracker.Cracker1
