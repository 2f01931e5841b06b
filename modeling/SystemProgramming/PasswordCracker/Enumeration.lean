import SystemProgramming.PasswordCracker.Cracker1

/-! The search loop of the first password cracker, and the completions that it goes through. -/

namespace SystemProgramming.PasswordCracker.Cracker1

open Foundations

/-- The strings that the loop has hashed, what it leaves in the variables, and the flag. -/
structure Outcome where
  hashed : List (List UInt8)
  job : Job
  flag : Bool

/-- The same, where other strings were hashed before. -/
def Outcome.behind (earlier : List (List UInt8)) (outcome : Outcome) : Outcome :=
  { outcome with hashed := earlier ++ outcome.hashed }

/-- The loop over the passwords, for so many turns. -/
def search (utils : Utils) : Nat → Job → Option Outcome
  | 0, _ => none
  | turns + 1, job =>
    let (unknownDot, more) := utils.incrementString job.unknownDot
    if more then
      let job := { job with unknownDot := unknownDot, hashCount := job.hashCount + 1 }
      if utils.crypt (job.knownPart ++ unknownDot) = job.password then
        some ⟨[job.knownPart ++ unknownDot], job, false⟩
      else (search utils turns job).map (Outcome.behind [job.knownPart ++ unknownDot])
    else some ⟨[], { job with unknownDot := unknownDot }, true⟩

/-- What the loop begins with. -/
def firstJob (utils : Utils) (command userName password knownpass : List UInt8) : Job where
  command := command
  userName := userName
  password := password
  knownPart := utils.knownPart knownpass
  unknownDot := utils.setStringPosition (utils.unknownPart knownpass) 0
  hashCount := 1

/-- What is in `knownpass`. -/
def Job.knownpass (job : Job) : List UInt8 := job.knownPart ++ job.unknownDot

/-- The completions of the known prefix: with the first word, and with those that come after it. -/
def completions (utils : Utils) (knownpass : List UInt8) (rest : List (List UInt8)) :
    List (List UInt8) :=
  (utils.setStringPosition (utils.unknownPart knownpass) 0 :: rest).map fun word =>
    utils.knownPart knownpass ++ word

/--
What a search is for: success exactly if there is a password, which is then held, and failure only after
each completion was hashed once.
-/
structure Searches (utils : Utils) (completions : List (List UInt8)) (password : List UInt8)
    (outcome : Outcome) : Prop where
  success : outcome.flag = false ↔ ∃ completion ∈ completions, utils.crypt completion = password
  right : outcome.flag = false →
    outcome.job.knownpass ∈ completions ∧ utils.crypt outcome.job.knownpass = password
  all : outcome.flag = true → outcome.hashed.Perm completions

section Loop

variable {utils : Utils} {job : Job} {rest : List (List UInt8)} {turns : Nat}
  {knownpass password : List UInt8}

/-- A turn at a word that another one comes after. -/
theorem search_next {next : List UInt8} (more : utils.incrementString job.unknownDot = (next, true))
    (turns : Nat) : search utils (turns + 1) job =
      if utils.crypt (job.knownPart ++ next) = job.password then
        some ⟨[job.knownPart ++ next],
          { job with unknownDot := next, hashCount := job.hashCount + 1 }, false⟩
      else (search utils turns { job with unknownDot := next, hashCount := job.hashCount + 1 }).map
        (Outcome.behind [job.knownPart ++ next]) := by
  rw [search, more]
  rfl

/-- The turn at the last word. -/
theorem search_last (last : (utils.incrementString job.unknownDot).2 = false) (turns : Nat) :
    search utils (turns + 1) job =
      some ⟨[], { job with unknownDot := (utils.incrementString job.unknownDot).1 }, true⟩ := by
  rw [search]
  simp [last]

/-- If a word behind the first one is right, the loop ends there with success. -/
theorem search_found (followed : utils.FollowedBy job.unknownDot rest)
    (right : ∃ word ∈ rest, utils.crypt (job.knownPart ++ word) = job.password) :
    ∃ outcome, (∀ turns, rest.length < turns → search utils turns job = some outcome) ∧
      outcome.flag = false ∧ outcome.job.knownPart = job.knownPart ∧
      outcome.job.unknownDot ∈ rest ∧ utils.crypt outcome.job.knownpass = job.password := by
  -- The induction is on the words that are left; each turn goes on to the first of them.
  induction rest generalizing job with
  | nil => simp at right
  | cons next rest ih =>
    obtain ⟨more, followed⟩ := followed
    by_cases here : utils.crypt (job.knownPart ++ next) = job.password
    · refine ⟨⟨[job.knownPart ++ next],
        { job with unknownDot := next, hashCount := job.hashCount + 1 }, false⟩, ?_, rfl, rfl,
          List.mem_cons_self, here⟩
      intro turns enough
      cases turns with
      | zero => simp at enough
      | succ turns => rw [search_next more, if_pos here]
    · -- The right word is one of those that are left after this turn.
      obtain ⟨word, member, right⟩ := right
      have later : word ∈ rest := by
        rcases List.mem_cons.mp member with rfl | later
        · exact absurd right here
        · exact later
      obtain ⟨outcome, ends, success, known, held, hashes⟩ :=
        @ih { job with unknownDot := next, hashCount := job.hashCount + 1 } followed
          ⟨word, later, right⟩
      refine ⟨outcome.behind [job.knownPart ++ next], ?_, success, known,
        List.mem_cons_of_mem _ held, hashes⟩
      intro turns enough
      cases turns with
      | zero => simp at enough
      | succ turns =>
        rw [search_next more, if_neg here, ends turns (Nat.lt_of_succ_lt_succ enough)]
        rfl

/-- If no word behind the first one is right, the loop hashes them all, each once. -/
theorem search_missed (followed : utils.FollowedBy job.unknownDot rest)
    (wrong : ∀ word ∈ rest, utils.crypt (job.knownPart ++ word) ≠ job.password) :
    ∃ outcome, (∀ turns, rest.length < turns → search utils turns job = some outcome) ∧
      outcome.flag = true ∧ outcome.hashed = rest.map fun word => job.knownPart ++ word := by
  -- The induction is on the words that are left, as before.
  induction rest generalizing job with
  | nil =>
    -- At the last word, nothing is hashed any more.
    refine ⟨⟨[], { job with unknownDot := (utils.incrementString job.unknownDot).1 }, true⟩, ?_, rfl,
      rfl⟩
    intro turns enough
    cases turns with
    | zero => simp at enough
    | succ turns => exact search_last followed turns
  | cons next rest ih =>
    obtain ⟨more, followed⟩ := followed
    have here := wrong next List.mem_cons_self
    obtain ⟨outcome, ends, failure, hashed⟩ :=
      @ih { job with unknownDot := next, hashCount := job.hashCount + 1 } followed
        fun word member => wrong word (List.mem_cons_of_mem _ member)
    refine ⟨outcome.behind [job.knownPart ++ next], ?_, failure, ?_⟩
    · intro turns enough
      cases turns with
      | zero => simp at enough
      | succ turns =>
        rw [search_next more, if_neg here, ends turns (Nat.lt_of_succ_lt_succ enough)]
        rfl
    · rw [Outcome.behind, hashed]
      rfl

/-- The loop ends, after no more turns than there are words. -/
theorem search_ends (followed : utils.FollowedBy job.unknownDot rest) :
    ∃ outcome, ∀ turns, rest.length < turns → search utils turns job = some outcome := by
  -- Whether a word is right or not, the loop ends; only where it ends is different.
  by_cases right : ∃ word ∈ rest, utils.crypt (job.knownPart ++ word) = job.password
  · obtain ⟨outcome, ends, _⟩ := search_found followed right
    exact ⟨outcome, ends⟩
  · obtain ⟨outcome, ends, _⟩ := search_missed followed
      fun word member hashes => right ⟨word, member, hashes⟩
    exact ⟨outcome, ends⟩

/-- What comes out of the loop is right exactly if one of the later completions is the password. -/
theorem searched_iff {outcome : Outcome} {command userName : List UInt8}
    (followed : utils.FollowedBy (utils.setStringPosition (utils.unknownPart knownpass) 0) rest)
    (ends : ∀ turns, rest.length < turns →
      search utils turns (firstJob utils command userName password knownpass) = some outcome) :
    Searches utils (completions utils knownpass rest) password outcome ↔
      ∃ word ∈ rest, utils.crypt (utils.knownPart knownpass ++ word) = password := by
  have ended := ends _ (Nat.lt_succ_self _)
  constructor
  · intro searches
    by_contra none
    -- The loop fails, with all completions hashed but the first one.
    obtain ⟨missed, ends', failure, hashed⟩ :=
      @search_missed utils (firstJob utils command userName password knownpass) rest followed
        fun word member right => none ⟨word, member, right⟩
    obtain rfl := Option.some.inj (ended.symm.trans (ends' _ (Nat.lt_succ_self _)))
    have lengths := (searches.all failure).length_eq
    rw [hashed, completions, List.length_map, List.length_map, List.length_cons] at lengths
    omega
  · intro right
    -- The loop ends at the right word, which belongs to a completion.
    obtain ⟨found, ends', success, known, held, hashes⟩ :=
      @search_found utils (firstJob utils command userName password knownpass) rest followed right
    obtain rfl := Option.some.inj (ended.symm.trans (ends' _ (Nat.lt_succ_self _)))
    have member : outcome.job.knownpass ∈ completions utils knownpass rest := by
      rw [Job.knownpass, known]
      exact List.mem_map_of_mem (List.mem_cons_of_mem _ held)
    refine ⟨iff_of_true success ⟨_, member, hashes⟩, fun _ => ⟨member, hashes⟩, fun failure => ?_⟩
    rw [success] at failure
    cases failure

/--
The loop ends, and has searched the completions exactly if one behind the first of them is the password:
the first one is never hashed.
-/
theorem searches_iff
    (followed : utils.FollowedBy (utils.setStringPosition (utils.unknownPart knownpass) 0) rest)
    (command userName password : List UInt8) :
    (∃ outcome, (∀ turns, rest.length < turns →
        search utils turns (firstJob utils command userName password knownpass) = some outcome) ∧
      Searches utils (completions utils knownpass rest) password outcome) ↔
    ∃ word ∈ rest, utils.crypt (utils.knownPart knownpass ++ word) = password := by
  constructor
  · rintro ⟨outcome, ends, searches⟩
    exact (searched_iff followed ends).mp searches
  · intro right
    obtain ⟨outcome, ends⟩ := @search_ends utils
      (firstJob utils command userName password knownpass) rest followed
    exact ⟨outcome, ends, (searched_iff followed ends).mpr right⟩

/-- The letters behind 'a', as words. -/
def sampleRest : List (List UInt8) := (List.range' 98 25).map fun letter => [letter.toUInt8]

/-- With one letter unknown, the second completion is found. -/
theorem searches_iff_second : ∃ outcome,
    (∀ turns, sampleRest.length < turns →
      search sampleUtils turns (firstJob sampleUtils [] [] [98] [46]) = some outcome) ∧
    Searches sampleUtils (completions sampleUtils [46] sampleRest) [98] outcome :=
  (@searches_iff sampleUtils sampleRest [46] (by decide) [] [] [98]).mpr
    ⟨[98], by decide, by decide⟩

/-- A password without an unknown letter is never hashed, and not found. -/
theorem known_password_missed : ¬ ∀ (utils : Utils) (command userName password knownpass : List UInt8)
    (rest : List (List UInt8)),
    utils.FollowedBy (utils.setStringPosition (utils.unknownPart knownpass) 0) rest →
    ∃ outcome, (∀ turns, rest.length < turns →
        search utils turns (firstJob utils command userName password knownpass) = some outcome) ∧
      Searches utils (completions utils knownpass rest) password outcome := by
  intro claim
  obtain ⟨outcome, ends, searches⟩ := claim sampleUtils [] [] [97] [97] [] rfl
  obtain rfl := Option.some.inj ((ends 1 Nat.one_pos).symm.trans (search_last rfl 0))
  have success := searches.success.mpr ⟨[97], by decide, by decide⟩
  cases success

end Loop

section Workers

variable {utils : Utils} {threads : Nat} {worker : Fin threads} {job job' : Job} {flag : Bool}
  {st st' final : State threads} {trace : List (Transition (State threads) (Fin threads))}

/-- A line that was pulled is searched for from the first job on. -/
theorem turn_pulled {command userName password knownpass : List UInt8}
    (here : st.place worker = .pulled (some command))
    (scanned : scan command = some (userName, password, knownpass)) :
    turn utils worker st = some (st.goto worker
      (.searching (firstJob utils command userName password knownpass))) := by
  rw [turn, here]
  simp only [scanned, Option.map_some]
  rfl

/-- The string that a worker hashes in a step, if any. -/
def hashedIn (utils : Utils) (worker : Fin threads)
    (taken : Transition (State threads) (Fin threads)) : Option (List UInt8) :=
  if taken.action = worker then
    match taken.before.place worker with
    | .searching job =>
      let (unknownDot, more) := utils.incrementString job.unknownDot
      if more then some (job.knownPart ++ unknownDot) else none
    | _ => none
  else none

/-- The strings that a worker hashes. -/
def hashedBy (utils : Utils) (worker : Fin threads)
    (trace : List (Transition (State threads) (Fin threads))) : List (List UInt8) :=
  trace.filterMap (hashedIn utils worker)

/-- The turns that a worker takes. -/
def turnsOf (worker : Fin threads) (trace : List (Transition (State threads) (Fin threads))) : Nat :=
  trace.countP fun taken => taken.action = worker

/-- A worker is where it went. -/
@[simp] theorem State.goto_place (place : Place) : (st.goto worker place).place worker = place :=
  Function.update_self _ _ _

/-- A step brings its worker to some place. -/
theorem Step.goes (stepped : Step utils st worker st') :
    ∃ place, st'.place = Function.update st.place worker place := by
  rw [Step] at stepped
  -- In each place, every branch that goes on ends with the worker somewhere else.
  cases here : st.place worker with
  | locking =>
    simp only [turn, here] at stepped
    split at stepped
    · cases stepped
    · split at stepped
      · obtain rfl := Option.some.inj stepped
        exact ⟨_, rfl⟩
      · obtain rfl := Option.some.inj stepped
        exact ⟨_, rfl⟩
  | pulling =>
    simp only [turn, here] at stepped
    split at stepped
    · cases stepped
    · obtain ⟨_, _, rfl⟩ := Option.map_eq_some_iff.mp stepped
      exact ⟨_, rfl⟩
  | pulled command =>
    cases command with
    | none =>
      simp only [turn, here] at stepped
      obtain rfl := Option.some.inj stepped
      exact ⟨_, rfl⟩
    | some command =>
      simp only [turn, here] at stepped
      obtain ⟨_, _, rfl⟩ := Option.map_eq_some_iff.mp stepped
      exact ⟨_, rfl⟩
  | searching job =>
    simp only [turn, here] at stepped
    split at stepped
    · split at stepped
      · obtain rfl := Option.some.inj stepped
        exact ⟨_, rfl⟩
      · obtain rfl := Option.some.inj stepped
        exact ⟨_, rfl⟩
    · obtain rfl := Option.some.inj stepped
      exact ⟨_, rfl⟩
  | counting job flag =>
    simp only [turn, here] at stepped
    split at stepped
    · cases stepped
    · split at stepped
      · obtain rfl := Option.some.inj stepped
        exact ⟨_, rfl⟩
      · obtain rfl := Option.some.inj stepped
        exact ⟨_, rfl⟩
  | returned =>
    simp only [turn, here] at stepped
    cases stepped

/-- A step changes the place of its own worker only. -/
theorem Step.places {other : Fin threads} (stepped : Step utils st worker st')
    (different : other ≠ worker) : st'.place other = st.place other := by
  obtain ⟨place, places⟩ := stepped.goes
  rw [places, Function.update_of_ne different]

/-- What the loop does after some turns, in which strings were hashed, from a worker's place on. -/
def Continues (utils : Utils) (job : Job) (turns : Nat) (hashed : List (List UInt8)) : Place → Prop
  | .searching job' => ∀ more,
    search utils (turns + more) job = (search utils more job').map (Outcome.behind hashed)
  | .counting job' flag => ∀ more, search utils (turns + more) job = some ⟨hashed, job', flag⟩
  | _ => False

/-- One more turn of the loop, in a step of the worker. -/
theorem Continues.step {turns : Nat} {hashed : List (List UInt8)}
    (continues : Continues utils job turns hashed (.searching job'))
    (here : st.place worker = .searching job') (stepped : Step utils st worker st') :
    Continues utils job (turns + 1) (hashed ++ (hashedIn utils worker ⟨st, worker, st'⟩).toList)
      (st'.place worker) := by
  have later (more : Nat) : search utils (turns + 1 + more) job =
      (search utils (more + 1) job').map (Outcome.behind hashed) := by
    rw [Nat.add_assoc, Nat.add_comm 1]
    exact continues (more + 1)
  have behind (string : List UInt8) : Outcome.behind hashed ∘ Outcome.behind [string] =
      Outcome.behind (hashed ++ [string]) := by
    funext outcome
    simp [Outcome.behind]
  simp only [Step, turn, here] at stepped
  simp only [hashedIn, if_pos, here]
  cases more : (utils.incrementString job'.unknownDot).2 with
  | false =>
    -- There is no further word, so that the loop fails without another hash.
    simp only [more, Bool.false_eq_true, if_false] at stepped ⊢
    obtain rfl := Option.some.inj stepped
    rw [State.goto_place]
    intro turns
    rw [later, search_last more]
    rfl
  | true =>
    have next : utils.incrementString job'.unknownDot =
        ((utils.incrementString job'.unknownDot).1, true) := Prod.ext rfl more
    simp only [more, if_true] at stepped ⊢
    split at stepped
    · -- The string is the password, and the worker leaves the loop.
      rename_i right
      obtain rfl := Option.some.inj stepped
      rw [State.goto_place]
      intro turns
      rw [later, search_next next, if_pos right]
      rfl
    · -- It is not, and the loop goes on with one string more.
      rename_i wrong
      obtain rfl := Option.some.inj stepped
      rw [State.goto_place]
      intro turns
      rw [later, search_next next, if_neg wrong, Option.map_map, behind]
      rfl

/--
In any order of the workers' steps, what a worker has hashed since it began with a line, and where it is,
is what the loop does in the turns that the worker has taken.
-/
theorem continues_of_run (run : Run (Step utils) st trace final)
    (here : st.place worker = .searching job)
    (inside : ∀ taken ∈ trace, taken.action = worker →
      ∃ job', taken.before.place worker = .searching job') :
    Continues utils job (turnsOf worker trace) (hashedBy utils worker trace) (final.place worker) := by
  revert inside
  refine @Run.history _ _ (Step utils) st final trace (fun trace reached =>
    (∀ taken ∈ trace, taken.action = worker → ∃ job', taken.before.place worker = .searching job') →
      Continues utils job (turnsOf worker trace) (hashedBy utils worker trace)
        (reached.place worker)) run ?_ ?_
  · -- No turn has been taken, so the loop is still at its beginning.
    intro _
    rw [here]
    intro more
    show search utils (0 + more) job = _
    rw [Nat.zero_add]
    exact Option.map_id'.symm
  · intro trace before other after ih stepped inside
    have past := ih fun taken member => inside taken (List.mem_append_left _ member)
    have turns : turnsOf worker (trace ++ [⟨before, other, after⟩]) =
        turnsOf worker trace + if other = worker then 1 else 0 := by
      simp [turnsOf, List.countP_append, List.countP_singleton]
    have strings : hashedBy utils worker (trace ++ [⟨before, other, after⟩]) =
        hashedBy utils worker trace ++ (hashedIn utils worker ⟨before, other, after⟩).toList := by
      simp only [hashedBy, List.filterMap_append]
      cases taken : hashedIn utils worker ⟨before, other, after⟩ <;> simp [taken]
    rw [turns, strings]
    by_cases own : other = worker
    · -- A step of the worker itself is a turn of its loop.
      subst own
      obtain ⟨job', searching⟩ := inside ⟨before, other, after⟩ (by simp) rfl
      rw [if_pos rfl]
      rw [searching] at past
      exact past.step searching stepped
    · -- The other workers leave the loop of this one alone.
      rw [if_neg own, stepped.places (Ne.symm own), hashedIn, if_neg own]
      simpa using past

/-- So a worker that comes to the end of its loop has the outcome of the loop. -/
theorem searched_of_run {command userName password knownpass : List UInt8}
    {rest : List (List UInt8)}
    (followed : utils.FollowedBy (utils.setStringPosition (utils.unknownPart knownpass) 0) rest)
    (run : Run (Step utils) st trace final)
    (here : st.place worker = .searching (firstJob utils command userName password knownpass))
    (inside : ∀ taken ∈ trace, taken.action = worker →
      ∃ job', taken.before.place worker = .searching job')
    (ended : final.place worker = .counting job' flag) :
    Searches utils (completions utils knownpass rest) password
        ⟨hashedBy utils worker trace, job', flag⟩ ↔
      ∃ word ∈ rest, utils.crypt (utils.knownPart knownpass ++ word) = password := by
  have continues := continues_of_run run here inside
  rw [ended] at continues
  obtain ⟨outcome, ends⟩ := @search_ends utils
    (firstJob utils command userName password knownpass) rest followed
  -- With turns to spare, the loop has the one outcome that it has.
  have same := continues (rest.length + 1)
  rw [ends _ (by omega)] at same
  rw [← Option.some.inj same]
  exact searched_iff followed ends

end Workers

end SystemProgramming.PasswordCracker.Cracker1
