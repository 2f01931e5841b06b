import SystemProgramming.MapReduce.Tables

/-! What is known of the descriptors of all processes, in every state that is reached. -/

namespace SystemProgramming.MapReduce

open Foundations

section Invariant

variable {mapperCount capacity : Nat} {st st' : State} {child other : Child} {stage : Stage}
  {fds : Descriptors End} {file : End} {pipe : Nat} {actor : Option Child}
  {trace : List (Transition State (Option Child))}

/-- Nobody can write to the pipe any more that a child reads from. -/
def Ended (mapperCount : Nat) (st : State) (child : Child) : Prop :=
  ∀ pipe, child.input mapperCount = some pipe → ¬ st.Holds (.writeEnd pipe)

/-- The descriptors of a child, where it is; its input has ended, if it was to read and does not go on. -/
def Fits (mapperCount : Nat) (child : Child) (ended : Prop) : Stage → Descriptors End → Prop
  | .absent, fds => fds = .none
  | .setup calls, fds =>
    ∃ final, DescriptorCall.runAll calls fds = some final ∧ Ready mapperCount child final
  | .running _ reading, fds =>
    Ready mapperCount child fds ∧ (reading = false → ended) ∧ (reading = true → child.reads = true)
  | .exited, fds => fds = .none ∧ ended

/-- What is known of the descriptors in every state. -/
structure Sound (mapperCount : Nat) (st : State) : Prop where
  table : st.mainFds = mainTable mapperCount st.pc
  bounded : Bounded mapperCount st.pc
  forked : ∀ child, st.stage child ≠ .absent ↔ Forked mapperCount st.pc child
  fits : ∀ child, Fits mapperCount child (Ended mapperCount st child) (st.stage child) (st.fds child)
  mayWrite : ∀ child pipe, (st.fds child).Holds (.writeEnd pipe) → MayWrite mapperCount child pipe

/-- An input that has ended has ended for a state in which less is open, too. -/
theorem Fits.mono {ended later : Prop} (fits : Fits mapperCount child ended stage fds)
    (kept : ended → later) : Fits mapperCount child later stage fds := by
  cases stage with
  | absent => exact fits
  | setup calls => exact fits
  | running pending reading => exact ⟨fits.1, fun stops => kept (fits.2.1 stops), fits.2.2⟩
  | exited => exact ⟨fits.1, kept fits.2⟩

theorem Ended.mono (ended : Ended mapperCount st child)
    (fewer : ∀ file, st'.Holds file → st.Holds file) : Ended mapperCount st' child :=
  fun pipe input holds => ended pipe input (fewer _ holds)

/-- What a child opens, it had open before. -/
theorem holds_goto (fewer : ∀ file, fds.Holds file → (st.fds child).Holds file)
    (holds : (st.goto child fds stage).Holds file) : st.Holds file := by
  rcases holds with inMain | ⟨other, inChild⟩
  · exact .inl inMain
  · refine .inr ⟨other, ?_⟩
    by_cases same : other = child
    · subst same
      rw [State.goto_fds] at inChild
      exact fewer file inChild
    · rwa [State.goto_fds_of_ne same] at inChild

/-- A child goes on, and opens nothing that it did not have open. -/
theorem Sound.goto (sound : Sound mapperCount st) (present : st.stage child ≠ .absent)
    (stays : stage ≠ .absent) (fewer : ∀ file, fds.Holds file → (st.fds child).Holds file)
    (fits : Fits mapperCount child (Ended mapperCount st child) stage fds) :
    Sound mapperCount (st.goto child fds stage) := by
  have kept (other : Child) (ended : Ended mapperCount st other) :
      Ended mapperCount (st.goto child fds stage) other := ended.mono fun _ => holds_goto fewer
  -- The other children keep their descriptors, and what has ended for them stays so.
  refine ⟨sound.table, sound.bounded, fun other => ?_, fun other => ?_, fun other pipe => ?_⟩
  · rw [State.goto_pc, ← sound.forked]
    by_cases same : other = child
    · subst same
      rw [State.goto_stage]
      exact iff_of_true stays present
    · rw [State.goto_stage_of_ne same]
  · by_cases same : other = child
    · subst same
      rw [State.goto_stage, State.goto_fds]
      exact fits.mono (kept other)
    · rw [State.goto_stage_of_ne same, State.goto_fds_of_ne same]
      exact (sound.fits other).mono (kept other)
  · by_cases same : other = child
    · subst same
      rw [State.goto_fds]
      exact fun holds => sound.mayWrite other pipe (fewer _ holds)
    · rw [State.goto_fds_of_ne same]
      exact sound.mayWrite other pipe

/-- What is known does not depend on the contents of the pipes. -/
theorem Sound.move (sound : Sound mapperCount st) {pending : Nat} {reading : Bool}
    (here : st.stage child = .running pending reading) (left count : Nat) :
    Sound mapperCount (st.move child (.running left reading) pipe count) := by
  have fits := sound.fits child
  rw [here] at fits
  have present : st.stage child ≠ .absent := by
    rw [here]
    exact Stage.noConfusion
  have moved : Sound mapperCount (st.goto child (st.fds child) (.running left reading)) :=
    sound.goto present Stage.noConfusion (fun _ => id) fits
  exact ⟨moved.table, moved.bounded, moved.forked, moved.fits, moved.mayWrite⟩

/-- `main` goes on without forking, and opens nothing. -/
theorem Sound.turn (sound : Sound mapperCount st) (pc : Pc) {mainFds : Descriptors End}
    (table : mainFds = mainTable mapperCount pc)
    (fewer : ∀ file, mainFds.Holds file → st.mainFds.Holds file) (bounded : Bounded mapperCount pc)
    (same : ∀ child, Forked mapperCount pc child ↔ Forked mapperCount st.pc child) :
    Sound mapperCount { st with pc := pc, mainFds := mainFds } := by
  refine ⟨table, bounded, fun child => (sound.forked child).trans (same child).symm, fun child => ?_,
    sound.mayWrite⟩
  apply (sound.fits child).mono
  intro ended
  apply ended.mono
  intro file holds
  rcases holds with inMain | inChild
  · exact .inl (fewer file inMain)
  · exact .inr inChild

/-- `main` forks a child. -/
theorem Sound.fork (sound : Sound mapperCount st) {pc : Pc}
    (table : mainTable mapperCount pc = mainTable mapperCount st.pc)
    (bounded : Bounded mapperCount pc)
    (more : ∀ other, Forked mapperCount pc other ↔ Forked mapperCount st.pc other ∨ other = child)
    (ready : ∃ final, DescriptorCall.runAll (childCalls mapperCount child)
      (mainTable mapperCount st.pc) = some final ∧ Ready mapperCount child final)
    (mayWrite : ∀ pipe, (mainTable mapperCount st.pc).Holds (.writeEnd pipe) →
      MayWrite mapperCount child pipe) :
    Sound mapperCount { st.fork mapperCount child with pc := pc } := by
  rw [← sound.table] at ready mayWrite
  -- The child has nothing open that `main` has not.
  have fewer (file : End)
      (holds : State.Holds { st.fork mapperCount child with pc := pc } file) : st.Holds file := by
    rcases holds with inMain | ⟨other, inChild⟩
    · exact .inl inMain
    · by_cases same : other = child
      · subst same
        rw [State.fork, State.goto_fds] at inChild
        exact .inl inChild
      · rw [State.fork, State.goto_fds_of_ne same] at inChild
        exact .inr ⟨other, inChild⟩
  refine ⟨sound.table.trans table.symm, bounded, fun other => ?_, fun other => ?_,
    fun other pipe => ?_⟩
  · refine Iff.trans ?_ (more other).symm
    rw [← sound.forked, State.fork]
    by_cases same : other = child
    · subst same
      rw [State.goto_stage]
      exact iff_of_true Stage.noConfusion (.inr rfl)
    · rw [State.goto_stage_of_ne same, or_iff_left same]
  · by_cases same : other = child
    · subst same
      rw [State.fork, State.goto_stage, State.goto_fds]
      exact ready
    · rw [State.fork, State.goto_stage_of_ne same, State.goto_fds_of_ne same]
      exact (sound.fits other).mono fun ended => ended.mono fewer
  · by_cases same : other = child
    · subst same
      rw [State.fork, State.goto_fds]
      exact mayWrite pipe
    · rw [State.fork, State.goto_fds_of_ne same]
      exact sound.mayWrite other pipe

/-- Closing a descriptor opens nothing. -/
theorem holds_of_closed {table : Descriptors End} {fd : Nat}
    (holds : Descriptors.Holds (Function.update table fd none) file) : table.Holds file :=
  @DescriptorCall.holds_of_run _ (.close fd) table _ _ rfl holds

/-- `main` goes on, and leaves its descriptors as they are. -/
theorem Sound.onward (sound : Sound mapperCount st) {before : Pc} (here : st.pc = before) (pc : Pc)
    (table : mainTable mapperCount before = mainTable mapperCount pc)
    (bounded : Bounded mapperCount pc)
    (same : ∀ child, Forked mapperCount pc child ↔ Forked mapperCount before child) :
    Sound mapperCount { st with pc := pc } := by
  subst here
  exact sound.turn pc (sound.table.trans table) (fun _ => id) bounded same

section Turns

variable {i : Nat}

/-- The loop over the splitters forks them one after the other. -/
theorem Sound.splitters (sound : Sound mapperCount st) (here : st.pc = .splitters i)
    (turned : mainTurn mapperCount st = some st') : Sound mapperCount st' := by
  have bounded := sound.bounded
  simp only [here] at bounded
  simp only [mainTurn, here] at turned
  split at turned
  · rename_i below
    obtain rfl := Option.some.inj turned
    apply sound.fork
    · rw [here]
      rfl
    · exact below
    · -- One more splitter is forked, and nothing else.
      intro other
      rw [here]
      cases other with
      | splitter k =>
        simp only [Forked, Child.splitter.injEq]
        omega
      | mapper k => simp [Forked]
      | reducer => simp [Forked]
    · rw [here]
      exact ready_splitter below
    · exact fun _ _ => trivial
  · rename_i last
    obtain rfl := Option.some.inj turned
    obtain rfl : i = mapperCount := Nat.le_antisymm bounded (Nat.le_of_not_lt last)
    apply sound.onward here (.mappers 0) rfl (Nat.zero_le _)
    intro child
    cases child with
    | splitter k => exact Iff.rfl
    | mapper k => simp [Forked]
    | reducer => exact Iff.rfl

/-- The loop over the mappers closes the write end of each pipe before it forks the reader. -/
theorem Sound.mappers (sound : Sound mapperCount st) (here : st.pc = .mappers i)
    (turned : mainTurn mapperCount st = some st') : Sound mapperCount st' := by
  have table := sound.table
  have bounded := sound.bounded
  simp only [here] at table bounded
  simp only [mainTurn, here] at turned
  split at turned
  · rename_i below
    obtain rfl := Option.some.inj turned
    -- Closing the write end gives the table from which the mapper is forked.
    have next : Function.update st.mainFds (mapPipes (2 * i + 1)) none =
        mainTable mapperCount (.forkMapper i) := by
      rw [table, mainTable, mainTable, closedWrites]
    apply sound.turn (.forkMapper i) next (fun _ => holds_of_closed) below
    intro child
    rw [here]
    cases child <;> exact Iff.rfl
  · rename_i last
    obtain rfl := Option.some.inj turned
    obtain rfl : i = mapperCount := Nat.le_antisymm bounded (Nat.le_of_not_lt last)
    apply sound.onward here .forkReducer rfl trivial
    intro child
    cases child <;> exact Iff.rfl

theorem Sound.forkMapper (sound : Sound mapperCount st) (here : st.pc = .forkMapper i)
    (turned : mainTurn mapperCount st = some st') : Sound mapperCount st' := by
  have bounded := sound.bounded
  simp only [here] at bounded
  simp only [mainTurn, here] at turned
  obtain rfl := Option.some.inj turned
  apply sound.fork
  · rw [here]
    rfl
  · exact bounded
  · intro other
    rw [here]
    cases other with
    | splitter k => simp [Forked]
    | mapper k =>
      simp only [Forked, Child.mapper.injEq]
      omega
    | reducer => simp [Forked]
  · rw [here]
    exact ready_mapper bounded
  · -- The write ends of the earlier pipes are closed by now.
    rw [here]
    rintro pipe ⟨fd, open_⟩
    obtain ⟨_, later, _⟩ := of_closedWrites open_
    exact later

theorem Sound.forkReducer (sound : Sound mapperCount st) (here : st.pc = .forkReducer)
    (turned : mainTurn mapperCount st = some st') : Sound mapperCount st' := by
  simp only [mainTurn, here] at turned
  obtain rfl := Option.some.inj turned
  apply sound.fork
  · rw [here]
    rfl
  · exact Nat.zero_le _
  · intro other
    rw [here]
    cases other <;> simp [Forked]
  · rw [here]
    exact ready_reducer
  · -- Only the pipe of the reducer has a write end left.
    rw [here]
    rintro pipe ⟨fd, open_⟩
    obtain ⟨_, later, upper⟩ := of_closedWrites open_
    exact Nat.le_antisymm upper later

/-- The loop that closes all pipes; its first two turns close those of the reducer, too. -/
theorem Sound.closing (sound : Sound mapperCount st) (here : st.pc = .closing i)
    (turned : mainTurn mapperCount st = some st') : Sound mapperCount st' := by
  have table := sound.table
  have bounded := sound.bounded
  simp only [here] at table bounded
  simp only [mainTurn, here] at turned
  split at turned
  · rename_i below
    obtain rfl := Option.some.inj turned
    have same (child : Child) :
        Forked mapperCount (.closing (i + 1)) child ↔ Forked mapperCount st.pc child := by
      rw [here]
      cases child <;> exact Iff.rfl
    -- Only the table of `main` changes, and the children keep what they have.
    by_cases early : i < 2
    · have next : Function.update (Function.update st.mainFds (mapPipes i) none)
          (reducerPipes mapperCount i) none = mainTable mapperCount (.closing (i + 1)) := by
        rw [table, mainTable, mainTable, closedAll, if_pos early]
      rw [if_pos early]
      exact sound.turn (.closing (i + 1)) next
        (fun _ holds => holds_of_closed (holds_of_closed holds)) below same
    · have next : Function.update st.mainFds (mapPipes i) none =
          mainTable mapperCount (.closing (i + 1)) := by
        rw [table, mainTable, mainTable, closedAll, if_neg early]
      rw [if_neg early]
      exact sound.turn (.closing (i + 1)) next (fun _ => holds_of_closed) below same
  · rename_i last
    obtain rfl := Option.some.inj turned
    obtain rfl : i = mapperCount * 2 := Nat.le_antisymm bounded (Nat.le_of_not_lt last)
    apply sound.onward here .waitReducer rfl trivial
    intro child
    cases child <;> exact Iff.rfl

/-- Where `main` waits, its descriptors are closed and all children are forked. -/
theorem Sound.waiting (sound : Sound mapperCount st) {before : Pc} (here : st.pc = before)
    (waits : before = .waitReducer ∨ (∃ i, before = .waitSplitter i) ∨ ∃ i, before = .waitMapper i)
    (turned : mainTurn mapperCount st = some st') : Sound mapperCount st' := by
  have bounded := sound.bounded
  -- A wait that is over leads to the next one, and nothing else changes.
  rcases waits with rfl | ⟨i, rfl⟩ | ⟨i, rfl⟩
  · simp only [mainTurn, here] at turned
    split at turned
    · obtain rfl := Option.some.inj turned
      apply sound.onward here (.waitSplitter 0) rfl (Nat.zero_le _)
      intro child
      cases child <;> exact Iff.rfl
    · cases turned
  · simp only [mainTurn, here] at turned
    split at turned
    · rename_i below
      split at turned
      · obtain rfl := Option.some.inj turned
        apply sound.onward here (.waitMapper i) rfl below
        intro child
        cases child <;> exact Iff.rfl
      · cases turned
    · obtain rfl := Option.some.inj turned
      apply sound.onward here .done rfl trivial
      intro child
      cases child <;> exact Iff.rfl
  · simp only [here] at bounded
    simp only [mainTurn, here] at turned
    split at turned
    · obtain rfl := Option.some.inj turned
      apply sound.onward here (.waitSplitter (i + 1)) rfl bounded
      intro child
      cases child <;> exact Iff.rfl
    · cases turned

end Turns

/-- Every step of `main` keeps what is known. -/
theorem Sound.main (sound : Sound mapperCount st) (turned : mainTurn mapperCount st = some st') :
    Sound mapperCount st' := by
  -- The cases are the places of `main`, in the order of the source.
  cases here : st.pc with
  | splitters i => exact sound.splitters here turned
  | mappers i => exact sound.mappers here turned
  | forkMapper i => exact sound.forkMapper here turned
  | forkReducer => exact sound.forkReducer here turned
  | closing i => exact sound.closing here turned
  | waitReducer => exact sound.waiting here (.inl rfl) turned
  | waitSplitter i => exact sound.waiting here (.inr (.inl ⟨i, rfl⟩)) turned
  | waitMapper i => exact sound.waiting here (.inr (.inr ⟨i, rfl⟩)) turned
  | done =>
    simp only [mainTurn, here] at turned
    cases turned

/-- Only a mapper, or a splitter, that is counted is forked. -/
theorem Forked.lt {pc : Pc} {k : Nat} (bounded : Bounded mapperCount pc) :
    (Forked mapperCount pc (.splitter k) → k < mapperCount) ∧
      (Forked mapperCount pc (.mapper k) → k < mapperCount) := by
  cases pc with
  | splitters i => exact ⟨fun below => Nat.lt_of_lt_of_le below bounded, False.elim⟩
  | mappers i => exact ⟨id, fun below => Nat.lt_of_lt_of_le below bounded⟩
  | forkMapper i => exact ⟨id, fun below => Nat.lt_trans below bounded⟩
  | forkReducer => exact ⟨id, id⟩
  | closing i => exact ⟨id, id⟩
  | waitReducer => exact ⟨id, id⟩
  | waitSplitter i => exact ⟨id, id⟩
  | waitMapper i => exact ⟨id, id⟩
  | done => exact ⟨id, id⟩

/-- The program of a child reads from its own pipe. -/
theorem Ready.input (ready : Ready mapperCount child fds)
    (input : child.input mapperCount = some pipe) : fds 0 = some (.readEnd pipe) := by
  cases child with
  | splitter i => cases input
  | mapper i =>
    obtain rfl := Option.some.inj input
    exact ready.1
  | reducer =>
    obtain rfl := Option.some.inj input
    exact ready.1

/-- The child that reads from a pipe. -/
def reader (mapperCount pipe : Nat) : Child :=
  if pipe = mapperCount then .reducer else .mapper pipe

theorem reader_input : (reader mapperCount pipe).input mapperCount = some pipe := by
  rw [reader]
  split
  · rename_i last
    rw [last]
    rfl
  · rfl

/-- When `main` closes what it has, every reader is forked. -/
theorem forked_reader {pc : Pc} (inside : pipe ≤ mapperCount)
    (all : ∀ k, k < mapperCount → Forked mapperCount pc (.mapper k))
    (last : Forked mapperCount pc .reducer) : Forked mapperCount pc (reader mapperCount pipe) := by
  rw [reader]
  split
  · exact last
  · exact all pipe (by omega)

/-- As long as the reader of a pipe is not forked, `main` has the read end. -/
theorem mainTable_read {pc : Pc} (inside : pipe ≤ mapperCount)
    (waiting : ¬ Forked mapperCount pc (reader mapperCount pipe)) :
    (mainTable mapperCount pc).Holds (.readEnd pipe) := by
  refine ⟨3 + 2 * pipe, ?_⟩
  cases pc with
  | splitters i => exact opened_read inside
  | mappers i => exact closedWrites_read inside
  | forkMapper i => exact closedWrites_read inside
  | forkReducer => exact closedWrites_read inside
  | closing i => exact (waiting (forked_reader inside (fun _ => id) trivial)).elim
  | waitReducer => exact (waiting (forked_reader inside (fun _ => id) trivial)).elim
  | waitSplitter i => exact (waiting (forked_reader inside (fun _ => id) trivial)).elim
  | waitMapper i => exact (waiting (forked_reader inside (fun _ => id) trivial)).elim
  | done => exact (waiting (forked_reader inside (fun _ => id) trivial)).elim

/-- A pipe has a reader until its reader has ended. -/
theorem Sound.readEnd_held (sound : Sound mapperCount st) (inside : pipe ≤ mapperCount)
    (alive : st.stage (reader mapperCount pipe) ≠ .exited) : st.Holds (.readEnd pipe) := by
  have fits := sound.fits (reader mapperCount pipe)
  have input : (reader mapperCount pipe).input mapperCount = some pipe := reader_input
  cases here : st.stage (reader mapperCount pipe) with
  | absent =>
    have waiting : ¬ Forked mapperCount st.pc (reader mapperCount pipe) := fun forked =>
      (sound.forked _).mpr forked here
    left
    rw [sound.table]
    exact mainTable_read inside waiting
  | setup calls =>
    -- The read end that the program will have is open before.
    rw [here] at fits
    obtain ⟨final, ran, ready⟩ := fits
    exact .inr ⟨_, DescriptorCall.holds_of_runAll ran ⟨0, ready.input input⟩⟩
  | running pending reading =>
    rw [here] at fits
    exact .inr ⟨_, 0, fits.1.input input⟩
  | exited => exact absurd here alive

/-- A program writes to the pipe that it was given, which is not the one that it reads from. -/
theorem Sound.output_inside (sound : Sound mapperCount st) {pending : Nat} {reading : Bool}
    (here : st.stage child = .running pending reading)
    (file : st.fds child 1 = some (.writeEnd pipe)) : pipe ≤ mapperCount := by
  have fits := sound.fits child
  have forked := (sound.forked child).mp (by rw [here]; exact Stage.noConfusion)
  rw [here] at fits
  cases child with
  | splitter i =>
    rw [show st.fds (.splitter i) 1 = _ from fits.1] at file
    cases file
    exact Nat.le_of_lt ((Forked.lt sound.bounded).1 forked)
  | mapper i =>
    rw [fits.1.2] at file
    cases file
    exact Nat.le_refl _
  | reducer =>
    rw [fits.1.2.1] at file
    cases file

/-- What is written to has a reader. -/
theorem Sound.not_abandoned (sound : Sound mapperCount st) {pending : Nat} {reading : Bool}
    (here : st.stage child = .running pending reading)
    (file : st.fds child 1 = some (.writeEnd pipe)) : st.Holds (.readEnd pipe) := by
  apply sound.readEnd_held (sound.output_inside here file)
  intro gone
  -- A reader that has ended has seen that there is no writer.
  have fits := sound.fits (reader mapperCount pipe)
  rw [gone] at fits
  exact fits.2 pipe reader_input (.inr ⟨child, 1, file⟩)

/-- A stage that is known is not the one before the fork. -/
theorem present_of (here : st.stage child = stage) (stays : stage ≠ .absent) :
    st.stage child ≠ .absent := by
  rwa [here]

/-- Every step keeps what is known. -/
theorem Sound.step (sound : Sound mapperCount st) (stepped : Step mapperCount capacity st actor st') :
    Sound mapperCount st' := by
  cases stepped with
  | main turned => exact sound.main turned
  | @call child call calls fds here ran =>
    have fits := sound.fits child
    rw [here] at fits
    obtain ⟨final, all, ready⟩ := fits
    obtain ⟨middle, first, rest⟩ := Option.bind_eq_some_iff.mp all
    rw [ran] at first
    obtain rfl := Option.some.inj first
    exact sound.goto (present_of here Stage.noConfusion) Stage.noConfusion
      (fun _ => DescriptorCall.holds_of_run ran) ⟨final, rest, ready⟩
  | @fails child call calls here failed =>
    -- No call fails, since the program is to be ready in the end.
    have fits := sound.fits child
    rw [here] at fits
    obtain ⟨final, all, ready⟩ := fits
    rw [DescriptorCall.runAll, failed] at all
    cases all
  | @exec child here pending =>
    have fits := sound.fits child
    rw [here] at fits
    obtain ⟨final, all, ready⟩ := fits
    obtain rfl := Option.some.inj all
    refine sound.goto (present_of here Stage.noConfusion) Stage.noConfusion (fun _ => id)
      ⟨ready, fun stops => ?_, id⟩
    cases child with
    | splitter i =>
      intro pipe input
      cases input
    | mapper i => cases stops
    | reducer => cases stops
  | write here file reader amount positive left room => exact sound.move here _ _
  | killed here positive file abandoned => exact absurd (sound.not_abandoned here file) abandoned
  | @print child pending reading here file amount positive left =>
    have fits := sound.fits child
    rw [here] at fits
    exact sound.goto (present_of here Stage.noConfusion) Stage.noConfusion (fun _ => id) fits
  | read here file amount positive there pending => exact sound.move here _ _
  | @eof child pipe here file empty abandoned pending =>
    have fits := sound.fits child
    rw [here] at fits
    refine sound.goto (present_of here Stage.noConfusion) Stage.noConfusion (fun _ => id)
      ⟨fits.1, fun _ other input => ?_, Bool.noConfusion⟩
    -- The pipe whose end was read is that of the child.
    have same := fits.1.input input
    rw [file] at same
    cases same
    exact abandoned
  | @exit child here =>
    have fits := sound.fits child
    rw [here] at fits
    exact sound.goto (present_of here Stage.noConfusion) Stage.noConfusion
      (fun file holds => absurd holds (Descriptors.not_holds_none file)) ⟨rfl, fits.2.1 rfl⟩

/-- At the start everything is open in `main`. -/
theorem sound_start : Sound mapperCount (start mapperCount) := by
  refine ⟨rfl, Nat.zero_le _, fun child => ?_, fun _ => rfl, fun child pipe holds => ?_⟩
  · cases child <;> simp [start, Forked]
  · exact absurd holds (Descriptors.not_holds_none _)

/-- In every state that is reached the descriptors are known. -/
theorem Sound.of_run (run : Run (Step mapperCount capacity) (start mapperCount) trace st) :
    Sound mapperCount st :=
  run.invariant sound_start fun _ _ _ sound stepped => sound.step stepped

end Invariant

end SystemProgramming.MapReduce
