import SystemProgramming.MapReduce.Pipeline
import SystemProgramming.Foundations.Interleaving

/-!
What flows through the pipeline: each mapper is given what its splitter writes, and the reducer what
the mappers write, in the order in which it is written.
-/

namespace SystemProgramming.MapReduce

open Foundations

/--
The bytes in the pipes and those that the programs have read, each with its writer, the bytes that
the programs have written, and the output file.
-/
structure Flow where
  bytes : Nat → List (Child × UInt8)
  wrote : Child → List UInt8
  took : Child → List (Child × UInt8)
  printed : List UInt8

namespace Flow

/-- The pipes and the output file are empty. -/
def start : Flow where
  bytes _ := []
  wrote _ := []
  took _ := []
  printed := []

/-- A program writes to a pipe. -/
def write (flow : Flow) (child : Child) (pipe : Nat) (data : List UInt8) : Flow :=
  { flow with
    bytes := Function.update flow.bytes pipe (flow.bytes pipe ++ data.map fun byte => (child, byte))
    wrote := Function.update flow.wrote child (flow.wrote child ++ data) }

/-- A program writes to the output file. -/
def print (flow : Flow) (child : Child) (data : List UInt8) : Flow :=
  { flow with
    wrote := Function.update flow.wrote child (flow.wrote child ++ data)
    printed := flow.printed ++ data }

/-- A program reads the next bytes of a pipe. -/
def read (flow : Flow) (child : Child) (pipe amount : Nat) : Flow :=
  { flow with
    bytes := Function.update flow.bytes pipe ((flow.bytes pipe).drop amount)
    took := Function.update flow.took child (flow.took child ++ (flow.bytes pipe).take amount) }

end Flow

/-- No pipe has another number of bytes, and no program has less left to write. -/
def Calm (st st' : State) : Prop :=
  st'.content = st.content ∧ ∀ child pending left reading still,
    st.stage child = .running pending reading → st'.stage child = .running left still → pending ≤ left

/-- The steps of the processes, with the bytes that they write and read. -/
inductive FlowStep (mapperCount capacity : Nat) : State × Flow → Option Child → State × Flow → Prop
  | write {st : State} {flow : Flow} {child : Child} {pending pipe : Nat} {reading : Bool}
      (here : st.stage child = .running pending reading)
      (file : st.fds child 1 = some (.writeEnd pipe)) (reader : st.Holds (.readEnd pipe))
      (data : List UInt8) (positive : 1 ≤ data.length) (left : data.length ≤ pending)
      (room : st.content pipe + data.length ≤ capacity) :
      FlowStep mapperCount capacity (st, flow) (some child)
        (st.move child (.running (pending - data.length) reading) pipe
          (st.content pipe + data.length), flow.write child pipe data)
  | print {st : State} {flow : Flow} {child : Child} {pending : Nat} {reading : Bool}
      (here : st.stage child = .running pending reading) (file : st.fds child 1 = some .output)
      (data : List UInt8) (positive : 1 ≤ data.length) (left : data.length ≤ pending) :
      FlowStep mapperCount capacity (st, flow) (some child)
        (st.goto child (st.fds child) (.running (pending - data.length) reading),
          flow.print child data)
  | read {st : State} {flow : Flow} {child : Child} {pipe : Nat}
      (here : st.stage child = .running 0 true) (file : st.fds child 0 = some (.readEnd pipe))
      (amount : Nat) (positive : 1 ≤ amount) (there : amount ≤ st.content pipe) (pending : Nat) :
      FlowStep mapperCount capacity (st, flow) (some child)
        (st.move child (.running pending true) pipe (st.content pipe - amount),
          flow.read child pipe amount)
  /-- The other steps write and read nothing. -/
  | quiet {st st' : State} {flow : Flow} {actor : Option Child}
      (step : Step mapperCount capacity st actor st') (calm : Calm st st') :
      FlowStep mapperCount capacity (st, flow) actor (st', flow)

section Steps

variable {mapperCount capacity : Nat} {st st' : State} {flow flow' : Flow} {actor : Option Child}
  {child : Child} {pipe : Nat} {stage : Stage}

/-- Without its bytes, such a step is one of the processes. -/
theorem FlowStep.step {before after : State × Flow}
    (flows : FlowStep mapperCount capacity before actor after) :
    Step mapperCount capacity before.1 actor after.1 := by
  cases flows with
  | write here file reader data positive left room => exact .write here file reader _ positive left room
  | print here file data positive left => exact .print here file _ positive left
  | read here file amount positive there pending => exact .read here file amount positive there pending
  | quiet step => exact step

/-- A child that goes elsewhere leaves everything calm, unless it has less left to write. -/
theorem calm_goto {fds : Descriptors End}
    (more : ∀ pending left reading still, st.stage child = .running pending reading →
      stage = .running left still → pending ≤ left) : Calm st (st.goto child fds stage) := by
  refine ⟨rfl, fun other pending left reading still before after => ?_⟩
  -- Another child is where it was.
  by_cases same : other = child
  · subst same
    rw [State.goto_stage] at after
    exact more pending left reading still before after
  · rw [State.goto_stage_of_ne same, before] at after
    cases after
    exact Nat.le_refl _

/-- A turn of `main` changes no pipe, and no child but the one that it forks. -/
theorem mainTurn_stage (turned : mainTurn mapperCount st = some st') :
    st'.content = st.content ∧
      ∀ child, st'.stage child = st.stage child ∨ ∃ calls, st'.stage child = .setup calls := by
  -- A child that is forked begins with its calls, and the others stay.
  have forked (parent : Child) (child : Child) :
      (st.fork mapperCount parent).stage child = st.stage child ∨
        ∃ calls, (st.fork mapperCount parent).stage child = .setup calls := by
    rw [State.fork]
    by_cases same : child = parent
    · exact .inr ⟨_, by rw [same, State.goto_stage]⟩
    · exact .inl (State.goto_stage_of_ne same)
  rw [mainTurn] at turned
  -- Only the places where a child is forked change a stage.
  cases here : st.pc with
  | splitters i =>
    simp only [here] at turned
    split at turned <;> obtain rfl := Option.some.inj turned
    · exact ⟨rfl, forked _⟩
    · exact ⟨rfl, fun _ => .inl rfl⟩
  | mappers i =>
    simp only [here] at turned
    split at turned <;> obtain rfl := Option.some.inj turned <;> exact ⟨rfl, fun _ => .inl rfl⟩
  | forkMapper i =>
    simp only [here] at turned
    obtain rfl := Option.some.inj turned
    exact ⟨rfl, forked _⟩
  | forkReducer =>
    simp only [here] at turned
    obtain rfl := Option.some.inj turned
    exact ⟨rfl, forked _⟩
  | closing i =>
    simp only [here] at turned
    split at turned <;> obtain rfl := Option.some.inj turned
    · split <;> exact ⟨rfl, fun _ => .inl rfl⟩
    · exact ⟨rfl, fun _ => .inl rfl⟩
  | waitReducer =>
    simp only [here] at turned
    split at turned <;> cases turned
    exact ⟨rfl, fun _ => .inl rfl⟩
  | waitSplitter i =>
    simp only [here] at turned
    split at turned
    · split at turned <;> cases turned
      exact ⟨rfl, fun _ => .inl rfl⟩
    · cases turned
      exact ⟨rfl, fun _ => .inl rfl⟩
  | waitMapper i =>
    simp only [here] at turned
    split at turned <;> cases turned
    exact ⟨rfl, fun _ => .inl rfl⟩
  | done =>
    simp only [here] at turned
    cases turned

/-- A turn of `main` moves no bytes. -/
theorem FlowStep.main (turned : mainTurn mapperCount st = some st') :
    FlowStep mapperCount capacity (st, flow) none (st', flow) := by
  obtain ⟨content, stages⟩ := mainTurn_stage turned
  refine .quiet (.main turned) ⟨content, fun child pending left reading still before after => ?_⟩
  -- Who runs a program was not forked by this turn.
  rcases stages child with same | ⟨calls, forked⟩
  · rw [same, before] at after
    cases after
    exact Nat.le_refl _
  · rw [forked] at after
    cases after

/-- Nor does a child before its program runs. -/
theorem FlowStep.setup {calls : List DescriptorCall} (here : st.stage child = .setup calls)
    {fds : Descriptors End}
    (step : Step mapperCount capacity st (some child) (st.goto child fds stage)) :
    FlowStep mapperCount capacity (st, flow) (some child) (st.goto child fds stage, flow) := by
  refine .quiet step (calm_goto fun _ _ _ _ before => ?_)
  rw [here] at before
  cases before

/-- Every step of the processes writes and reads some bytes, or none. -/
theorem FlowStep.of_step (step : Step mapperCount capacity st actor st') (flow : Flow) :
    ∃ flow', FlowStep mapperCount capacity (st, flow) actor (st', flow') := by
  cases step with
  | write here file reader amount positive left room =>
    -- Some bytes of this number are written.
    obtain ⟨data, rfl⟩ : ∃ data : List UInt8, data.length = amount :=
      ⟨_, @List.length_replicate _ amount 0⟩
    exact ⟨_, .write here file reader data positive left room⟩
  | print here file amount positive left =>
    obtain ⟨data, rfl⟩ : ∃ data : List UInt8, data.length = amount :=
      ⟨_, @List.length_replicate _ amount 0⟩
    exact ⟨_, .print here file data positive left⟩
  | read here file amount positive there pending =>
    exact ⟨_, .read here file amount positive there pending⟩
  | main turned => exact ⟨flow, .main turned⟩
  | call here ran => exact ⟨flow, .setup here (.call here ran)⟩
  | fails here failed => exact ⟨flow, .setup here (.fails here failed)⟩
  | exec here pending => exact ⟨flow, .setup here (.exec here pending)⟩
  | killed here positive file abandoned =>
    exact ⟨flow, .quiet (.killed here positive file abandoned)
      (calm_goto fun _ _ _ _ _ after => by cases after)⟩
  | eof here file empty abandoned pending =>
    -- Who has seen the end had nothing left to write before.
    refine ⟨flow, .quiet (.eof here file empty abandoned pending)
      (calm_goto fun _ _ _ _ before _ => ?_)⟩
    rw [here] at before
    cases before
    exact Nat.zero_le _
  | exit here =>
    exact ⟨flow, .quiet (.exit here) (calm_goto fun _ _ _ _ _ after => by cases after)⟩

end Steps

section Drained

variable {mapperCount capacity : Nat} {st st' : State} {child : Child} {pipe : Nat}
  {actor : Option Child} {fds : Descriptors End} {stage : Stage}

/-- A child that reads no more. -/
def Over : Stage → Prop
  | .running _ reading => reading = false
  | .exited => True
  | _ => False

/-- Where a child reads no more, the pipe that it read from is empty. -/
def Drained (mapperCount : Nat) (st : State) : Prop :=
  ∀ child pipe, child.input mapperCount = some pipe → Over (st.stage child) → st.content pipe = 0

/-- Who reads no more has seen the end of its input. -/
theorem Sound.ended_of_over (sound : Sound mapperCount st) (ceased : Over (st.stage child)) :
    Ended mapperCount st child := by
  have fits := sound.fits child
  -- A child that reads no more runs its program, or has left it.
  cases here : st.stage child with
  | absent => exact (here ▸ ceased : Over .absent).elim
  | setup calls => exact (here ▸ ceased : Over (.setup calls)).elim
  | running pending reading =>
    rw [here] at fits ceased
    exact fits.2.1 ceased
  | exited =>
    rw [here] at fits
    exact fits.2

/-- A child that goes on as before, or has read all, leaves the pipes drained. -/
theorem Drained.goto (drained : Drained mapperCount st)
    (kept : ∀ pipe, child.input mapperCount = some pipe → Over stage → st.content pipe = 0) :
    Drained mapperCount (st.goto child fds stage) := by
  intro other pipe input ceased
  by_cases same : other = child
  · subst same
    rw [State.goto_stage] at ceased
    exact kept pipe input ceased
  · rw [State.goto_stage_of_ne same] at ceased
    exact drained other pipe input ceased

/-- Nor does a child that moves bytes, unless they come to a pipe that is not read any more. -/
theorem Drained.move {count : Nat} (drained : Drained mapperCount st)
    (kept : Over stage → Over (st.stage child))
    (emptied : ∀ other, other.input mapperCount = some pipe → Over (st.stage other) → count = 0) :
    Drained mapperCount (st.move child stage pipe count) := by
  intro other place input ceased
  -- The move changes where its own child is, which did not begin to read by that.
  have before : Over (st.stage other) := by
    by_cases same : other = child
    · subst same
      rw [State.move, State.goto_stage] at ceased
      exact kept ceased
    · rwa [State.move, State.goto_stage_of_ne same] at ceased
  -- The count of one pipe changes, and the others hold what they held.
  by_cases same : place = pipe
  · subst same
    exact (Function.update_self _ _ _).trans (emptied other input before)
  · exact (Function.update_of_ne same _ _).trans (drained other place input before)

/-- Every step leaves the pipes drained that are not read any more. -/
theorem Drained.step (drained : Drained mapperCount st) (sound : Sound mapperCount st)
    (stepped : Step mapperCount capacity st actor st') : Drained mapperCount st' := by
  cases stepped with
  | main turned =>
    obtain ⟨content, stages⟩ := mainTurn_stage turned
    intro child pipe input ceased
    rw [content]
    rcases stages child with same | ⟨calls, forked⟩
    · rw [same] at ceased
      exact drained child pipe input ceased
    · rw [forked] at ceased
      exact ceased.elim
  | call here ran => exact drained.goto fun _ _ ceased => ceased.elim
  | @fails child call calls here failed =>
    -- In a state that is sound, the calls before the program do not fail.
    have fits := sound.fits child
    rw [here] at fits
    obtain ⟨final, all, _⟩ := fits
    rw [DescriptorCall.runAll, failed] at all
    cases all
  | @exec child here pending =>
    -- A child with an input reads it.
    refine drained.goto fun pipe input ceased => ?_
    cases child with
    | splitter i => cases input
    | mapper i => cases ceased
    | reducer => cases ceased
  | @write child pending pipe reading here file reader amount positive left room =>
    refine drained.move (fun ceased => ?_) fun other input ceased => ?_
    · rw [here]
      exact ceased
    · -- Who has read all of a pipe has seen that nobody can write to it.
      exact absurd (.inr ⟨child, 1, file⟩) (sound.ended_of_over ceased pipe input)
  | killed here positive file abandoned => exact absurd (sound.not_abandoned here file) abandoned
  | @print child pending reading here file amount positive left =>
    refine drained.goto fun pipe input ceased => ?_
    exact drained child pipe input (by rw [here]; exact ceased)
  | @read child pipe here file amount positive there pending =>
    refine drained.move (fun ceased => ?_) fun other input ceased => ?_
    · cases ceased
    -- From a pipe that is drained, nothing could be read.
    · rw [drained other pipe input ceased, Nat.zero_sub]
  | @eof child pipe here file empty abandoned pending =>
    -- The pipe whose end is read is the one of the child.
    refine drained.goto fun other input ceased => ?_
    have fits := sound.fits child
    rw [here] at fits
    have same := fits.1.input input
    rw [file] at same
    cases same
    exact empty
  | @exit child here =>
    refine drained.goto fun pipe input _ => ?_
    exact drained child pipe input (by rw [here]; rfl)

end Drained

/-- The pipe that the program of a child writes to. -/
def Child.output (mapperCount : Nat) : Child → Option Nat
  | .splitter i => if i < mapperCount then some i else none
  | .mapper _ => some mapperCount
  | .reducer => none

section Outputs

variable {mapperCount i pipe : Nat} {child : Child}

end Outputs

section Carries

variable {mapperCount capacity : Nat} {st : State} {flow : Flow} {child writer : Child} {pipe : Nat}

/--
What the pipes hold and the programs have read: for each reader, what it has read and what its pipe
holds together are what the writers of this pipe have written, each in its order.
-/
structure Carries (mapperCount : Nat) (st : State) (flow : Flow) : Prop where
  sound : Sound mapperCount st
  drained : Drained mapperCount st
  counted : ∀ pipe, (flow.bytes pipe).length = st.content pipe
  conveyed : ∀ pipe writer,
    writtenBy writer (flow.took (reader mapperCount pipe) ++ flow.bytes pipe) =
      if writer.output mapperCount = some pipe then flow.wrote writer else []
  printed : flow.printed = flow.wrote .reducer

/-- A program writes to the pipe that is meant for it. -/
theorem Sound.output_eq (sound : Sound mapperCount st) {pending : Nat} {reading : Bool}
    (here : st.stage child = .running pending reading)
    (file : st.fds child 1 = some (.writeEnd pipe)) : child.output mapperCount = some pipe := by
  have fits := sound.fits child
  have forked := (sound.forked child).mp (present_of here Stage.noConfusion)
  rw [here] at fits
  -- What its descriptor 1 is follows from the calls before its program.
  cases child with
  | splitter i =>
    rw [show st.fds (.splitter i) 1 = _ from fits.1] at file
    cases file
    exact if_pos ((Forked.lt sound.bounded).1 forked)
  | mapper i =>
    rw [fits.1.2] at file
    cases file
    rfl
  | reducer =>
    rw [fits.1.2.1] at file
    cases file

/-- A program reads from the pipe that is meant for it. -/
theorem Sound.reader_eq (sound : Sound mapperCount st) {pending : Nat}
    (here : st.stage child = .running pending true)
    (file : st.fds child 0 = some (.readEnd pipe)) : reader mapperCount pipe = child := by
  have fits := sound.fits child
  have forked := (sound.forked child).mp (present_of here Stage.noConfusion)
  rw [here] at fits
  -- In the same way for descriptor 0; a splitter has no input.
  cases child with
  | splitter i => cases fits.2.2 rfl
  | mapper i =>
    rw [fits.1.1] at file
    cases file
    exact if_neg (Nat.ne_of_lt ((Forked.lt sound.bounded).2 forked))
  | reducer =>
    rw [fits.1.1] at file
    cases file
    exact if_pos rfl

/-- Two pipes have two readers. -/
theorem reader_injective {other : Nat} (same : reader mapperCount other = reader mapperCount pipe) :
    other = pipe := by
  have input : (reader mapperCount other).input mapperCount = some other := reader_input
  rw [same, reader_input] at input
  exact (Option.some.inj input).symm

/-- Only the reducer writes to the output file. -/
theorem Sound.eq_reducer (sound : Sound mapperCount st) {pending : Nat} {reading : Bool}
    (here : st.stage child = .running pending reading) (file : st.fds child 1 = some .output) :
    child = .reducer := by
  have fits := sound.fits child
  rw [here] at fits
  cases child with
  | splitter i =>
    rw [show st.fds (.splitter i) 1 = _ from fits.1] at file
    cases file
  | mapper i =>
    rw [fits.1.2] at file
    cases file
  | reducer => rfl

/-- Bytes that are written to a pipe are the newest of their writer in it. -/
theorem Carries.write (carries : Carries mapperCount st flow) {pending : Nat} {reading : Bool}
    (here : st.stage child = .running pending reading)
    (file : st.fds child 1 = some (.writeEnd pipe)) (data : List UInt8) {st' : State}
    (sound : Sound mapperCount st') (drained : Drained mapperCount st')
    (content : st'.content = Function.update st.content pipe (st.content pipe + data.length)) :
    Carries mapperCount st' (flow.write child pipe data) := by
  have target := carries.sound.output_eq here file
  refine ⟨sound, drained, fun other => ?_, fun other writer => ?_, ?_⟩
  · rw [content]
    by_cases same : other = pipe
    · subst same
      simp [Flow.write, carries.counted]
    · simp [Flow.write, carries.counted, same]
  · have before := carries.conveyed other writer
    by_cases same : other = pipe
    · subst same
      simp only [Flow.write, Function.update_self]
      rw [← List.append_assoc, writtenBy_append, before, writtenBy_labelled]
      -- Of this pipe, only what the child has written gets longer.
      by_cases mine : child = writer
      · subst mine
        rw [if_pos target, if_pos rfl, if_pos target, Function.update_self]
      · rw [if_neg mine, List.append_nil, Function.update_of_ne (Ne.symm mine)]
    · -- To another pipe the child has written nothing.
      simp only [Flow.write, Function.update_of_ne same]
      rw [before]
      by_cases mine : writer = child
      · subst mine
        have apart : ¬ writer.output mapperCount = some other := by
          rw [target]
          exact fun equal => same (Option.some.inj equal).symm
        rw [if_neg apart, if_neg apart]
      · rw [Function.update_of_ne mine]
  · -- The reducer has no pipe to write to.
    have apart : Child.reducer ≠ child := by
      rintro rfl
      cases target
    exact carries.printed.trans (Function.update_of_ne apart _ _).symm

/-- What the reducer writes is in the output file. -/
theorem Carries.print (carries : Carries mapperCount st flow) (data : List UInt8) {st' : State}
    (sound : Sound mapperCount st') (drained : Drained mapperCount st')
    (content : st'.content = st.content) :
    Carries mapperCount st' (flow.print .reducer data) := by
  refine ⟨sound, drained, fun pipe => ?_, fun pipe writer => ?_, ?_⟩
  · rw [content]
    exact carries.counted pipe
  · refine (carries.conveyed pipe writer).trans ?_
    -- The reducer writes to no pipe, so what it has written is not looked up.
    by_cases same : writer = .reducer
    · subst same
      rfl
    · simp only [Flow.print, Function.update_of_ne same]
  · simp only [Flow.print, Function.update_self, carries.printed]

/-- Bytes that are read are the oldest of the pipe, and now the newest that the reader has. -/
theorem Carries.read (carries : Carries mapperCount st flow) {pending : Nat}
    (here : st.stage child = .running pending true)
    (file : st.fds child 0 = some (.readEnd pipe)) (amount : Nat) {st' : State}
    (sound : Sound mapperCount st') (drained : Drained mapperCount st')
    (content : st'.content = Function.update st.content pipe (st.content pipe - amount)) :
    Carries mapperCount st' (flow.read child pipe amount) := by
  have mine := carries.sound.reader_eq here file
  subst mine
  refine ⟨sound, drained, fun other => ?_, fun other writer => ?_, carries.printed⟩
  · rw [content]
    by_cases same : other = pipe
    · subst same
      simp [Flow.read, carries.counted]
    · simp [Flow.read, carries.counted, same]
  · refine Eq.trans ?_ (carries.conveyed other writer)
    by_cases same : other = pipe
    · subst same
      simp only [Flow.read, Function.update_self]
      -- What is taken from the front of the pipe goes to the end of what was read.
      rw [List.append_assoc, List.take_append_drop]
    · -- The reader of another pipe is another child.
      have apart : reader mapperCount other ≠ reader mapperCount pipe := fun equal =>
        same (reader_injective equal)
      simp only [Flow.read, Function.update_of_ne same, Function.update_of_ne apart]

/-- Every step keeps what is known of the bytes. -/
theorem Carries.step {before after : State × Flow} {actor : Option Child}
    (carries : Carries mapperCount before.1 before.2)
    (flows : FlowStep mapperCount capacity before actor after) :
    Carries mapperCount after.1 after.2 := by
  have sound := carries.sound.step flows.step
  have drained := carries.drained.step carries.sound flows.step
  cases flows with
  | write here file reader data positive left room =>
    exact carries.write here file data sound drained rfl
  | print here file data positive left =>
    obtain rfl := carries.sound.eq_reducer here file
    exact carries.print data sound drained rfl
  | read here file amount positive there pending =>
    exact carries.read here file amount sound drained rfl
  | quiet step calm =>
    exact ⟨sound, drained, fun pipe => by rw [calm.1]; exact carries.counted pipe,
      carries.conveyed, carries.printed⟩

/-- When all have finished, every reader has read its pipe to the end. -/
theorem Carries.empty (carries : Carries mapperCount st flow) (finished : Finished st)
    (inside : pipe ≤ mapperCount) : flow.bytes pipe = [] := by
  obtain ⟨here, all⟩ := finished
  -- All children are forked when `main` has waited for them.
  have forked : Forked mapperCount st.pc (reader mapperCount pipe) := by
    rw [here]
    exact forked_reader inside (fun _ => id) trivial
  have gone := (all _).resolve_left ((carries.sound.forked _).mpr forked)
  have content := carries.drained _ pipe reader_input (by rw [gone]; trivial)
  exact List.eq_nil_of_length_eq_zero ((carries.counted pipe).trans content)

end Carries

end SystemProgramming.MapReduce
