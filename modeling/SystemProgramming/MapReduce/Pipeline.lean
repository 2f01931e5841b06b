import SystemProgramming.MapReduce.Invariant

/-! No process of the pipeline waits for the end of a pipe that it keeps open itself. -/

namespace SystemProgramming.MapReduce

open Foundations

section Progress

variable {mapperCount capacity : Nat} {st : State} {child : Child} {pipe : Nat}

/-- A process has the write end of a pipe open. -/
def Keeps (st : State) : Option Child → Nat → Prop
  | none, pipe => st.mainFds.Holds (.writeEnd pipe)
  | some child, pipe => (st.fds child).Holds (.writeEnd pipe)

/-- A child waits for the end of an empty pipe. -/
def AwaitsEof (st : State) (child : Child) (pipe : Nat) : Prop :=
  st.stage child = .running 0 true ∧ st.fds child 0 = some (.readEnd pipe) ∧ st.content pipe = 0

/-- A process waits for the end of a pipe that another one keeps open. -/
def WaitsFor (st : State) (process other : Option Child) : Prop :=
  ∃ child pipe, process = some child ∧ AwaitsEof st child pipe ∧ Keeps st other pipe

/-- The order of the processes: none waits for a later one. -/
def rank (mapperCount : Nat) : Option Child → Nat
  | none => 0
  | some (.splitter _) => 0
  | some (.mapper i) => i + 1
  | some .reducer => mapperCount + 1

/-- `main` waits, or it has ended. -/
def Waiting : Pc → Prop
  | .waitReducer | .waitSplitter _ | .waitMapper _ | .done => True
  | _ => False

theorem Waiting.cases {pc : Pc} (waiting : Waiting pc) :
    pc = .waitReducer ∨ (∃ i, pc = .waitSplitter i) ∨ (∃ i, pc = .waitMapper i) ∨ pc = .done := by
  cases pc with
  | waitReducer => exact .inl rfl
  | waitSplitter i => exact .inr (.inl ⟨i, rfl⟩)
  | waitMapper i => exact .inr (.inr (.inl ⟨i, rfl⟩))
  | done => exact .inr (.inr (.inr rfl))
  | splitters i => exact waiting.elim
  | mappers i => exact waiting.elim
  | forkMapper i => exact waiting.elim
  | forkReducer => exact waiting.elim
  | closing i => exact waiting.elim

/-- Before it waits, `main` goes on. -/
theorem waiting_of_none (stuck : mainTurn mapperCount st = none) : Waiting st.pc := by
  rw [mainTurn] at stuck
  cases here : st.pc with
  | splitters i =>
    simp only [here] at stuck
    split at stuck <;> cases stuck
  | mappers i =>
    simp only [here] at stuck
    split at stuck <;> cases stuck
  | forkMapper i =>
    simp only [here] at stuck
    cases stuck
  | forkReducer =>
    simp only [here] at stuck
    cases stuck
  | closing i =>
    simp only [here] at stuck
    split at stuck <;> cases stuck
  | waitReducer => trivial
  | waitSplitter i => trivial
  | waitMapper i => trivial
  | done => trivial

/-- When `main` waits, it keeps nothing open, and everybody is forked. -/
theorem Sound.of_waiting (sound : Sound mapperCount st) (mappers : 1 ≤ mapperCount)
    (waiting : Waiting st.pc) :
    (∀ pipe, ¬ st.mainFds.Holds (.writeEnd pipe)) ∧
      (∀ k, k < mapperCount → st.stage (.splitter k) ≠ .absent ∧ st.stage (.mapper k) ≠ .absent) ∧
      st.stage .reducer ≠ .absent := by
  simp only [sound.forked, sound.table]
  rcases waiting.cases with here | ⟨i, here⟩ | ⟨i, here⟩ | here <;> rw [here]
  · exact ⟨closedAll_last mappers, fun k below => ⟨below, below⟩, trivial⟩
  · exact ⟨closedAll_last mappers, fun k below => ⟨below, below⟩, trivial⟩
  · exact ⟨closedAll_last mappers, fun k below => ⟨below, below⟩, trivial⟩
  · exact ⟨closedAll_last mappers, fun k below => ⟨below, below⟩, trivial⟩

/-- No process can go on. -/
def Idle (mapperCount capacity : Nat) (st : State) : Prop :=
  ∀ actor st', ¬ Step mapperCount capacity st actor st'

/-- A child that has not yet called `exec` can go on. -/
theorem Idle.not_setup (idle : Idle mapperCount capacity st) (calls : List DescriptorCall) :
    st.stage child ≠ .setup calls := by
  intro here
  cases calls with
  | nil => exact idle _ _ (.exec here 0)
  | cons call calls =>
    cases ran : call.run (st.fds child) with
    | none => exact idle _ _ (.fails here ran)
    | some fds => exact idle _ _ (.call here ran)

/-- A program that has nothing left to do can exit. -/
theorem Idle.not_done (idle : Idle mapperCount capacity st) :
    st.stage child ≠ .running 0 false := fun here => idle _ _ (.exit here)

/-- A program that cannot write finds that its pipe is not empty. -/
theorem Idle.output (idle : Idle mapperCount capacity st) (room : 1 ≤ capacity)
    (sound : Sound mapperCount st) {pending : Nat} {reading : Bool}
    (here : st.stage child = .running (pending + 1) reading)
    (file : st.fds child 1 = some (.writeEnd pipe)) : st.content pipe ≠ 0 := by
  intro empty
  have fits : st.content pipe + 1 ≤ capacity := by omega
  exact idle _ _ (.write here file (sound.not_abandoned here file) 1 (Nat.le_refl _) (by omega) fits)

/-- A program that cannot read finds that its pipe is empty, and that someone can write to it. -/
theorem Idle.input (idle : Idle mapperCount capacity st) (here : st.stage child = .running 0 true)
    (file : st.fds child 0 = some (.readEnd pipe)) :
    st.content pipe = 0 ∧ st.Holds (.writeEnd pipe) := by
  have empty : st.content pipe = 0 := by
    apply Classical.byContradiction
    intro more
    exact idle _ _ (.read here file 1 (Nat.le_refl _) (Nat.pos_of_ne_zero more) 0)
  refine ⟨empty, Classical.byContradiction fun abandoned => ?_⟩
  exact idle _ _ (.eof here file empty abandoned 0)

/-- A child that was forked and has ended has nothing open, and its input has ended. -/
theorem Sound.ended (sound : Sound mapperCount st) (gone : st.stage child = .exited) :
    (∀ file, ¬ (st.fds child).Holds file) ∧ Ended mapperCount st child := by
  have fits := sound.fits child
  rw [gone] at fits
  refine ⟨fun file holds => ?_, fits.2⟩
  rw [fits.1] at holds
  exact Descriptors.not_holds_none file holds

/-- Nor has a child anything open that is not forked. -/
theorem Sound.not_holds (sound : Sound mapperCount st)
    (apart : st.stage child = .absent ∨ st.stage child = .exited) (file : End) :
    ¬ (st.fds child).Holds file := by
  rcases apart with absent | gone
  · have fits := sound.fits child
    rw [absent] at fits
    intro holds
    rw [show st.fds child = .none from fits] at holds
    exact Descriptors.not_holds_none file holds
  · exact (sound.ended gone).1 file

/-- The reducer can go on, or it waits at an empty pipe, or it has ended. -/
theorem Idle.reducer (idle : Idle mapperCount capacity st) (sound : Sound mapperCount st)
    (present : st.stage .reducer ≠ .absent) :
    st.stage .reducer = .exited ∨
      st.stage .reducer = .running 0 true ∧ st.content mapperCount = 0 ∧
        st.Holds (.writeEnd mapperCount) := by
  have fits := sound.fits .reducer
  cases here : st.stage .reducer with
  | absent => exact absurd here present
  | setup calls => exact absurd here (idle.not_setup calls)
  | exited => exact .inl rfl
  | running pending reading =>
    rw [here] at fits
    cases pending with
    | zero =>
      cases reading with
      | false => exact absurd here idle.not_done
      | true => exact .inr ⟨rfl, idle.input here fits.1.1⟩
    | succ pending =>
      -- What the reducer writes is taken.
      exact absurd (Step.print here fits.1.2.1 1 (Nat.le_refl _) (by omega)) (idle _ _)

/-- A mapper that is not stuck at the end of its pipe has ended. -/
theorem Idle.mapper (idle : Idle mapperCount capacity st) (room : 1 ≤ capacity)
    (sound : Sound mapperCount st) (last : st.stage .reducer ≠ .absent) {i : Nat}
    (present : st.stage (.mapper i) ≠ .absent) :
    st.stage (.mapper i) = .exited ∨
      st.stage (.mapper i) = .running 0 true ∧ st.content i = 0 ∧ st.Holds (.writeEnd i) := by
  have fits := sound.fits (.mapper i)
  cases here : st.stage (.mapper i) with
  | absent => exact absurd here present
  | setup calls => exact absurd here (idle.not_setup calls)
  | exited => exact .inl rfl
  | running pending reading =>
    rw [here] at fits
    cases pending with
    | zero =>
      cases reading with
      | false => exact absurd here idle.not_done
      | true => exact .inr ⟨rfl, idle.input here fits.1.1⟩
    | succ pending =>
      -- If it cannot write, then the reducer has something to read, or ended before its writers.
      have full := idle.output room sound here fits.1.2
      rcases idle.reducer sound last with gone | ⟨_, empty, _⟩
      · exact absurd (.inr ⟨.mapper i, 1, fits.1.2⟩) ((sound.ended gone).2 _ rfl)
      · exact absurd empty full

/-- No splitter is left. -/
theorem Idle.splitter (idle : Idle mapperCount capacity st) (room : 1 ≤ capacity)
    (sound : Sound mapperCount st) (last : st.stage .reducer ≠ .absent) {i : Nat}
    (present : st.stage (.splitter i) ≠ .absent) (pair : st.stage (.mapper i) ≠ .absent) :
    st.stage (.splitter i) = .exited := by
  have fits := sound.fits (.splitter i)
  cases here : st.stage (.splitter i) with
  | absent => exact absurd here present
  | setup calls => exact absurd here (idle.not_setup calls)
  | exited => rfl
  | running pending reading =>
    rw [here] at fits
    obtain ⟨ready, _, reads⟩ := fits
    cases pending with
    | zero =>
      cases reading with
      | false => exact absurd here idle.not_done
      | true => cases reads rfl
    | succ pending =>
      -- Its mapper would read, or it has ended while the splitter had its pipe open.
      have full := idle.output room sound here ready
      rcases idle.mapper room sound last pair with gone | ⟨_, empty, _⟩
      · exact absurd (.inr ⟨.splitter i, 1, ready⟩) ((sound.ended gone).2 _ rfl)
      · exact absurd empty full

/--
Where nobody can go on and `main` waits, all children have ended: first the splitters, then the
mappers in their order.
-/
theorem Idle.all_ended (idle : Idle mapperCount capacity st) (mappers : 1 ≤ mapperCount)
    (room : 1 ≤ capacity) (sound : Sound mapperCount st) (waiting : Waiting st.pc) :
    (∀ k, k < mapperCount → st.stage (.splitter k) = .exited ∧ st.stage (.mapper k) = .exited) ∧
      st.stage .reducer = .exited := by
  obtain ⟨closed, present, last⟩ := sound.of_waiting mappers waiting
  have splitters (k : Nat) : st.stage (.splitter k) = .absent ∨ st.stage (.splitter k) = .exited := by
    by_cases absent : st.stage (.splitter k) = .absent
    · exact .inl absent
    · have below := (Forked.lt sound.bounded).1 ((sound.forked _).mp absent)
      exact .inr (idle.splitter room sound last absent (present k below).2)
  have mapper (k : Nat) : st.stage (.mapper k) = .absent ∨ st.stage (.mapper k) = .exited := by
    induction k using Nat.strongRecOn with
    | _ k earlier =>
      by_cases absent : st.stage (.mapper k) = .absent
      · exact .inl absent
      right
      rcases idle.mapper room sound last absent with gone | ⟨here, _, inMain | ⟨other, keeps⟩⟩
      · exact gone
      · exact absurd inMain (closed k)
      · -- Only an earlier mapper could keep its pipe open, and that has ended.
        have may := sound.mayWrite other k keeps
        cases other with
        | splitter i => exact absurd keeps (sound.not_holds (splitters i) _)
        | mapper i => exact absurd keeps (sound.not_holds (earlier i may) _)
        | reducer =>
          have below := (Forked.lt sound.bounded).2 ((sound.forked _).mp absent)
          exact absurd may (Nat.ne_of_lt below)
  refine ⟨fun k below => ⟨?_, ?_⟩, ?_⟩
  · exact (splitters k).resolve_left (present k below).1
  · exact (mapper k).resolve_left (present k below).2
  · rcases idle.reducer sound last with gone | ⟨here, _, inMain | ⟨other, keeps⟩⟩
    · exact gone
    · exact absurd inMain (closed mapperCount)
    · cases other with
      | splitter i => exact absurd keeps (sound.not_holds (splitters i) _)
      | mapper i => exact absurd keeps (sound.not_holds (mapper i) _)
      | reducer =>
        have fits := sound.fits .reducer
        rw [here] at fits
        exact absurd keeps (fits.1.2.2 _)

/-- `main` has ended, and so has every child that there is. -/
def Finished (st : State) : Prop :=
  st.pc = .done ∧ ∀ child, st.stage child = .absent ∨ st.stage child = .exited

/-- If nobody can go on, everybody has finished. -/
theorem Idle.finished (idle : Idle mapperCount capacity st) (mappers : 1 ≤ mapperCount)
    (room : 1 ≤ capacity) (sound : Sound mapperCount st) : Finished st := by
  have stuck : mainTurn mapperCount st = none := by
    cases turned : mainTurn mapperCount st with
    | none => rfl
    | some st' => exact absurd (.main turned) (idle none st')
  obtain ⟨pairs, reducer⟩ := idle.all_ended mappers room sound (waiting_of_none stuck)
  have bounded := sound.bounded
  refine ⟨?_, fun child => ?_⟩
  · -- The child that `main` could wait for has ended.
    have waiting := waiting_of_none stuck
    rw [mainTurn] at stuck
    rcases waiting.cases with here | ⟨i, here⟩ | ⟨i, here⟩ | here
    · simp only [here, if_pos reducer] at stuck
      cases stuck
    · simp only [here] at stuck
      split at stuck
      · rename_i below
        rw [if_pos (pairs i below).1] at stuck
        cases stuck
      · cases stuck
    · rw [here] at bounded
      simp only [here, if_pos (pairs i bounded).2] at stuck
      cases stuck
    · exact here
  · by_cases absent : st.stage child = .absent
    · exact .inl absent
    · have forked := (sound.forked child).mp absent
      right
      cases child with
      | splitter k => exact (pairs k ((Forked.lt bounded).1 forked)).1
      | mapper k => exact (pairs k ((Forked.lt bounded).2 forked)).2
      | reducer => exact reducer

end Progress

end SystemProgramming.MapReduce
