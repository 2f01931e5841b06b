import SystemProgramming.MapReduce.MapReduce

/-! The descriptors that `main` has while it forks the children, and what they make of them. -/

namespace SystemProgramming.MapReduce

open Foundations

/-- The descriptors of `main`, when it has closed the write ends of the first mappers. -/
def closedWrites (mapperCount : Nat) : Nat → Descriptors End
  | 0 => opened mapperCount
  | i + 1 => Function.update (closedWrites mapperCount i) (mapPipes (2 * i + 1)) none

/-- The descriptors of `main` after so many turns of its last loop over the pipes. -/
def closedAll (mapperCount : Nat) : Nat → Descriptors End
  | 0 => closedWrites mapperCount mapperCount
  | i + 1 =>
    let closed := Function.update (closedAll mapperCount i) (mapPipes i) none
    if i < 2 then Function.update closed (reducerPipes mapperCount i) none else closed

/-- The descriptors of `main`, where it is. -/
def mainTable (mapperCount : Nat) : Pc → Descriptors End
  | .splitters _ => opened mapperCount
  | .mappers i => closedWrites mapperCount i
  | .forkMapper i => closedWrites mapperCount (i + 1)
  | .forkReducer => closedWrites mapperCount mapperCount
  | .closing i => closedAll mapperCount i
  | .waitReducer | .waitSplitter _ | .waitMapper _ | .done =>
    closedAll mapperCount (mapperCount * 2)

/-- How far the loops of `main` go. -/
def Bounded (mapperCount : Nat) : Pc → Prop
  | .splitters i | .mappers i | .waitSplitter i => i ≤ mapperCount
  | .forkMapper i | .waitMapper i => i < mapperCount
  | .closing i => i ≤ mapperCount * 2
  | .forkReducer | .waitReducer | .done => True

/-- The children that are forked, where `main` is. -/
def Forked (mapperCount : Nat) : Pc → Child → Prop
  | .splitters i, .splitter k => k < i
  | _, .splitter k => k < mapperCount
  | .splitters _, .mapper _ => False
  | .mappers i, .mapper k | .forkMapper i, .mapper k => k < i
  | _, .mapper k => k < mapperCount
  | .splitters _, .reducer | .mappers _, .reducer | .forkMapper _, .reducer
  | .forkReducer, .reducer => False
  | _, .reducer => True

/-- The pipe that a child reads from. -/
def Child.input (mapperCount : Nat) : Child → Option Nat
  | .splitter _ => none
  | .mapper i => some i
  | .reducer => some mapperCount

/-- A child never has the write end of another pipe open than of these. -/
def MayWrite (mapperCount : Nat) : Child → Nat → Prop
  | .splitter _, _ => True
  | .mapper i, pipe => i < pipe
  | .reducer, pipe => pipe = mapperCount

/-- What a child finds open when its program starts. -/
def Ready (mapperCount : Nat) : Child → Descriptors End → Prop
  | .splitter i, table => table 1 = some (.writeEnd i)
  | .mapper i, table => table 0 = some (.readEnd i) ∧ table 1 = some (.writeEnd mapperCount)
  | .reducer, table =>
    table 0 = some (.readEnd mapperCount) ∧ table 1 = some .output ∧
      ∀ pipe, ¬ table.Holds (.writeEnd pipe)

section Tables

variable {mapperCount i fd : Nat} {pipe : Nat}

/-- Which write ends are closed, by their numbers. -/
theorem closedWrites_apply : closedWrites mapperCount i fd =
    if 4 ≤ fd ∧ fd < 3 + 2 * i ∧ fd % 2 = 0 then none else opened mapperCount fd := by
  induction i with
  | zero => rw [closedWrites, if_neg (by omega)]
  | succ i ih =>
    rw [closedWrites, Function.update_apply, ih, mapPipes]
    by_cases last : fd = 3 + (2 * i + 1)
    · rw [if_pos last, if_pos (by omega)]
    · rw [if_neg last]
      congr 1
      apply propext
      omega

/-- What the last loop has closed, by the numbers. -/
theorem closedAll_apply : closedAll mapperCount i fd =
    if (3 ≤ fd ∧ fd < 3 + i) ∨ (3 + 2 * mapperCount ≤ fd ∧ fd < 3 + 2 * mapperCount + min i 2) then
      none
    else closedWrites mapperCount mapperCount fd := by
  induction i with
  | zero => rw [closedAll, if_neg (by omega)]
  | succ i ih =>
    -- The turn closes one descriptor of a map pipe, and maybe one of the reducer's.
    have first : Function.update (closedAll mapperCount i) (3 + i) none fd =
        if (3 ≤ fd ∧ fd < 3 + (i + 1)) ∨
            (3 + 2 * mapperCount ≤ fd ∧ fd < 3 + 2 * mapperCount + min i 2) then none
        else closedWrites mapperCount mapperCount fd := by
      rw [Function.update_apply, ih]
      by_cases here : fd = 3 + i
      · rw [if_pos here, if_pos (by omega)]
      · rw [if_neg here]
        congr 1
        apply propext
        omega
    simp only [closedAll, mapPipes, reducerPipes]
    split
    · rename_i early
      rw [Function.update_apply, first]
      by_cases here : fd = 3 + 2 * mapperCount + i
      · rw [if_pos here]
        exact (if_pos (by omega)).symm
      · rw [if_neg here]
        congr 1
        apply propext
        omega
    · rename_i late
      rw [first]
      congr 1
      apply propext
      omega

/-- Where the read ends and the write ends are. -/
theorem opened_read (inside : pipe ≤ mapperCount) :
    opened mapperCount (3 + 2 * pipe) = some (.readEnd pipe) := by
  have half : (3 + 2 * pipe - 3) / 2 = pipe := by omega
  rw [opened, if_neg (by omega), if_pos (by omega), if_pos (by omega), half]

theorem opened_write (inside : pipe ≤ mapperCount) :
    opened mapperCount (4 + 2 * pipe) = some (.writeEnd pipe) := by
  have half : (4 + 2 * pipe - 3) / 2 = pipe := by omega
  rw [opened, if_neg (by omega), if_pos (by omega), if_neg (by omega), half]

theorem opened_output : opened mapperCount (5 + 2 * mapperCount) = some .output := by
  rw [opened, outputFp, if_neg (by omega), if_neg (by omega), if_pos rfl]

/-- A write end is nowhere else. -/
theorem of_opened_write (open_ : opened mapperCount fd = some (.writeEnd pipe)) :
    fd = 4 + 2 * pipe ∧ pipe ≤ mapperCount := by
  rw [opened] at open_
  split at open_
  · cases open_
  · split at open_
    · split at open_
      · cases open_
      · rename_i odd
        have same : (fd - 3) / 2 = pipe := by simpa using open_
        omega
    · split at open_
      · cases open_
      · cases open_

/-- When the write ends of the first mappers are closed, only later ones are open. -/
theorem of_closedWrites (open_ : closedWrites mapperCount i fd = some (.writeEnd pipe)) :
    fd = 4 + 2 * pipe ∧ i ≤ pipe ∧ pipe ≤ mapperCount := by
  rw [closedWrites_apply] at open_
  split at open_
  · cases open_
  · obtain ⟨rfl, inside⟩ := of_opened_write open_
    omega

/-- At last nothing of a pipe is open. -/
theorem closedAll_last (some : 1 ≤ mapperCount) (pipe : Nat) :
    ¬ (closedAll mapperCount (mapperCount * 2)).Holds (.writeEnd pipe) := by
  rintro ⟨fd, open_⟩
  rw [closedAll_apply] at open_
  split at open_
  · cases open_
  · obtain ⟨rfl, _, _⟩ := of_closedWrites open_
    omega

/-- The reads ends are open in `main` until its last loop. -/
theorem closedWrites_read (inside : pipe ≤ mapperCount) :
    closedWrites mapperCount i (3 + 2 * pipe) = some (.readEnd pipe) := by
  rw [closedWrites_apply, if_neg (by omega), opened_read inside]

theorem closedWrites_write (inside : pipe ≤ mapperCount) (later : i ≤ pipe) :
    closedWrites mapperCount i (4 + 2 * pipe) = some (.writeEnd pipe) := by
  rw [closedWrites_apply, if_neg (by omega), opened_write inside]

/-- A splitter makes the pipe of its mapper its output. -/
theorem ready_splitter (inside : i < mapperCount) :
    ∃ final, DescriptorCall.runAll (childCalls mapperCount (.splitter i)) (opened mapperCount) =
      some final ∧ Ready mapperCount (.splitter i) final := by
  have source : Function.update (opened mapperCount) (mapPipes (2 * i)) none
      (mapPipes (2 * i + 1)) = some (.writeEnd i) := by
    rw [Function.update_of_ne (by rw [mapPipes, mapPipes]; omega),
      show mapPipes (2 * i + 1) = 4 + 2 * i by rw [mapPipes]; omega,
      opened_write (Nat.le_of_lt inside)]
  simp only [childCalls, DescriptorCall.runAll, DescriptorCall.run, Option.bind_some, source,
    Option.map_some]
  exact ⟨_, rfl, Function.update_self _ _ _⟩

/-- A mapper makes its pipe its input, and the pipe of the reducer its output. -/
theorem ready_mapper (inside : i < mapperCount) :
    ∃ final, DescriptorCall.runAll (childCalls mapperCount (.mapper i))
        (closedWrites mapperCount (i + 1)) = some final ∧ Ready mapperCount (.mapper i) final := by
  obtain ⟨table, made⟩ : ∃ table : Descriptors End, Function.update
      (closedWrites mapperCount (i + 1)) (reducerPipes mapperCount 0) none = table := ⟨_, rfl⟩
  have input : table (mapPipes (i * 2)) = some (.readEnd i) := by
    rw [← made, Function.update_of_ne (by rw [mapPipes, reducerPipes]; omega),
      show mapPipes (i * 2) = 3 + 2 * i by rw [mapPipes]; omega,
      closedWrites_read (Nat.le_of_lt inside)]
  have result : Function.update table 0 (some (.readEnd i)) (reducerPipes mapperCount 1) =
      some (.writeEnd mapperCount) := by
    rw [Function.update_of_ne (by rw [reducerPipes]; omega), ← made,
      Function.update_of_ne (by rw [reducerPipes, reducerPipes]; omega),
      show reducerPipes mapperCount 1 = 4 + 2 * mapperCount by rw [reducerPipes]; omega,
      closedWrites_write (Nat.le_refl _) inside]
  simp only [childCalls, DescriptorCall.runAll, DescriptorCall.run, Option.bind_some, made, input,
    result, Option.map_some]
  exact ⟨_, rfl, by rw [Function.update_of_ne (by omega), Function.update_self],
    Function.update_self _ _ _⟩

/-- The reducer makes its pipe its input, and the file its output; and it has no write end then. -/
theorem ready_reducer :
    ∃ final, DescriptorCall.runAll (childCalls mapperCount .reducer)
        (closedWrites mapperCount mapperCount) = some final ∧ Ready mapperCount .reducer final := by
  obtain ⟨table, made⟩ : ∃ table : Descriptors End, Function.update
      (closedWrites mapperCount mapperCount) (reducerPipes mapperCount 1) none = table := ⟨_, rfl⟩
  have input : table (reducerPipes mapperCount 0) = some (.readEnd mapperCount) := by
    rw [← made, Function.update_of_ne (by rw [reducerPipes, reducerPipes]; omega),
      show reducerPipes mapperCount 0 = 3 + 2 * mapperCount from rfl,
      closedWrites_read (Nat.le_refl _)]
  have result : Function.update table 0 (some (.readEnd mapperCount)) (outputFp mapperCount) =
      some .output := by
    rw [Function.update_of_ne (by rw [outputFp]; omega), ← made,
      Function.update_of_ne (by rw [outputFp, reducerPipes]; omega), outputFp, closedWrites_apply,
      if_neg (by omega), opened_output]
  -- The only write end that is left is closed first.
  have none_ (pipe : Nat) : ¬ table.Holds (.writeEnd pipe) := by
    rintro ⟨fd, open_⟩
    rw [← made] at open_
    by_cases same : fd = reducerPipes mapperCount 1
    · rw [same, Function.update_self] at open_
      cases open_
    · rw [Function.update_of_ne same] at open_
      obtain ⟨rfl, _, _⟩ := of_closedWrites open_
      rw [reducerPipes] at same
      omega
  have later := @DescriptorCall.holds_of_runAll _
    [.dup2 (reducerPipes mapperCount 0) 0, .dup2 (outputFp mapperCount) 1] table
  simp only [childCalls, DescriptorCall.runAll, DescriptorCall.run, Option.bind_some, made, input,
    result, Option.map_some] at later ⊢
  exact ⟨_, rfl, by rw [Function.update_of_ne (by omega), Function.update_self],
    Function.update_self _ _ _, fun pipe holds => none_ pipe (later rfl holds)⟩

end Tables

end SystemProgramming.MapReduce
