import Mathlib.Data.List.Basic

/-!
Labelled transition systems: finite runs, their transitions, the rules for invariants, what was
written last, and what was seen first.
-/

namespace Foundations

/-- One step of a run, with the state it leaves and the state it enters. -/
structure Transition (State Action : Type*) where
  before : State
  action : Action
  after : State

variable {State Action : Type*}

/-- The finite runs from a start state, with their transitions in the order they happened. -/
inductive Run (step : State → Action → State → Prop) (origin : State) :
    List (Transition State Action) → State → Prop
  | start : Run step origin [] origin
  | next {trace : List (Transition State Action)} {before after : State} {action : Action} :
      Run step origin trace before → step before action after →
      Run step origin (trace ++ [⟨before, action, after⟩]) after

variable {step : State → Action → State → Prop} {origin final : State}
  {trace : List (Transition State Action)}

namespace Run

/-- What holds at the start and is kept by every step holds at the end of a run. -/
theorem invariant {Holds : State → Prop} (run : Run step origin trace final)
    (initial : Holds origin)
    (preserved : ∀ before action after, Holds before → step before action after → Holds after) :
    Holds final := by
  -- The induction adds one transition at the end, as a run does.
  induction run with
  | start => exact initial
  | next _ stepped ih => exact preserved _ _ _ ih stepped

/-- The same rule for statements that also speak about the steps already taken. -/
theorem history {Holds : List (Transition State Action) → State → Prop}
    (run : Run step origin trace final) (initial : Holds [] origin)
    (preserved : ∀ trace before action after, Holds trace before → step before action after →
      Holds (trace ++ [⟨before, action, after⟩]) after) :
    Holds trace final := by
  -- A step extends the trace at its end, so the statement about the old trace carries over.
  induction run with
  | start => exact initial
  | next _ stepped ih => exact preserved _ _ _ _ ih stepped

/-- A number that grows by one in the steps of a kind counts the steps of this kind. -/
theorem counted {measure : State → Nat} (counts : Transition State Action → Bool)
    (run : Run step origin trace final)
    (grows : ∀ taken, step taken.before taken.action taken.after →
      measure taken.after = measure taken.before + if counts taken then 1 else 0) :
    measure final = measure origin + trace.countP counts := by
  induction run with
  | start => rfl
  | @next trace before after action _ stepped ih =>
    rw [List.countP_append, List.countP_singleton, ← Nat.add_assoc, ← ih]
    exact grows ⟨before, action, after⟩ stepped

/-- A run of some steps is a run of steps that allow more. -/
theorem mono {other : State → Action → State → Prop} (run : Run step origin trace final)
    (more : ∀ before action after, step before action after → other before action after) :
    Run other origin trace final := by
  induction run with
  | start => exact .start
  | next _ stepped ih => exact ih.next (more _ _ _ stepped)

/-- Every transition of a run is a step, taken from a state that the run itself reaches. -/
theorem split_at {taken : Transition State Action} (run : Run step origin trace final)
    (member : taken ∈ trace) :
    step taken.before taken.action taken.after ∧
      ∃ earlier, Run step origin earlier taken.before := by
  -- The transition is the newest one or lies in the run before it.
  induction run with
  | start => cases member
  | next earlier stepped ih =>
    rcases List.mem_append.mp member with old | new
    · exact ih old
    · rw [List.mem_singleton.mp new]
      exact ⟨stepped, _, earlier⟩

/-- A run can be cut before any of its transitions. -/
theorem cut {earlier later : List (Transition State Action)} {taken : Transition State Action}
    (run : Run step origin (earlier ++ taken :: later) final) :
    Run step origin earlier taken.before ∧ step taken.before taken.action taken.after := by
  generalize whole : earlier ++ taken :: later = trace at run
  induction run generalizing later with
  | start => simp at whole
  | @next trace before after action reached stepped ih =>
    -- Either the transition is the last one of the run, or it lies in the run before that one.
    rcases List.eq_nil_or_concat later with rfl | ⟨front, last, rfl⟩
    · obtain ⟨rfl, same⟩ := List.append_inj' whole rfl
      rw [List.singleton_inj.mp same]
      exact ⟨reached, stepped⟩
    · rw [List.concat_eq_append, ← List.cons_append, ← List.append_assoc] at whole
      exact ih (List.append_inj' whole rfl).1

/-- A run is a run to a state in its middle and a run on from there. -/
theorem split {earlier later : List (Transition State Action)}
    (run : Run step origin (earlier ++ later) final) :
    ∃ middle, Run step origin earlier middle ∧ Run step middle later final := by
  generalize whole : earlier ++ later = trace at run
  induction run generalizing later with
  | start =>
    obtain ⟨rfl, rfl⟩ := List.append_eq_nil_iff.mp whole
    exact ⟨origin, .start, .start⟩
  | @next trace before after action reached stepped ih =>
    -- Either nothing is left for the second part, or the last step belongs to it.
    rcases List.eq_nil_or_concat later with rfl | ⟨front, last, rfl⟩
    · rw [List.append_nil] at whole
      exact ⟨after, whole ▸ reached.next stepped, .start⟩
    · rw [List.concat_eq_append, ← List.append_assoc] at whole
      obtain ⟨same, single⟩ := List.append_inj' whole rfl
      obtain ⟨middle, first, second⟩ := ih same
      refine ⟨middle, first, ?_⟩
      rw [List.concat_eq_append, single]
      exact second.next stepped

/-- A run without steps stays where it is. -/
theorem eq_of_nil (run : Run step origin [] final) : final = origin := by
  generalize none : ([] : List (Transition State Action)) = trace at run
  cases run with
  | start => rfl
  | next _ _ => exact absurd none (by simp)

/-- A run that is not empty is a first step and a run on from there. -/
theorem uncons {taken : Transition State Action} {later : List (Transition State Action)}
    (run : Run step origin (taken :: later) final) :
    taken.before = origin ∧ step taken.before taken.action taken.after ∧
      Run step taken.after later final := by
  have parts : Run step origin ([taken] ++ later) final := run
  obtain ⟨middle, first, rest⟩ := parts.split
  -- The first part is a single step.
  generalize whole : [taken] = single at first
  cases first with
  | start => cases whole
  | @next trace before action after reached stepped =>
    obtain ⟨rfl, same⟩ := List.append_inj' (show [] ++ [taken] = _ from whole) rfl
    rw [List.singleton_inj.mp same]
    exact ⟨reached.eq_of_nil, stepped, rest⟩

/-- A run whose steps all meet a condition that keeps states good ends in a good state. -/
theorem good_of_meets {Holds Good : State → Prop} {Meets : State → Action → Prop}
    (run : Run step origin trace final) (initial : Holds origin)
    (preserved : ∀ before action after, Holds before → step before action after → Holds after)
    (good : Good origin)
    (keeps : ∀ before action after, Holds before → Good before → step before action after →
      Meets before action → Good after)
    (meets : ∀ taken ∈ trace, Meets taken.before taken.action) : Good final := by
  -- The invariant holds at the state before the last step, and so does goodness, by induction.
  induction run with
  | start => exact good
  | @next trace before after action earlier stepped ih =>
    have past := ih fun taken member => meets taken (List.mem_append_left _ member)
    have now := meets ⟨before, action, after⟩ (by simp)
    exact keeps _ _ _ (earlier.invariant initial preserved) past stepped now

/--
Where an invariant is kept by the steps that meet a condition, and decides that a step is good exactly
if it meets the condition, all steps of a run are good exactly if all of them meet it.
-/
theorem all_good_iff_of_kept (Kept : State → Prop) (Good Meets : Transition State Action → Prop)
    (run : Run step origin trace final) (initial : Kept origin)
    (keeps : ∀ before action after, Kept before → step before action after →
      Meets ⟨before, action, after⟩ → Kept after)
    (exact : ∀ before action after, Kept before → step before action after →
      (Good ⟨before, action, after⟩ ↔ Meets ⟨before, action, after⟩)) :
    (∀ taken ∈ trace, Good taken) ↔ ∀ taken ∈ trace, Meets taken := by
  -- Both sides keep the invariant up to the last step, so they agree on that step too.
  suffices both : ((∀ taken ∈ trace, Good taken) ↔ ∀ taken ∈ trace, Meets taken) ∧
      ((∀ taken ∈ trace, Meets taken) → Kept final) from both.1
  induction run with
  | start => exact ⟨by simp, fun _ => initial⟩
  | @next trace before after action earlier stepped ih =>
    obtain ⟨same, reaches⟩ := ih
    simp only [List.mem_append, List.mem_singleton, or_imp, forall_and, forall_eq]
    refine ⟨⟨fun ⟨past, now⟩ => ?_, fun ⟨past, now⟩ => ?_⟩, fun ⟨past, now⟩ => ?_⟩
    · have past' := same.mp past
      exact ⟨past', (exact _ _ _ (reaches past') stepped).mp now⟩
    · exact ⟨same.mpr past, (exact _ _ _ (reaches past) stepped).mpr now⟩
    · exact keeps _ _ _ (reaches past) stepped now

/--
Where a good state stays good exactly when the step meets a condition, a whole run stays good
exactly when all of its steps meet it.
-/
theorem all_good_iff {Holds Good : State → Prop} {Meets : State → Action → Prop}
    (run : Run step origin trace final) (initial : Holds origin)
    (preserved : ∀ before action after, Holds before → step before action after → Holds after)
    (good : Good origin)
    (exact : ∀ before action after, Holds before → Good before → step before action after →
      (Good after ↔ Meets before action)) :
    (∀ taken ∈ trace, Good taken.after) ↔ ∀ taken ∈ trace, Meets taken.before taken.action := by
  -- Goodness, with the invariant of all runs, is what the steps keep.
  apply run.all_good_iff_of_kept (fun st => Holds st ∧ Good st) (fun taken => Good taken.after)
    (fun taken => Meets taken.before taken.action) ⟨initial, good⟩
  · intro before action after kept stepped meets
    exact ⟨preserved _ _ _ kept.1 stepped, (exact _ _ _ kept.1 kept.2 stepped).mpr meets⟩
  · intro before action after kept stepped
    exact exact _ _ _ kept.1 kept.2 stepped

section Simulation

variable {Coarse Move Label : Type*} {stepsTo : Coarse → Move → Coarse → Prop}

/--
A run is a run of a coarser system, with the same visible events, where each of its steps is either
invisible there or one of the coarser steps.
-/
theorem simulated (Holds : State → Prop) (view : State → Coarse) (shows : Action → List Label)
    (reveals : Move → List Label) (run : Run step origin trace final) (initial : Holds origin)
    (preserved : ∀ before action after, Holds before → step before action after → Holds after)
    (matched : ∀ before action after, Holds before → step before action after →
      (view after = view before ∧ shows action = []) ∨
      ∃ move, stepsTo (view before) move (view after) ∧ reveals move = shows action) :
    ∃ coarse, Run stepsTo (view origin) coarse (view final) ∧
      coarse.flatMap (fun taken => reveals taken.action) =
        trace.flatMap fun taken => shows taken.action := by
  induction run with
  | start => exact ⟨[], .start, rfl⟩
  | @next trace before after action earlier stepped ih =>
    obtain ⟨coarse, reached, same⟩ := ih
    have holds := earlier.invariant initial preserved
    rcases matched before action after holds stepped with ⟨stays, silent⟩ | ⟨move, moved, visible⟩
    · -- An invisible step leaves the coarser run as it is.
      refine ⟨coarse, stays.symm ▸ reached, ?_⟩
      simp [same, silent]
    · refine ⟨coarse ++ [⟨view before, move, view after⟩], reached.next moved, ?_⟩
      simp [same, visible]

end Simulation

end Run

section Play

/-- The transitions of given actions one after the other, and where they lead. -/
def play (next : Action → State → Option State) :
    List Action → State → Option (List (Transition State Action) × State)
  | [], st => some ([], st)
  | action :: actions, st =>
    (next action st).bind fun after =>
      (play next actions after).map fun (trace, final) => (⟨st, action, after⟩ :: trace, final)

/-- A run from the state after a first step is a run from the state before it. -/
theorem Run.cons {middle : State} {action : Action} (stepped : step origin action middle)
    (run : Run step middle trace final) :
    Run step origin (⟨origin, action, middle⟩ :: trace) final := by
  induction run with
  | start => exact Run.start.next stepped
  | next earlier last ih =>
    rw [← List.cons_append]
    exact ih.next last

/-- A run and a run on from its end are one run. -/
theorem Run.append {middle : State} {later : List (Transition State Action)}
    (run : Run step origin trace middle) (more : Run step middle later final) :
    Run step origin (trace ++ later) final := by
  induction more with
  | start =>
    rw [List.append_nil]
    exact run
  | next _ stepped ih =>
    rw [← List.append_assoc]
    exact ih.next stepped

/-- What is played is a run. -/
theorem run_of_play {next : Action → State → Option State} {actions : List Action}
    (played : play next actions origin = some (trace, final)) :
    Run (fun before action after => next action before = some after) origin trace final := by
  induction actions generalizing origin trace with
  | nil =>
    obtain ⟨rfl, rfl⟩ := Prod.mk.inj (Option.some.inj played)
    exact .start
  | cons action actions ih =>
    obtain ⟨after, stepped, rest⟩ := Option.bind_eq_some_iff.mp played
    obtain ⟨⟨later, last⟩, playedRest, same⟩ := Option.map_eq_some_iff.mp rest
    obtain ⟨rfl, rfl⟩ := Prod.mk.inj same
    exact Run.cons stepped (ih playedRest)

end Play

section Cells

variable {Value : Type*} {writes : Transition State Action → Value → Prop}
  {touches : Transition State Action → Prop} {taken : Transition State Action} {value : Value}

/-- A step of the trace wrote the value, and no later step touched it. -/
def LastWritten (writes : Transition State Action → Value → Prop)
    (touches : Transition State Action → Prop) (trace : List (Transition State Action))
    (value : Value) : Prop :=
  ∃ earlier taken later, trace = earlier ++ taken :: later ∧ writes taken value ∧
    ∀ next ∈ later, ¬ touches next

/-- What was written last is what the newest step wrote, or it is older and not touched. -/
theorem lastWritten_append_iff : LastWritten writes touches (trace ++ [taken]) value ↔
    writes taken value ∨ (¬ touches taken ∧ LastWritten writes touches trace value) := by
  constructor
  · intro ⟨earlier, wrote, later, whole, written, untouched⟩
    -- The step that wrote is the newest one, or the newest one is behind it.
    rcases List.eq_nil_or_concat later with rfl | ⟨front, last, rfl⟩
    · obtain ⟨-, same⟩ := List.append_inj' whole rfl
      rw [List.singleton_inj.mp same]
      exact .inl written
    · rw [List.concat_eq_append, ← List.cons_append, ← List.append_assoc] at whole
      obtain ⟨rest, same⟩ := List.append_inj' whole rfl
      rw [List.concat_eq_append] at untouched
      rw [List.singleton_inj.mp same]
      exact .inr ⟨untouched last (by simp), earlier, wrote, front, rest, written,
        fun next member => untouched next (List.mem_append_left _ member)⟩
  · intro last
    rcases last with written | ⟨quiet, earlier, wrote, later, rfl, written, untouched⟩
    · exact ⟨trace, taken, [], rfl, written, fun _ member => absurd member List.not_mem_nil⟩
    · refine ⟨earlier, wrote, later ++ [taken], by simp, written, fun next member => ?_⟩
      rcases List.mem_append.mp member with old | new
      · exact untouched next old
      · rw [List.mem_singleton.mp new]
        exact quiet

end Cells

section First

variable {Value : Type*} {observe : Action → Option Value} {taken : Transition State Action}
  {value : Value}

/-- What is observed first in the actions of a trace. -/
def firstSeen (observe : Action → Option Value) (trace : List (Transition State Action)) :
    Option Value :=
  trace.findSome? fun taken => observe taken.action

/-- The newest step counts only where nothing was observed before it. -/
theorem firstSeen_append :
    firstSeen observe (trace ++ [taken]) = (firstSeen observe trace).or (observe taken.action) := by
  -- A list of one step shows what that step shows.
  simp [firstSeen, List.findSome?_append]

/-- What was seen first stays that. -/
theorem firstSeen_of_isSome (seen : (firstSeen observe trace).isSome) :
    firstSeen observe (trace ++ [taken]) = firstSeen observe trace := by
  rw [firstSeen_append, Option.or_of_isSome seen]

/-- A step in which nothing is observed changes nothing. -/
theorem firstSeen_of_quiet (quiet : observe taken.action = none) :
    firstSeen observe (trace ++ [taken]) = firstSeen observe trace := by
  rw [firstSeen_append, quiet, Option.or_none]

/-- What was seen first was seen in some step. -/
theorem exists_of_firstSeen (seen : firstSeen observe trace = some value) :
    ∃ taken ∈ trace, observe taken.action = some value :=
  List.exists_of_findSome?_eq_some seen

end First

end Foundations
