import SystemProgramming.ParallelMake.Made
import SystemProgramming.ParallelMake.Progress
import SystemProgramming.Foundations.Cycles

/-! The workers see the rules of their work list only, and these have no cycle. -/

namespace SystemProgramming.ParallelMake

open Foundations

variable {Target Worker : Type*} {rules other : Rules Target} {work list : List Target}
  {target : Target}

/-- No cycle can be reached from a target in a list that has every target after its dependencies. -/
theorem PostOrdered.free (ordered : PostOrdered rules work) :
    ∀ target ∈ work, ¬ ReachesCycle (Goes rules.dependencies) target := by
  refine ordered.induct fun target _ below reaches => ?_
  obtain ⟨dependency, needed, onward⟩ := reaches.next
  exact below dependency needed onward

/-- Two rule graphs agree about the targets of a work list. -/
def AgreeOn (work : List Target) (rules other : Rules Target) : Prop :=
  ∀ target ∈ work, other.dependencies target = rules.dependencies target ∧
    other.commands target = rules.commands target

/-- A scan looks at the rules of the targets in its list only. -/
theorem scan_congr {state : Target → Int} (agree : AgreeOn work rules other)
    (inside : ∀ target ∈ list, target ∈ work) : scan other state list = scan rules state list := by
  induction list with
  | nil => rfl
  | cons target rest ih =>
    -- The scan reads the dependencies of each target that is left.
    rw [scan, scan, (agree target (inside target List.mem_cons_self)).1,
      ih fun later member => inside later (List.mem_cons_of_mem _ member)]

/-- All targets that are left or taken are those of the work list. -/
structure Inside (work : List Target) (st : State Target Worker) : Prop where
  left : ∀ target ∈ st.allVertexDfs, target ∈ work
  taken : ∀ worker target, (st.place worker).target = some target → target ∈ work

variable [DecidableEq Target]

/-- The rules of the targets in a work list, without those of all other targets. -/
def Rules.within (rules : Rules Target) (work : List Target) : Rules Target where
  dependencies target := if target ∈ work then rules.dependencies target else []
  commands := rules.commands

theorem agreeOn_within : AgreeOn work rules (rules.within work) :=
  fun _ member => ⟨if_pos member, rfl⟩

/-- The order of a work list is about the rules of its targets only. -/
theorem PostOrdered.within (ordered : PostOrdered rules work) :
    PostOrdered (rules.within work) work := by
  intro front target back split dependency needed
  have member : target ∈ work := by simp [split]
  rw [(agreeOn_within target member).1] at needed
  exact ordered front target back split dependency needed

/-- These rules have no cycle, whatever the rules of other targets are. -/
theorem PostOrdered.within_acyclic (ordered : PostOrdered rules work) :
    (rules.within work).Acyclic := by
  intro target cycle
  have around : ReachesCycle (Goes (rules.within work).dependencies) target :=
    .of_cycle (Relation.transGen_swap.mp cycle)
  by_cases member : target ∈ work
  · exact ordered.within.free target member around
  · -- A target outside of the list leads nowhere.
    obtain ⟨dependency, needed, -⟩ := around.next
    have none : (rules.within work).dependencies target = [] := if_neg member
    rw [Goes, none] at needed
    cases needed

variable [DecidableEq Worker] {st after final : State Target Worker}
  {action : Action Target Worker}
  {trace : List (Transition (State Target Worker) (Action Target Worker))}

/-- A step is about the rules of the targets in the work list only. -/
theorem Step.congr (agree : AgreeOn work rules other) (inside : Inside work st)
    (step : Step rules st action after) : Step other st action after := by
  have scans := @scan_congr _ rules other work _ st.state agree inside.left
  -- Only three kinds of steps look at the rules, each at those of one list or target.
  cases step with
  | exit place free empty => exact .exit place free empty
  | take place free found => exact .take place free (scans.trans found)
  | miss place free some found => exact .miss place free some (scans.trans found)
  | park place => exact .park place
  | @check worker target accessible probes place length =>
    have member := inside.taken worker target (by rw [place]; rfl)
    exact .check place (by rw [length, (agree target member).1])
  | skip place verdict => exact .skip place verdict
  | @execute worker target results place length =>
    have member := inside.taken worker target (by rw [place]; rfl)
    exact .execute place (by rw [length, (agree target member).2])
  | setState place => exact .setState place
  | wake place free => exact .wake place free
  | spurious place => exact .spurious place

omit [DecidableEq Target] in
/-- A worker that moves on keeps its target, or has none. -/
theorem Inside.goto (inside : Inside work st) (worker : Worker) {next : Place Target}
    (known : ∀ target, next.target = some target → target ∈ work) :
    ∀ other target, ((st.goto worker next).place other).target = some target → target ∈ work := by
  intro other target has
  by_cases same : other = worker
  · subst same
    simp only [State.goto, Function.update_self] at has
    exact known target has
  · simp only [State.goto, Function.update_of_ne same] at has
    exact inside.taken other target has

/-- Every step stays inside of the work list. -/
theorem Inside.step (inside : Inside work st) (step : Step rules st action after) :
    Inside work after := by
  -- A target is taken from the list, and a worker keeps it until its state is set.
  cases step with
  | @exit worker | @park worker | @miss worker | @wake worker | @spurious worker =>
    exact ⟨inside.left, inside.goto worker fun _ none => by cases none⟩
  | @take worker target verdict place free found =>
    -- The target comes from the list.
    refine ⟨fun other member => inside.left other (List.mem_of_mem_erase member),
      inside.goto worker fun other same => ?_⟩
    cases same
    exact inside.left target (scan_some found).1
  | @check worker target accessible probes place =>
    refine ⟨inside.left, inside.goto worker fun other same => inside.taken worker other ?_⟩
    rw [place, ← same]
    split <;> rfl
  | @skip worker target verdict place =>
    refine ⟨inside.left, inside.goto worker fun other same => inside.taken worker other ?_⟩
    rw [place, ← same]
    rfl
  | @execute worker target results place =>
    refine ⟨inside.left, inside.goto worker fun other same => inside.taken worker other ?_⟩
    rw [place, ← same]
    rfl
  | @setState worker target newState place =>
    refine ⟨inside.left, fun other taken has => ?_⟩
    by_cases same : other = worker
    · subst same
      simp only [Function.update_self, Place.target] at has
      cases has
    · -- A worker that is woken has no target, and the others keep theirs.
      simp only [Function.update_of_ne same] at has
      refine inside.taken other taken ?_
      cases here : st.place other <;> simp_all [Place.signaled, Place.target]

/-- A run is one of the rules within its work list. -/
theorem within_of_run (run : Run (Step rules) (start work) trace final) :
    Run (Step (rules.within work)) (start work) trace final ∧ Inside work final := by
  induction run with
  -- At first the list is the whole work list, and no worker has a target.
  | start => exact ⟨.start, fun _ member => member, fun _ _ has => by cases has⟩
  | next _ step ih =>
    obtain ⟨walked, inside⟩ := ih
    exact ⟨walked.next (step.congr agreeOn_within inside), inside.step step⟩

end SystemProgramming.ParallelMake
