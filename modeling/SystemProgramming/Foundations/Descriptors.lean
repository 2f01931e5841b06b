import Mathlib.Logic.Function.Basic

/-! Tables of file descriptors, and the calls that close and redirect them. -/

namespace Foundations

/-- What each descriptor of a process is open for; a number that is not open has nothing. -/
abbrev Descriptors (Open : Type*) := Nat → Option Open

/-- A call that changes the table of its process. -/
inductive DescriptorCall where
  | close (fd : Nat)
  | dup2 (old new : Nat)
  deriving DecidableEq, Repr

variable {Open : Type*}

namespace Descriptors

/-- Some descriptor of the table is open for this. -/
def Holds (table : Descriptors Open) (file : Open) : Prop := ∃ fd, table fd = some file

/-- Nothing is open. -/
def none : Descriptors Open := fun _ => Option.none

theorem not_holds_none (file : Open) : ¬ Holds none file := by
  rintro ⟨fd, open_⟩
  cases open_

end Descriptors

namespace DescriptorCall

/-- The table after a call; `dup2` of a descriptor that is not open fails. -/
def run : DescriptorCall → Descriptors Open → Option (Descriptors Open)
  | close fd, table => some (Function.update table fd none)
  | dup2 old new, table => (table old).map fun file => Function.update table new (some file)

/-- The table after some calls, if none of them fails. -/
def runAll : List DescriptorCall → Descriptors Open → Option (Descriptors Open)
  | [], table => some table
  | call :: calls, table => (call.run table).bind (runAll calls)

variable {call : DescriptorCall} {calls : List DescriptorCall} {table after : Descriptors Open}
  {file : Open}

/-- A call opens nothing that was not open before. -/
theorem holds_of_run (ran : call.run table = some after) (holds : after.Holds file) :
    table.Holds file := by
  obtain ⟨fd, open_⟩ := holds
  cases call with
  | close closed =>
    obtain rfl := Option.some.inj ran
    by_cases same : fd = closed
    · rw [same, Function.update_self] at open_
      cases open_
    · exact ⟨fd, by rwa [Function.update_of_ne same] at open_⟩
  | dup2 old new =>
    obtain ⟨other, source, rfl⟩ := Option.map_eq_some_iff.mp ran
    by_cases same : fd = new
    · rw [same, Function.update_self] at open_
      exact ⟨old, source.trans open_⟩
    · exact ⟨fd, by rwa [Function.update_of_ne same] at open_⟩

/-- Nor do several calls. -/
theorem holds_of_runAll (ran : runAll calls table = some after) (holds : after.Holds file) :
    table.Holds file := by
  induction calls generalizing table with
  | nil =>
    obtain rfl := Option.some.inj ran
    exact holds
  | cons call calls ih =>
    obtain ⟨middle, first, rest⟩ := Option.bind_eq_some_iff.mp ran
    exact holds_of_run first (ih rest)

end DescriptorCall

end Foundations
