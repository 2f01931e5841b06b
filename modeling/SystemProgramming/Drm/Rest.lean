import SystemProgramming.Drm.Lifetime
import SystemProgramming.Foundations.Cycles
import SystemProgramming.Foundations.Potential
import Mathlib.Data.Fintype.EquivFin

/-! Threads come to rest, and then a thread is blocked only by those that keep what they own. -/

namespace SystemProgramming.Drm

open Foundations Relation

/-- The first step of a call. -/
def Event.isCall {Drm : Type*} : Event Drm → Bool
  | .acquire _ | .own _ | .dispose _ => false
  | _ => true

/-- How many steps a thread can still make in its call. -/
def Place.weight {Drm : Type*} : Place Drm → Nat
  | .outside => 0
  | .blocked _ => 2
  | .owning _ => 1
  | .destroying _ => 1

variable {Thread Drm : Type*} [DecidableEq Thread] [DecidableEq Drm] {st st' : State Thread Drm}
  {action : Action Thread Drm} {thread : Thread} {drm : Drm}

/-- No thread can go on in its call. -/
def AtRest (st : State Thread Drm) : Prop :=
  ∀ action after, Step st action after → action.event.isCall = true

/-- Where no thread can go on, each is in no call, or it is blocked on a drm that another one holds. -/
theorem AtRest.place (rest : AtRest st) (usable : Usable st) (tracked : Tracked st)
    (thread : Thread) :
    st.place thread = .outside ∨
      ∃ drm holder, st.place thread = .blocked drm ∧ st.objectMut drm = .held holder := by
  cases place : st.place thread with
  | outside => exact .inl rfl
  | owning drm => cases rest _ _ (.own place)
  | destroying drm => cases rest _ _ (.dispose place)
  | blocked drm =>
    refine .inr ⟨drm, ?_⟩
    -- The mutex was not destroyed, and if it were free, the thread could lock it.
    cases mutex : st.objectMut drm with
    | destroyed => exact absurd mutex (usable.live drm (tracked.waiting_live thread drm (.inl place)))
    | free => cases rest _ _ (.acquire place mutex)
    | held holder => exact ⟨holder, rfl, rfl⟩

omit [DecidableEq Thread] [DecidableEq Drm] in
/-- A thread outside of the library that holds a drm owns it in the graph. -/
theorem Tracked.owns (tracked : Tracked st) (outside : st.place thread = .outside)
    (held : st.objectMut drm = .held thread) : st.graph.Edge (.drm drm) (.thread thread) := by
  -- A thread in no call has entered everything that it holds into the graph.
  refine (tracked.drm_edge drm _).mpr ⟨thread, rfl, held, ?_⟩
  simp [outside]

variable [Fintype Thread]

omit [DecidableEq Drm] in
/-- A thread that moves to a place with less to do takes from what the threads can still do. -/
theorem weight_goto {next : Place Drm} {price : Nat}
    (less : next.weight + 1 ≤ (st.place thread).weight + price) :
    total Place.weight (st.goto thread next).place + 1 ≤ total Place.weight st.place + price :=
  total_update_le less

/-- A step takes from what the threads can still do, unless it begins a call. -/
theorem Step.weight_falls (step : Step st action st') :
    total Place.weight st'.place + 1 ≤
      total Place.weight st.place + if action.event.isCall then 3 else 0 := by
  cases step with
  | init => exact Nat.add_le_add_left (by simp [Event.isCall]) _
  | initFailed => exact Nat.add_le_add_left (by simp [Event.isCall]) _
  | @wait thread drm _ _ _ goesOn outside =>
    -- A wait may be refused at once, and then nothing is left to do.
    apply weight_goto
    rw [outside]
    cases goesOn <;> simp [Place.weight, Event.isCall]
  | acquire place | own place | dispose place =>
    apply weight_goto
    rw [place]
    exact Nat.le_refl _
  | post =>
    split <;> exact Nat.add_le_add_left (by simp [Event.isCall]) _
  | destroy outside =>
    apply weight_goto
    rw [outside]
    simp [Place.weight, Event.isCall]

variable {trace : List (Transition (State Thread Drm) (Action Thread Drm))}
  {final : State Thread Drm}

omit [Fintype Thread] in
/-- In every run, the mutexes of the drms in use can be used. -/
theorem usable_of_run (run : Run Step (start : State Thread Drm) trace final) : Usable final :=
  (@Run.invariant _ _ _ _ _ _ (fun st => Tracked st ∧ Usable st) run ⟨.start, .start⟩
    fun _ _ _ both step => ⟨both.1.step step, both.2.step both.1 step⟩).2

/--
Threads that make finitely many calls come to rest, since no call takes more than three steps. Then a
thread is in no call, or the owners that it waits for, one after the other, lead to a thread that is
in no call and keeps what it owns; where no such thread owns anything, nobody is blocked.
-/
theorem drm_comes_to_rest (run : Run Step (start : State Thread Drm) trace final) :
    (trace.length ≤ 3 * trace.countP fun taken => taken.action.event.isCall) ∧
      (AtRest final → ∀ thread, final.place thread = .outside ∨
        ∃ owner drm, TransGen (WaitsFor final) thread owner ∧ final.place owner = .outside ∧
          final.graph.Edge (.drm drm) (.thread owner)) := by
  constructor
  · have bound := @Run.length_le _ _ _ _ _ _ (fun st => total Place.weight st.place)
      (fun action => action.event.isCall) 3 run fun _ _ _ => Step.weight_falls
    have empty : total Place.weight (start : State Thread Drm).place = 0 := by
      simp [total, start, Place.weight]
    omega
  · intro rest thread
    have tracked := tracked_of_run run
    have place := rest.place (usable_of_run run) tracked
    rcases place thread with outside | ⟨drm, holder, blocked, held⟩
    · exact .inl outside
    right
    -- The way over the owners ends, and the last one is not blocked.
    obtain ⟨owner, way, last⟩ := tracked.no_circle.exists_last holder
    have waits : TransGen (WaitsFor final) thread owner := .head' ⟨drm, blocked, held⟩ way
    have outside : final.place owner = .outside := by
      refine (place owner).resolve_right ?_
      rintro ⟨drm, next, blocked, held⟩
      exact last next ⟨drm, blocked, held⟩
    -- The last step of the way is to the thread that holds the drm.
    obtain ⟨_, _, drm, _, owned⟩ := TransGen.tail'_iff.mp waits
    exact ⟨owner, drm, waits, outside, tracked.owns outside owned⟩

/-- The graph of one thread that owns a drm and of another one that waits for it. -/
def sampleOwned : Resources Bool Bool where
  vertices := [.thread false, .thread true, .drm true]
  edges := [(.thread false, .drm true), (.drm true, .thread true)]
  distinct := by decide

def sampleOwner : State Bool Bool :=
  { sampleOwning.goto true .outside with graph := drmOwn sampleOwning.graph true true }

def sampleWaiter : State Bool Bool :=
  { sampleOwner.goto false (.blocked true) with graph := sampleOwned, visitedVertex := none }

/-- The thread that is blocked waits for one that owns the drm and could post it. -/
theorem drm_comes_to_rest_sample : ∃ owner drm, TransGen (WaitsFor sampleWaiter) false owner ∧
    sampleWaiter.place owner = .outside ∧ sampleWaiter.graph.Edge (.drm drm) (.thread owner) := by
  have own : Step sampleOwning ⟨true, .own true⟩ sampleOwner := .own rfl
  have checked : drmWait sampleOwner.graph 5 none false true = some (sampleOwned, none, true) := rfl
  have wait : Step sampleOwner ⟨false, .wait true⟩ sampleWaiter :=
    .wait rfl (Or.inl rfl) checked
  -- The drm is locked, so that no thread can go on.
  have rest : AtRest sampleWaiter := by
    intro action after step
    cases step with
    | @acquire _ drm _ free => cases drm <;> cases free
    | @own thread _ place => cases thread <;> cases place
    | @dispose thread _ place => cases thread <;> cases place
    | _ => rfl
  rcases (drm_comes_to_rest ((sample_run.next own).next wait)).2 rest false with outside | found
  · cases outside
  · exact found

end SystemProgramming.Drm
