import SystemProgramming.Drm.Deadlock

/-! The end of `drm_destroy` destroys the library mutex too: what still works after it. -/

namespace SystemProgramming.Drm

open Foundations

variable {Thread Drm : Type*} {st st' : State Thread Drm} {action : Action Thread Drm}

/-- The library mutex, or the mutex of a drm. -/
def State.mutex (st : State Thread Drm) : Option Drm → Mutex Thread
  | none => st.libraryMut
  | some drm => st.objectMut drm

/-- A step after which the library mutex is destroyed. -/
def Event.disposes : Event Drm → Bool
  | .dispose _ => true
  | _ => false

/-- A step that locks, unlocks or destroys the library mutex. -/
def Event.entersLibrary : Event Drm → Bool
  -- Only a failed `drm_init`, and the lock of a drm itself, do without it.
  | .initFailed => false
  | .acquire _ => false
  | _ => true

section Uses

variable [DecidableEq Thread] [DecidableEq Drm]

/-- The mutexes that a step locks, unlocks or destroys. -/
def uses (st : State Thread Drm) (action : Action Thread Drm) : List (Option Drm) :=
  match action.event with
  | .initFailed => []
  | .init _ => [none]
  | .wait _ => [none]
  | .acquire drm => [some drm]
  | .own _ => [none]
  | .post drm => if Posts st.graph action.thread drm then [none, some drm] else [none]
  | .destroy _ => [none]
  | .dispose drm => [some drm, none]

/-- A step that uses no mutex that is destroyed. -/
def Safe (taken : Transition (State Thread Drm) (Action Thread Drm)) : Prop :=
  ∀ mutex ∈ uses taken.before taken.action, taken.before.mutex mutex ≠ .destroyed

/-- Whether a step uses the library mutex depends on the kind of step only. -/
theorem none_mem_uses : none ∈ uses st action ↔ action.event.entersLibrary = true := by
  -- Only a post looks at the graph, and it locks the library in any case.
  obtain ⟨thread, event⟩ := action
  cases event with
  | post drm =>
    simp only [uses, Event.entersLibrary, iff_true]
    split <;> simp
  | _ => simp [uses, Event.entersLibrary]

end Uses

/-- The mutex of a drm can be used until the end of its `drm_destroy`, which runs once. -/
structure Usable (st : State Thread Drm) : Prop where
  live : ∀ drm, st.live drm → st.objectMut drm ≠ .destroyed
  destroying : ∀ thread drm, st.place thread = .destroying drm → st.objectMut drm ≠ .destroyed
  alone : ∀ thread other drm, st.place thread = .destroying drm →
    st.place other = .destroying drm → thread = other

/-- At first there are no objects. -/
theorem Usable.start : Usable (start : State Thread Drm) where
  live _ := False.elim
  destroying _ _ := nofun
  alone _ _ _ := nofun

/-- A mutex that is initialized, locked or unlocked is not destroyed. -/
theorem Usable.setMutex [DecidableEq Drm] (usable : Usable st) {drm : Drm} {mutex : Mutex Thread}
    (works : mutex ≠ .destroyed) :
    Usable { st with objectMut := Function.update st.objectMut drm mutex } := by
  -- The mutex that is set works, and the others are as before.
  have set (other : Drm) (before : st.objectMut other ≠ .destroyed) :
      Function.update st.objectMut drm mutex other ≠ .destroyed := by
    rw [Function.update_apply]
    split
    · exact works
    · exact before
  exact {
    live := fun other alive => set other (usable.live other alive)
    destroying := fun thread other now => set other (usable.destroying thread other now)
    alone := usable.alone }

variable [DecidableEq Thread]

/-- A thread that moves to a place outside of `drm_destroy` leaves the mutexes usable. -/
theorem Usable.goto (usable : Usable st) {thread : Thread} {place : Place Drm}
    (elsewhere : ∀ drm, place ≠ .destroying drm) : Usable (st.goto thread place) where
  live := usable.live
  destroying other drm now := usable.destroying other drm (place_update now (elsewhere drm)).2
  alone other another drm one two := usable.alone other another drm
    (place_update one (elsewhere drm)).2 (place_update two (elsewhere drm)).2

variable [DecidableEq Drm]

/-- Every step keeps the mutexes of the drms usable. -/
theorem Usable.step (usable : Usable st) (tracked : Tracked st) (step : Step st action st') :
    Usable st' := by
  cases step with
  -- The new drm has a mutex, and the others keep theirs.
  | @init thread drm _ dead unused =>
    have made : Usable { st with objectMut := Function.update st.objectMut drm .free } :=
      usable.setMutex nofun
    refine ⟨?_, made.destroying, made.alone⟩
    rintro other (rfl | alive)
    · simp
    · exact made.live other alive
  | initFailed => exact usable
  -- Waiting changes the graph and the place of the thread only.
  | @wait thread drm fuel graph visited goesOn outside alive done =>
    have moved : Usable (st.goto thread (if goesOn then .blocked drm else .outside)) := by
      refine usable.goto fun other => ?_
      split <;> nofun
    exact ⟨moved.live, moved.destroying, moved.alone⟩
  | @acquire thread drm _ _ =>
    have moved : Usable (st.goto thread (.owning drm)) := usable.goto fun _ => nofun
    exact moved.setMutex nofun
  | @own thread drm _ =>
    have moved : Usable (st.goto thread .outside) := usable.goto fun _ => nofun
    exact ⟨moved.live, moved.destroying, moved.alone⟩
  | @post thread drm outside alive =>
    split
    · -- The posted drm is free.
      have posted : Usable { st with objectMut := Function.update st.objectMut drm .free } :=
        usable.setMutex nofun
      exact ⟨posted.live, posted.destroying, posted.alone⟩
    · exact usable
  | @destroy thread drm outside alive free unused =>
    -- Nobody else is destroying the drm, since it is live until now.
    have first (other : Thread) : st.place other ≠ .destroying drm :=
      fun destroying => tracked.destroying_dead other drm destroying alive
    refine ⟨fun other still => usable.live other still.2, fun other last now => ?_,
      fun other another last one two => ?_⟩
    · simp only [State.goto, Function.update_apply] at now
      split at now
      · -- The thread itself destroys the drm, whose mutex is still free.
        rw [← Place.destroying.inj now]
        simp [State.goto, free]
      · exact usable.destroying other last now
    · simp only [State.goto, Function.update_apply] at one two
      split at one
      · rename_i own
        split at two
        · rename_i also
          rw [own, also]
        · rw [← Place.destroying.inj one] at two
          exact absurd two (first another)
      · split at two
        · rw [← Place.destroying.inj two] at one
          exact absurd one (first other)
        · exact usable.alone other another last one two
  | @dispose thread drm destroying =>
    -- The drm is not live any more, and no other thread is destroying it.
    have moved : Usable (st.goto thread .outside) := usable.goto fun _ => nofun
    have kept (other : Drm) (different : other ≠ drm) (works : st.objectMut other ≠ .destroyed) :
        Function.update st.objectMut drm .destroyed other ≠ .destroyed := by
      rw [Function.update_of_ne different]
      exact works
    refine ⟨fun other alive => kept other ?_ (usable.live other alive), fun other last now => ?_,
      moved.alone⟩
    · intro same
      subst same
      exact tracked.destroying_dead thread other destroying alive
    · obtain ⟨different, before⟩ := place_update now nofun
      refine kept last ?_ (usable.destroying other last before)
      intro same
      subst same
      exact different (usable.alone other thread last before destroying)

variable {trace : List (Transition (State Thread Drm) (Action Thread Drm))}
  {final : State Thread Drm}

/-- A step is safe when it does not use the library mutex, or the library mutex is not destroyed. -/
theorem Usable.safe_iff (usable : Usable st) (tracked : Tracked st) (step : Step st action st') :
    Safe ⟨st, action, st'⟩ ↔
      (st.libraryMut = .destroyed → action.event.entersLibrary = false) := by
  -- The mutexes of the drms that callers use are not destroyed.
  have objects (drm : Drm) (used : some drm ∈ uses st action) :
      st.objectMut drm ≠ .destroyed := by
    cases step with
    | acquire blocked _ =>
      rw [uses, List.mem_singleton] at used
      rw [Option.some.inj used]
      exact usable.live _ (tracked.waiting_live _ _ (.inl blocked))
    | post _ alive =>
      simp only [uses] at used
      split at used
      · simp only [List.mem_cons, List.not_mem_nil, or_false, reduceCtorEq, false_or] at used
        rw [Option.some.inj used]
        exact usable.live _ alive
      · simp at used
    | dispose destroying =>
      simp only [uses, List.mem_cons, List.not_mem_nil, or_false, reduceCtorEq] at used
      rw [Option.some.inj used]
      exact usable.destroying _ _ destroying
    | _ => simp [uses] at used
  constructor
  · -- A step that enters the library would use the destroyed mutex.
    intro safe destroyed
    rw [Bool.eq_false_iff]
    exact fun enters => safe none (none_mem_uses.mpr enters) destroyed
  · -- The library mutex works when it is used, and so do those of the drms.
    intro apart mutex used
    cases mutex with
    | none =>
      intro destroyed
      have enters := none_mem_uses.mp used
      rw [apart destroyed] at enters
      cases enters
    | some drm => exact objects drm used

/-- The library mutex is destroyed by the end of a `drm_destroy`, and stays so. -/
theorem libraryMut_step (step : Step st action st') :
    st'.libraryMut = .destroyed ↔ st.libraryMut = .destroyed ∨ action.event.disposes = true := by
  -- The end of `drm_destroy` is the only step that sets the library mutex.
  cases step with
  | post _ _ =>
    split <;> simp [Event.disposes]
  | _ => simp [State.goto, Event.disposes]

/-- Once a `drm_destroy` has run to its end, no step enters the library any more. -/
def DestroyedLast (trace : List (Transition (State Thread Drm) (Action Thread Drm))) : Prop :=
  trace.Pairwise fun first second =>
    first.action.event.disposes = true → second.action.event.entersLibrary = false

/--
No step uses a destroyed mutex exactly when nothing enters the library after a `drm_destroy` has
run to its end.
-/
theorem mutexes_alive_iff (run : Run Step (start : State Thread Drm) trace final) :
    (∀ taken ∈ trace, Safe taken) ↔ DestroyedLast trace := by
  -- The history says when the library mutex was destroyed.
  have whole := @Run.history _ _ _ _ _ _ (fun trace st => Tracked st ∧ Usable st ∧
    (st.libraryMut = .destroyed ↔ ∃ taken ∈ trace, taken.action.event.disposes = true) ∧
    ((∀ taken ∈ trace, Safe taken) ↔ DestroyedLast trace)) run ?_ ?_
  · exact whole.2.2.2
  · -- At first no step was taken.
    refine ⟨.start, .start, ?_, ?_⟩
    · simp [start]
    · simp [DestroyedLast]
  · intro trace before action after invariant step
    obtain ⟨tracked, usable, destroyed, same⟩ := invariant
    refine ⟨tracked.step step, usable.step tracked step, ?_, ?_⟩
    · rw [libraryMut_step step, destroyed]
      simp [or_and_right, exists_or]
    · -- The new step is safe exactly if no earlier one has destroyed the library mutex.
      have now := usable.safe_iff tracked step
      rw [destroyed] at now
      rw [DestroyedLast, List.pairwise_append, ← DestroyedLast]
      simp only [List.mem_append, List.mem_singleton, or_imp, forall_and, forall_eq, same, now,
        List.pairwise_singleton, true_and]
      refine and_congr_right fun _ => ?_
      constructor
      · intro later first member disposes
        exact later ⟨first, member, disposes⟩
      · intro later disposed
        obtain ⟨first, member, disposes⟩ := disposed
        exact later first member disposes

def sampleTwo : State Bool Bool :=
  { sampleMade with
    graph := sampleMade.graph.addVertex (.drm false)
    objectMut := Function.update sampleMade.objectMut false .free
    live := fun other => other = false ∨ sampleMade.live other }

def sampleDestroying : State Bool Bool :=
  { sampleTwo.goto true (.destroying true) with
    graph := sampleTwo.graph.removeVertex (.drm true)
    live := fun other => other ≠ true ∧ sampleTwo.live other }

def sampleDisposed : State Bool Bool :=
  { sampleDestroying.goto true .outside with
    libraryMut := .destroyed
    objectMut := Function.update sampleDestroying.objectMut true .destroyed }

def sampleAgain : State Bool Bool :=
  { sampleDisposed.goto true (.destroying false) with
    graph := sampleDisposed.graph.removeVertex (.drm false)
    live := fun other => other ≠ false ∧ sampleDisposed.live other }

/-- Two drms are made, and then destroyed one after the other. -/
def destroyTrace : List (Transition (State Bool Bool) (Action Bool Bool)) :=
  [⟨sampleStart, ⟨true, .init true⟩, sampleMade⟩, ⟨sampleMade, ⟨true, .init false⟩, sampleTwo⟩,
    ⟨sampleTwo, ⟨true, .destroy true⟩, sampleDestroying⟩,
    ⟨sampleDestroying, ⟨true, .dispose true⟩, sampleDisposed⟩,
    ⟨sampleDisposed, ⟨true, .destroy false⟩, sampleAgain⟩]

theorem destroy_run : Run Step start destroyTrace sampleAgain := by
  -- Before each destruction, all threads are outside of the library.
  have made (other : Bool) : sampleTwo.place other = .outside := rfl
  have idle (other : Bool) : sampleDisposed.place other = .outside := by cases other <;> rfl
  have absent : ¬ sampleMade.live false := by simp [sampleMade, sampleStart, start]
  have first : Step sampleStart ⟨true, .init true⟩ sampleMade :=
    .init rfl id (by simp [sampleStart, start])
  have second : Step sampleMade ⟨true, .init false⟩ sampleTwo :=
    .init rfl absent (by simp [sampleMade, sampleStart, start])
  have destroy : Step sampleTwo ⟨true, .destroy true⟩ sampleDestroying :=
    .destroy rfl (Or.inr (Or.inl rfl)) rfl (by simp [made])
  have dispose : Step sampleDestroying ⟨true, .dispose true⟩ sampleDisposed := .dispose rfl
  have again : Step sampleDisposed ⟨true, .destroy false⟩ sampleAgain :=
    .destroy rfl ⟨by simp, Or.inl rfl⟩ rfl (by simp [idle])
  exact ((((Run.start.next first).next second).next destroy).next dispose).next again

/-- The second `drm_destroy` locks the library mutex that the first one has destroyed. -/
theorem second_destroy_not_safe : ¬ ∀ trace final, Run Step (start : State Bool Bool) trace final →
    ∀ taken ∈ trace, Safe taken := by
  -- The second `drm_destroy` is the last step of the run.
  intro safe
  have last := safe _ _ destroy_run ⟨sampleDisposed, ⟨true, .destroy false⟩, sampleAgain⟩
    (by simp [destroyTrace])
  exact last none List.mem_cons_self rfl

/-- Without a `drm_destroy`, the lock of a drm is safe. -/
theorem mutexes_alive_iff_sample :
    Safe ⟨sampleBlocked, ⟨true, .acquire true⟩, sampleOwning⟩ := by
  -- No step of the run is the end of a `drm_destroy`.
  refine (mutexes_alive_iff sample_run).mpr ?_ _ (by simp)
  simp [DestroyedLast, Event.disposes]

end SystemProgramming.Drm
