import SystemProgramming.FileServer.Contents

/-! What a refused `PUT` leaves behind, and what it takes away. -/

namespace SystemProgramming.FileServer

open Foundations

variable {library : Library} {dirTemplate : Path} {st final : Server library} {filename : Name}
  {stale sent : List UInt8} {taken : Transition (Server library) Action}

/-- The step is the header of a `PUT` that sends more or less than it declares. -/
def Mismatched (taken : Transition (Server library) Action) (filename : Name) : Prop :=
  ∃ stale sent, taken.before.Puts taken.action.event filename stale sent ∧
    (sent.drop sizeBytes).length ≠ declaredSize stale (sent.take sizeBytes)

/--
The request is refused with state -2, the files and the tables are as before, and so is the answer
to a `GET` of the name.
-/
def RefusedWithoutEffect (dirTemplate : Path) (filename : Name)
    (taken : Transition (Server library) Action) : Prop :=
  (∃ fd input, taken.action.event = .ready fd input ∧
      taken.after.clientDictionary fd = some ⟨-2, some .put, filename⟩) ∧
    taken.after.SameTables taken.before ∧
      ∀ writes, processGet dirTemplate taken.after filename writes =
        processGet dirTemplate taken.before filename writes

/-- Unlinking the file of a path changes no file exactly if there was none. -/
theorem setFile_none_files {path : Path} :
    (st.setFile path none).files = st.files ↔ st.files path = none := by
  show Function.update st.files path none = st.files ↔ _
  rw [Function.update_eq_self_iff, eq_comm]

/-- The answer to a `GET` depends on the files and the tables only. -/
theorem Server.SameTables.processGet {after before : Server library}
    (same : after.SameTables before) (writes : List Fragment) :
    processGet dirTemplate after filename writes = processGet dirTemplate before filename writes := by
  rw [FileServer.processGet, FileServer.processGet, same.files, same.clientDictFilesize]

/-- A refused `PUT` has no effect exactly if nothing is stored under its name. -/
theorem refusedWithoutEffect_iff
    (step : Step library dirTemplate taken.before taken.action taken.after)
    (mismatched : Mismatched taken filename) :
    RefusedWithoutEffect dirTemplate filename taken ↔
      taken.before.files (getFilepath dirTemplate filename) = none := by
  obtain ⟨stale, sent, puts, different⟩ := mismatched
  have incomplete : ¬ SendsDeclared stale sent := fun complete => different complete.1
  -- The event is the header of this `PUT`, so what the server does is to refuse it.
  obtain ⟨fd, input, info, event, found, header, rfl, request⟩ := puts
  have executed := step.executed
  rw [event, runEpoll_refused found header (step.unbroken fd input event).1 request incomplete]
    at executed
  have after := (Prod.mk.inj (Option.some.inj executed)).1
  rw [RefusedWithoutEffect, ← after]
  constructor
  · intro unchanged
    -- The file of the name has been unlinked, so there was none.
    exact setFile_none_files.mp unchanged.2.1.files
  · intro absent
    have files := setFile_none_files.mpr absent
    have same : ((taken.before.setFile (getFilepath dirTemplate filename) none).setClient fd
        ⟨-2, some .put, filename⟩).SameTables taken.before := ⟨files, rfl, rfl, rfl⟩
    exact ⟨⟨fd, input, event, Server.setClient_same _ _ _⟩, same, same.processGet⟩

/--
In every run, all refused `PUT`s with a wrong number of bytes are without effect on the store exactly
if nothing is ever stored under their names when they come.
-/
theorem refused_puts_iff {trace : List (Transition (Server library) Action)}
    (run : Run (Step library dirTemplate) (start library) trace final) :
    (∀ taken ∈ trace, ∀ filename, Mismatched taken filename →
        RefusedWithoutEffect dirTemplate filename taken) ↔
      ∀ taken ∈ trace, ∀ filename, Mismatched taken filename →
        taken.before.files (getFilepath dirTemplate filename) = none := by
  -- The two sides agree on each step of the run.
  refine forall₂_congr fun taken member => forall₂_congr fun filename mismatched => ?_
  obtain ⟨step, _⟩ := run.split_at member
  exact refusedWithoutEffect_iff step mismatched

/-- A `PUT` of a new name that declares two bytes and sends one leaves nothing behind. -/
theorem refused_puts_iff_sample : ∃ trace final,
    Run (Step sampleLibrary sampleDir) (start sampleLibrary) trace final ∧
      (∃ taken ∈ trace, Mismatched taken [97]) ∧
      ∀ taken ∈ trace, ∀ filename, Mismatched taken filename →
        RefusedWithoutEffect sampleDir filename taken := by
  have refused := @runEpoll_refused sampleLibrary sampleDir
    ((start sampleLibrary).setClient 0 ⟨0, none, []⟩) [97] _ (sampleInput 2 [120]) ⟨0, none, []⟩ 0
    rfl rfl List.not_mem_nil sampleInput_request (by decide)
  -- The connection is opened first, and then its header is read.
  have run := Run.next (.next .start (.accept rfl (by simp [InMemory, start])))
    (sample_step refused (inMemory_of_names rfl (by decide)))
  refine ⟨_, _, run, ⟨_, List.mem_append_right _ (List.mem_singleton_self _), ?_⟩,
    (refused_puts_iff run).mpr fun taken member _ _ => ?_⟩
  · exact ⟨_, _, ⟨0, sampleInput 2 [120], _, rfl, rfl, rfl, rfl, sampleInput_request⟩, by decide⟩
  · simp only [List.nil_append, List.cons_append, List.mem_cons, List.not_mem_nil, or_false] at member
    rcases member with rfl | rfl <;> rfl

/-- A `PUT` of the stored name that sends too little is refused, and the stored file is gone. -/
theorem refused_overwrite : ∃ trace final,
    Run (Step sampleLibrary sampleDir) (start sampleLibrary) trace final ∧
      ∃ taken ∈ trace, Mismatched taken [97] ∧ ¬ RefusedWithoutEffect sampleDir [97] taken := by
  obtain ⟨trace, final, run, -, names, free, file⟩ := sample_run
  have refused := @runEpoll_refused sampleLibrary sampleDir (final.setClient 1 ⟨0, none, []⟩) [97] _
    (sampleInput 2 [121]) ⟨0, none, []⟩ 1 (Server.setClient_same _ _ _) rfl List.not_mem_nil
    sampleInput_request (by decide)
  have step := sample_step refused (inMemory_of_names names (by decide))
  refine ⟨_, _, .next (.next run (.accept free (inMemory_of_names names (by decide)))) step,
    _, List.mem_append_right _ (List.mem_singleton_self _), ?_, ?_⟩
  · exact ⟨_, _, ⟨1, sampleInput 2 [121], _, rfl, Server.setClient_same _ _ _, rfl, rfl,
      sampleInput_request⟩, by decide⟩
  · -- The file that was stored before is unlinked.
    intro unchanged
    have kept := unchanged.2.1.files
    have gone := setFile_none_files.mp kept
    rw [Server.setClient_sameTables.files, file] at gone
    cases gone

end SystemProgramming.FileServer
