import SystemProgramming.FileServer.Store

/-! The end of the file server: what an interrupt leaves in its directory. -/

namespace SystemProgramming.FileServer

open Foundations

variable {library : Library} {dirTemplate path : Path} {before after st final : Server library}
  {filename : Name} {trace : List (Transition (Server library) Action)}

/--
Where `server_end` interrupts the server: while it waits for an event, while it receives the file
of a `PUT`, or after it unlinked a file and before it changes its tables.
-/
inductive Interrupt where
  | waiting
  | receiving (filename : Name) (part : List UInt8)
  | unlinked (filename : Name)
  deriving DecidableEq, Repr

/-- The server as `clean_up` finds it. -/
def Server.interrupted (dirTemplate : Path) (st : Server library) : Interrupt → Server library
  | .waiting => st
  | .receiving filename part => st.setFile (getFilepath dirTemplate filename) (some part)
  | .unlinked filename => st.setFile (getFilepath dirTemplate filename) none

/-- Every file belongs to a listed name. -/
def AllListed (dirTemplate : Path) (st : Server library) : Prop :=
  ∀ path, st.files path ≠ none → ∃ filename ∈ st.filenameVec, path = getFilepath dirTemplate filename

/-- The file at a path after one was stored or unlinked. -/
theorem files_setFile_path {content : Option (List UInt8)} :
    (st.setFile (getFilepath dirTemplate filename) content).files path =
      if path = getFilepath dirTemplate filename then content else st.files path :=
  Function.update_apply _ _ _ _

/-- Storing a file under a listed name, or unlinking a file, keeps the files listed. -/
theorem AllListed.setFile (all : AllListed dirTemplate st) (content : Option (List UInt8))
    (listed : content ≠ none → filename ∈ st.filenameVec) :
    AllListed dirTemplate (st.setFile (getFilepath dirTemplate filename) content) := by
  intro path there
  rw [files_setFile_path] at there
  -- The file is the one that was stored, or an older one.
  split at there
  next same => exact ⟨filename, listed there, same⟩
  next => exact all path there

/-- More names list no fewer files. -/
theorem AllListed.mono (all : AllListed dirTemplate before) (files : after.files = before.files)
    (names : ∀ filename ∈ before.filenameVec, filename ∈ after.filenameVec) :
    AllListed dirTemplate after := by
  intro path there
  rw [files] at there
  obtain ⟨filename, listed, same⟩ := all path there
  exact ⟨filename, names filename listed, same⟩

/-- Every step keeps that the files are listed, also one that takes a listed name its file. -/
theorem AllListed.step {action : Action} (all : AllListed dirTemplate before)
    (step : Step library dirTemplate before action after) : AllListed dirTemplate after := by
  -- The files change in three ways only.
  cases step.effect with
  | unchanged same => exact all.mono same.files fun _ => same.filenameVec ▸ id
  | stored filename stale sent puts complete same =>
    intro path there
    rw [same.files, Server.record_files] at there
    rw [same.filenameVec]
    by_cases own : path = getFilepath dirTemplate filename
    · -- The name is added if there was no file, and else it was listed before.
      subst own
      refine ⟨filename, mem_record.mpr ?_, rfl⟩
      cases old : before.files (getFilepath dirTemplate filename) with
      | none => exact .inr ⟨rfl, rfl⟩
      | some content =>
        obtain ⟨other, listed, equal⟩ := all _ (old ▸ Option.some_ne_none content)
        exact .inl (getFilepath_inj.mp equal ▸ listed)
    · rw [files_setFile_path, if_neg own] at there
      obtain ⟨other, listed, equal⟩ := all path there
      exact ⟨other, mem_record.mpr (.inl listed), equal⟩
  | refused filename stale sent puts incomplete same =>
    -- The name may stay in the list without a file, which does no harm here.
    exact (all.setFile none (absurd rfl)).mono same.files fun _ => same.filenameVec ▸ id
  | deleted filename deletes file same =>
    have unlinked := @AllListed.setFile _ _ _ filename all none (absurd rfl)
    split at same
    · intro path there
      rw [same.files, Server.forget_files] at there
      obtain ⟨other, listed, rfl⟩ := unlinked path there
      -- Only the name of the file that is gone leaves the list.
      have different : other ≠ filename := by
        rintro rfl
        rw [files_setFile, if_pos rfl] at there
        exact there rfl
      rw [same.filenameVec]
      exact ⟨other, (List.mem_erase_of_ne different).mpr listed, rfl⟩
    · exact unlinked.mono same.files fun _ => same.filenameVec ▸ id

end SystemProgramming.FileServer
