import SystemProgramming.FileServer.Replies
import SystemProgramming.FileServer.Store

/-! Contents: what a `GET` returns is what the last `PUT` stored. -/

namespace SystemProgramming.FileServer

open Foundations

variable {library : Library} {dirTemplate : Path} {before after final st : Server library}
  {event : Event} {filename other : Name} {stale sent content : List UInt8}
  {taken : Transition (Server library) Action} {input : Input} {info : InfoClient} {fd : Nat}

/-- The size that is remembered for a file is its length, and five more is still a `size_t`. -/
def Known (dirTemplate : Path) (st : Server library) : Prop :=
  ∀ filename file, st.files (getFilepath dirTemplate filename) = some file →
    library.get st.clientDictFilesize filename = some file.length ∧ file.length + 5 < sizeRange

section Storing

/-- An event carries out a `DELETE` of one name at most. -/
theorem Server.Deletes.unique (deletes : st.Deletes event filename)
    (again : st.Deletes event other) : other = filename := by
  obtain ⟨fd, input, info, rfl, found, -, -, rfl⟩ := deletes
  exact ((deletes_iff found).mp again).2.2.symm

end Storing

section Sizes

/-- The server that has only kept connections apart knows the same sizes. -/
theorem Known.of_sameTables (known : Known dirTemplate before) (same : after.SameTables before) :
    Known dirTemplate after := by
  intro filename file found
  rw [same.files] at found
  rw [same.clientDictFilesize]
  exact known filename file found

/-- Unlinking a file keeps the sizes of the others. -/
theorem Known.unlink (known : Known dirTemplate st) :
    Known dirTemplate (st.setFile (getFilepath dirTemplate filename) none) := by
  -- The file that is gone needs no size any more.
  intro name file found
  rw [files_setFile] at found
  split at found
  · cases found
  · exact known name file found

/-- Every event keeps the sizes of the files that are there. -/
theorem Known.step {action : Action} (known : Known dirTemplate before)
    (step : Step library dirTemplate before action after) : Known dirTemplate after := by
  -- A size changes only together with its file.
  cases step.effect with
  | unchanged same => exact known.of_sameTables same
  | stored filename stale sent puts complete same =>
    refine Known.of_sameTables (fun name file found => ?_) same
    rw [Server.record_files, files_setFile] at found
    have exact := complete.1
    have fits := complete.2
    have small : (sent.drop sizeBytes).length < sizeRange := by omega
    show library.get (library.set _ _ _) _ = _ ∧ _
    rw [library.get_set _ _ _ _ small]
    -- The stored file has the size that was declared, and the others are as before.
    split at found
    next equal =>
      obtain rfl := Option.some.inj found
      rw [if_pos equal, exact]
      exact ⟨rfl, fits⟩
    next different =>
      rw [if_neg different]
      exact known name file found
  | refused filename stale sent puts incomplete same => exact known.unlink.of_sameTables same
  | deleted filename deletes file same =>
    refine Known.of_sameTables ?_ same
    split
    · -- The size is forgotten together with the file.
      intro name file found
      rw [Server.forget_files, files_setFile] at found
      show library.get (library.remove _ _) _ = _ ∧ _
      rw [library.get_remove]
      split at found
      · cases found
      next different =>
        rw [if_neg different]
        exact known name file found
    · exact known.unlink

end Sizes

section Answers

variable {writes : List Fragment} {file : List UInt8}

/-- Without errors, a file of a known size is sent as a whole. -/
theorem processGet_found (unbroken : Unbroken writes)
    (found : st.files (getFilepath dirTemplate filename) = some file)
    (known : library.get st.clientDictFilesize filename = some file.length) :
    processGet dirTemplate st filename writes = some (true,
      ⟨[.fopen (getFilepath dirTemplate filename) ['r']],
        okReply ++ (littleEndian sizeBytes file.length ++ file)⟩) := by
  -- The three writes follow each other, and each leaves unbroken calls to the next.
  obtain ⟨first, fine, reply⟩ := @writeAllToSocket_eq writes okReply unbroken
  obtain ⟨second, calm, size⟩ :=
    @writeAllToSocket_eq first (littleEndian sizeBytes file.length) fine
  obtain ⟨last, -, body⟩ := @localfileWrite_eq second file file.length (file.length + 1) calm
    (Nat.lt_succ_self _)
  rw [List.take_length] at body
  simp only [processGet, found, known, reply, size, body, Option.isSome_some, List.append_assoc]

/-- A `GET` of a file of a known size is answered with the file, and the connection is closed. -/
theorem runEpoll_get (connected : st.clientDictionary fd = some info) (parsed : info.state = 1)
    (method : info.method = some .get) (unbroken : Unbroken input.writes)
    (found : st.files (getFilepath dirTemplate info.filename) = some file)
    (known : library.get st.clientDictFilesize info.filename = some file.length) :
    runEpoll dirTemplate st (.ready fd input) = some (st.close fd,
      ⟨[.fopen (getFilepath dirTemplate info.filename) ['r']],
        okReply ++ (littleEndian sizeBytes file.length ++ file)⟩) := by
  -- The request is carried out in state 1.
  have header : ¬ info.state = 0 := by omega
  simp only [runEpoll, connected, if_neg header, if_pos parsed, processMethod, method,
    processGet_found unbroken found known]

/-- A `GET` of a file that is not there sends nothing yet; the next event sends the error. -/
theorem runEpoll_get_missing (connected : st.clientDictionary fd = some info)
    (parsed : info.state = 1) (method : info.method = some .get)
    (missing : st.files (getFilepath dirTemplate info.filename) = none) :
    runEpoll dirTemplate st (.ready fd input) = some (st.setClient fd { info with state := -3 },
      ⟨[.fopen (getFilepath dirTemplate info.filename) ['r']], []⟩) := by
  -- `fopen` returns `NULL`, so nothing is sent and the state becomes -3.
  have header : ¬ info.state = 0 := by omega
  simp only [runEpoll, connected, if_neg header, if_pos parsed, processMethod, method, processGet,
    missing]

end Answers

end SystemProgramming.FileServer
