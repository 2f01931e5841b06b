import SystemProgramming.FileServer.Requests
import Mathlib.Data.List.Nodup

/-! The store of the file server: its names, its files, and the sizes it remembers. -/

namespace SystemProgramming.FileServer

open Foundations

variable {library : Library} {dirTemplate : Path} {before after st : Server library}
  {event : Event} {filename other : Name} {stale sent : List UInt8}

/-- An event with its outcome. -/
structure Action where
  event : Event
  outcome : Outcome
  deriving DecidableEq, Repr

/-- The names that the server keeps, with their ends, are in memory, which is half of all addresses. -/
def InMemory (st : Server library) : Prop :=
  (st.filenameVec.map fun filename => filename.length + 1).sum < 2 ^ 63

/--
One event of the server: no transfer fails, requests have plain names, and the tables fit into
memory.
-/
structure Step (library : Library) (dirTemplate : Path) (before : Server library) (action : Action)
    (after : Server library) : Prop where
  executed : runEpoll dirTemplate before action.event = some (after, action.outcome)
  unbroken : ∀ fd input, action.event = .ready fd input →
    Unbroken input.reads ∧ Unbroken input.writes
  plain : ∀ fd input verb filename sent, action.event = .ready fd input →
    input.request = some (verb, filename, sent) → verb ≠ .list → Plain filename
  inMemory : InMemory after

/-- A step has one of the effects. -/
theorem Step.effect {action : Action} (step : Step library dirTemplate before action after) :
    Effect dirTemplate before action.event after :=
  effect_of_runEpoll (fun fd input same => (step.unbroken fd input same).1) step.executed

/-- The names, the files in the directory and the remembered sizes agree. -/
structure Consistent (dirTemplate : Path) (st : Server library) : Prop where
  distinct : st.filenameVec.Nodup
  present : ∀ filename, filename ∈ st.filenameVec ↔
    st.files (getFilepath dirTemplate filename) ≠ none
  sizes : ∀ filename, library.get st.clientDictFilesize filename =
    (st.files (getFilepath dirTemplate filename)).map List.length

/-- Different names have different paths. -/
theorem getFilepath_inj : getFilepath dirTemplate other = getFilepath dirTemplate filename ↔
    other = filename := by
  -- The directory and the slash are the same in both paths.
  rw [getFilepath, getFilepath, List.append_cancel_left_eq, List.cons.injEq]
  exact and_iff_right rfl

/-- The file of a name after one was stored or unlinked. -/
theorem files_setFile {content : Option (List UInt8)} :
    (st.setFile (getFilepath dirTemplate filename) content).files (getFilepath dirTemplate other) =
      if other = filename then content else st.files (getFilepath dirTemplate other) := by
  -- Only the path of the name changes, and other names have other paths.
  show Function.update _ _ _ _ = _
  rw [Function.update_apply]
  simp only [getFilepath_inj]

/-- The names after a file was stored. -/
theorem mem_record {fileSize : Nat} {isExisted : Bool} :
    other ∈ (st.record filename fileSize isExisted).filenameVec ↔
      other ∈ st.filenameVec ∨ (isExisted = false ∧ other = filename) := by
  -- The name is added exactly if there was no file.
  simp only [Server.record]
  cases isExisted <;> simp

/-- A `PUT` that is accepted keeps the store consistent. -/
theorem Consistent.store (consistent : Consistent dirTemplate st) {content : List UInt8}
    (small : content.length < sizeRange) :
    Consistent dirTemplate ((st.setFile (getFilepath dirTemplate filename) (some content)).record
      filename content.length (st.files (getFilepath dirTemplate filename)).isSome) := by
  -- A name is in the list exactly if its file was there before.
  have there : filename ∈ st.filenameVec ↔
      (st.files (getFilepath dirTemplate filename)).isSome = true := by
    rw [consistent.present, Option.ne_none_iff_isSome]
  refine ⟨?_, fun other => ?_, fun other => ?_⟩
  · -- The name is added only if no file was there, and then it was not in the list.
    simp only [Server.record]
    split
    · exact consistent.distinct
    next new =>
      have absent : filename ∉ st.filenameVec := fun listed => new (there.mp listed)
      exact List.nodup_append.mpr ⟨consistent.distinct, by simp, by
        intro name listed _ same equal
        rw [equal, List.mem_singleton.mp same] at listed
        exact absent listed⟩
  · -- The names and the files gain the same name, if any.
    rw [mem_record]
    show other ∈ st.filenameVec ∨ _ ↔ (st.setFile _ _).files _ ≠ none
    rw [files_setFile]
    by_cases same : other = filename
    · -- The name is in the list already, or it is added now.
      subst same
      rw [if_pos rfl, there]
      cases (st.files (getFilepath dirTemplate other)).isSome <;> simp
    · rw [if_neg same, consistent.present]
      exact or_iff_left fun added => same added.2
  · -- The size is set for the stored file, and the others keep theirs.
    show library.get (library.set st.clientDictFilesize filename content.length) other =
      ((st.setFile _ _).files _).map List.length
    rw [files_setFile, library.get_set _ _ _ _ small]
    split
    · rfl
    · exact consistent.sizes other

/-- Unlinking the file of a name that is not listed changes nothing. -/
theorem Consistent.refuse (consistent : Consistent dirTemplate st)
    (absent : st.files (getFilepath dirTemplate filename) = none) :
    Consistent dirTemplate (st.setFile (getFilepath dirTemplate filename) none) := by
  -- The file was not there, so unlinking it changes no file.
  have files : ∀ other, (st.setFile (getFilepath dirTemplate filename) none).files
      (getFilepath dirTemplate other) = st.files (getFilepath dirTemplate other) := by
    intro other
    rw [files_setFile]
    split
    next same => rw [same, absent]
    · rfl
  refine ⟨consistent.distinct, fun other => ?_, fun other => ?_⟩
  · rw [files]
    exact consistent.present other
  · rw [files]
    exact consistent.sizes other

/-- A `DELETE` keeps the store consistent. -/
theorem Consistent.delete (consistent : Consistent dirTemplate st) :
    Consistent dirTemplate
      ((st.setFile (getFilepath dirTemplate filename) none).forget filename) := by
  refine ⟨consistent.distinct.erase filename, fun other => ?_, fun other => ?_⟩
  · -- The name was listed once, so it is not listed any more.
    show other ∈ st.filenameVec.erase filename ↔ (st.setFile _ _).files _ ≠ none
    rw [consistent.distinct.mem_erase_iff, files_setFile, consistent.present]
    by_cases same : other = filename <;> simp [same]
  · -- The size is forgotten together with the file.
    show library.get (library.remove st.clientDictFilesize filename) other =
      ((st.setFile _ _).files _).map List.length
    rw [files_setFile, library.get_remove]
    split
    · rfl
    · exact consistent.sizes other

/-- An event is the header of one `PUT` at most. -/
theorem Server.Puts.unique {again : Name} {old more : List UInt8}
    (puts : st.Puts event filename stale sent) (second : st.Puts event again old more) :
    again = filename ∧ old = stale ∧ more = sent := by
  -- The event has one input, and this has one request.
  obtain ⟨fd, input, info, rfl, found, _, kept, request⟩ := puts
  obtain ⟨_, same, other⟩ := (puts_iff found).mp second
  rw [request] at other
  simp only [Option.some.injEq, Prod.mk.injEq] at other
  exact ⟨other.2.1.symm, same.symm.trans kept, other.2.2.symm⟩

/-- A dictionary as a function, and short texts. -/
def sampleLibrary : Library where
  Dictionary := Name → Option Nat
  create _ := none
  get dictionary filename := dictionary filename
  set dictionary filename size := Function.update dictionary filename (some size)
  remove dictionary filename := Function.update dictionary filename none
  get_create _ := rfl
  get_set _ _ _ _ _ := Function.update_apply _ _ _ _
  get_remove _ _ _ := Function.update_apply _ _ _ _
  errBadRequest := [1]
  errBadFileSize := [2]
  errNoSuchFile := [3]

/-- The directory of the sample. -/
abbrev sampleDir : Path := ascii ['d']

/-- A `PUT` of the file `a` that declares a size and sends some bytes. -/
def sampleInput (declared : Nat) (body : List UInt8) : Input where
  stale := []
  reads := []
  stream := requestBuff .put [97] ++ (littleEndian sizeBytes declared ++ body)
  writes := []

/-- Whether the tables fit into memory depends on the names only. -/
theorem inMemory_of_names {names : List Name} (same : st.filenameVec = names)
    (small : (names.map fun filename => filename.length + 1).sum < 2 ^ 63) : InMemory st := by
  rw [InMemory, same]
  exact small

/-- Opening a connection is a step. -/
theorem Step.accept {fd : Nat} (free : before.clientDictionary fd = none)
    (inMemory : InMemory before) :
    Step library dirTemplate before ⟨.accept fd, ⟨[], []⟩⟩ (before.setClient fd ⟨0, none, []⟩) where
  executed := if_pos free
  unbroken _ _ same := by cases same
  plain _ _ _ _ _ same := by cases same
  inMemory := inMemory

/-- The request of a sample `PUT`. -/
theorem sampleInput_request {declared : Nat} {body : List UInt8} :
    (sampleInput declared body).request =
      some (.put, [97], littleEndian sizeBytes declared ++ body) :=
  request_eq (by decide) List.not_mem_nil (by decide) (by decide) rfl

/-- A sample `PUT` is a step. -/
theorem sample_step {fd declared : Nat} {body : List UInt8} {outcome : Outcome}
    (executed : runEpoll dirTemplate before (.ready fd (sampleInput declared body)) =
      some (after, outcome))
    (inMemory : InMemory after) :
    Step library dirTemplate before ⟨.ready fd (sampleInput declared body), outcome⟩ after where
  -- The input has no failing call, and its request names the file `a`.
  executed := executed
  unbroken _ _ same := by
    cases same
    exact ⟨List.not_mem_nil, List.not_mem_nil⟩
  plain _ _ verb filename sent same request _ := by
    cases same
    rw [sampleInput_request] at request
    simp only [Option.some.injEq, Prod.mk.injEq] at request
    rw [← request.2.1]
    decide
  inMemory := inMemory

/-- A first connection, and a `PUT` of one byte over it. -/
theorem sample_run : ∃ trace final,
    Run (Step sampleLibrary sampleDir) (start sampleLibrary) trace final ∧
      (∀ taken ∈ trace, ∀ path, taken.before.files path = none) ∧
      final.filenameVec = [[97]] ∧ final.clientDictionary 1 = none ∧
      final.files (getFilepath sampleDir [97]) = some [120] := by
  -- The body is as long as it was declared.
  have stored := @runEpoll_stored sampleLibrary sampleDir
    ((start sampleLibrary).setClient 0 ⟨0, none, []⟩) [97] _ (sampleInput 1 [120]) ⟨0, none, []⟩ 0
    rfl rfl List.not_mem_nil sampleInput_request (by decide)
  -- The connection is opened first, and then its header is read.
  refine ⟨_, _, .next (.next .start (.accept rfl (by simp [InMemory, start])))
    (sample_step stored (inMemory_of_names rfl (by decide))), ?_, rfl, rfl, ?_⟩
  swap
  · rw [Server.setClient_sameTables.files, Server.record_files, files_setFile, if_pos rfl]
    rfl
  intro taken member path
  simp only [List.nil_append, List.cons_append, List.mem_cons, List.not_mem_nil, or_false] at member
  rcases member with rfl | rfl <;> rfl

end SystemProgramming.FileServer
