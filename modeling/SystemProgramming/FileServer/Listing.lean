import SystemProgramming.FileServer.Replies
import SystemProgramming.FileServer.Store

/-! Listings: the announced size, the bytes that follow it, and the names in them. -/

namespace SystemProgramming.FileServer

open Foundations

variable {library : Library} {dirTemplate : Path} {before after final st : Server library}
  {event : Event} {filename : Name} {names : List Name} {fragments : List Fragment}

/-- The counter is the length of all names, and the names are plain and fit into memory. -/
structure Listed (st : Server library) : Prop where
  counted : st.filenameSize = (st.filenameVec.map List.length).sum
  plain : ∀ filename ∈ st.filenameVec, Plain filename
  inMemory : InMemory st

/-- Splitting a listing at its newlines; an empty one has no names. -/
def splitNames (listing : List UInt8) : List Name :=
  if listing = [] then [] else listing.splitOn newline

/-- The room for names with their ends is that for the names and one byte for each. -/
theorem room_eq : (names.map fun filename => filename.length + 1).sum =
    (names.map List.length).sum + names.length := by
  -- The end of each string takes one more byte.
  induction names with
  | nil => rfl
  | cons filename names ih =>
    simp only [List.map_cons, List.sum_cons, ih, List.length_cons]
    omega

/-- A listed name is part of the counted length, and is taken from it when it is erased. -/
theorem counted_erase (listed : filename ∈ names) :
    ((names.erase filename).map List.length).sum =
      (names.map List.length).sum - filename.length ∧
    filename.length ≤ (names.map List.length).sum := by
  -- The erased name and the others are a permutation of all names.
  have whole : (names.map List.length).sum =
      filename.length + ((names.erase filename).map List.length).sum :=
    ((List.perm_cons_erase listed).map List.length).sum_nat
  omega

/-- At first nothing is listed. -/
theorem start_listed : Listed (start library) where
  counted := rfl
  plain _ member := by cases member
  inMemory := by simp [InMemory, start]

/-- Every event keeps the counter right, even where names stay without a file or come twice. -/
theorem Listed.step {action : Action} (listed : Listed before)
    (step : Step library dirTemplate before action after) : Listed after := by
  -- Whatever an event does to the vector, it does to the counter.
  have memory := step.inMemory
  have room := listed.inMemory
  rw [InMemory, room_eq] at memory room
  have counted := listed.counted
  cases step.effect with
  -- Neither the vector nor the counter changes.
  | unchanged same =>
    exact ⟨by rw [same.filenameSize, same.filenameVec, counted],
      by rw [same.filenameVec]; exact listed.plain, step.inMemory⟩
  | stored filename stale sent puts complete same =>
    rw [same.filenameVec] at memory
    obtain ⟨fd, input, info, ready, _, _, _, request⟩ := puts
    have plain := step.plain fd input .put filename sent ready request (by decide)
    cases present : (before.files (getFilepath dirTemplate filename)).isSome with
    | true =>
      -- A file that was there before is in the list already, or was when it was stored first.
      rw [present] at same
      exact ⟨by rw [same.filenameSize, same.filenameVec]; exact counted,
        by rw [same.filenameVec]; exact listed.plain, step.inMemory⟩
    | false =>
      rw [present] at same memory
      have names : after.filenameVec = before.filenameVec ++ [filename] := same.filenameVec
      have size : after.filenameSize = (before.filenameSize + filename.length) % sizeRange :=
        same.filenameSize
      simp only [Server.record, Server.setFile, Bool.false_eq_true, if_false, List.map_append,
        List.sum_append, List.map_cons, List.map_nil, List.sum_cons, List.sum_nil] at memory
      refine ⟨?_, fun name member => ?_, step.inMemory⟩
      · rw [size, names, counted, List.map_append, List.sum_append]
        simp only [sizeRange, List.map_cons, List.map_nil, List.sum_cons, List.sum_nil]
        omega
      · rw [names] at member
        rcases List.mem_append.mp member with old | new
        · exact listed.plain name old
        · rw [List.mem_singleton.mp new]
          exact plain
  -- The name of a refused overwrite stays in the vector and in the counter.
  | refused filename stale sent puts incomplete same =>
    exact ⟨by rw [same.filenameSize, same.filenameVec]; exact counted,
      by rw [same.filenameVec]; exact listed.plain, step.inMemory⟩
  | deleted filename deletes file same =>
    -- A name that is in no list is not counted either.
    by_cases known : filename ∈ before.filenameVec
    · rw [if_pos known] at same
      have names : after.filenameVec = before.filenameVec.erase filename := same.filenameVec
      have size : after.filenameSize =
          (before.filenameSize + sizeRange - filename.length % sizeRange) % sizeRange :=
        same.filenameSize
      obtain ⟨rest, part⟩ := counted_erase known
      refine ⟨?_, fun name member => ?_, step.inMemory⟩
      · -- The counter holds the length of the name, so it does not run below zero.
        rw [size, names, rest, counted]
        simp only [sizeRange]
        omega
      · rw [names] at member
        exact listed.plain name (List.mem_of_mem_erase member)
    · rw [if_neg known] at same
      exact ⟨by rw [same.filenameSize, same.filenameVec]; exact counted,
        by rw [same.filenameVec]; exact listed.plain, step.inMemory⟩

/-- In every state that the server reaches, the counter is the length of all names. -/
theorem listed_of_run {trace : List (Transition (Server library) Action)}
    (run : Run (Step library dirTemplate) (start library) trace final) : Listed final :=
  -- The start is listed, and every step keeps it so.
  run.invariant start_listed fun _ _ _ listed step => listed.step step

/-- Without errors, several writes send all of their bytes in order. -/
theorem writeEach_eq {buffers : List (List UInt8)} (unbroken : Unbroken fragments) :
    writeEach fragments buffers = buffers.flatten := by
  -- Each write sends its whole buffer and leaves unbroken calls to the next.
  induction buffers generalizing fragments with
  | nil => rfl
  | cons buffer buffers ih =>
    obtain ⟨later, fine, sent⟩ := @writeAllToSocket_eq fragments buffer unbroken
    simp only [writeEach, sent, ih fine, List.flatten_cons]

/-- The names of a listing are separated by newlines. -/
theorem flatten_listingPieces : (listingPieces names).flatten = [newline].intercalate names := by
  -- The recursion writes a newline before each name but the first.
  induction names with
  | nil => rfl
  | cons filename names ih =>
    cases names with
    | nil => simp [listingPieces]
    | cons second names => simp [listingPieces, ih, List.intercalate]

/-- The length of a listing: that of all names, and a newline between two of them. -/
theorem length_listing : (listingPieces names).flatten.length =
    (names.map List.length).sum + (names.length - 1) := by
  -- Each name but the first has a newline in front of it.
  induction names with
  | nil => rfl
  | cons filename names ih =>
    cases names with
    | nil => simp [listingPieces]
    | cons second names =>
      simp only [listingPieces, List.flatten_cons, List.length_append, ih]
      simp only [List.map_cons, List.sum_cons, List.length_cons, List.length_nil]
      omega

/-- The announced size is the length of the listing. -/
theorem Listed.size (listed : Listed st) :
    listingSize st = (listingPieces st.filenameVec).flatten.length ∧
      listingSize st < 2 ^ 63 := by
  -- The counter does not wrap around, so the arithmetic of the `size_t` is exact.
  have room := listed.inMemory
  rw [InMemory, room_eq] at room
  rw [listingSize, length_listing, listed.counted]
  simp only [sizeRange]
  split
  · omega
  · omega

/-- Splitting a listing at its newlines gives back the names. -/
theorem splitNames_listing (plain : ∀ filename ∈ names, Plain filename) :
    splitNames (listingPieces names).flatten = names := by
  -- No name has a newline, so the newlines are those between the names.
  rw [flatten_listingPieces, splitNames]
  cases names with
  | nil => rfl
  | cons filename names =>
    have first := (plain filename List.mem_cons_self).nonempty
    rw [if_neg]
    · exact List.splitOn_intercalate newline (fun name member => (plain name member).newline) (by simp)
    · -- The first name has a byte, so the listing is not empty.
      cases names with
      | nil => simpa [List.intercalate] using first
      | cons second names => simp [List.intercalate, first]

/-- Carrying out a `LIST` sends the announced size and then the names. -/
theorem runEpoll_list {fd : Nat} {input : Input} {info : InfoClient}
    (found : st.clientDictionary fd = some info) (parsed : info.state = 1)
    (method : info.method = some .list) (unbroken : Unbroken input.writes) :
    runEpoll dirTemplate st (.ready fd input) = some (st.close fd,
      ⟨[], okReply ++ (littleEndian sizeBytes (listingSize st) ++
        (listingPieces st.filenameVec).flatten)⟩) := by
  -- Reply, size and names are written one after the other.
  have header : ¬ info.state = 0 := by omega
  simp only [runEpoll, found, if_neg header, if_pos parsed, processMethod, method,
    writeEach_eq unbroken, List.flatten_cons]

/--
In every state that the server reaches, the counter is the length of all names; and the reply to a
`LIST` announces exactly the bytes that follow, which the client reads as they are, and which give
back the names when they are split at newlines.
-/
theorem listing_framed {trace : List (Transition (Server library) Action)}
    (run : Run (Step library dirTemplate) (start library) trace final) :
    final.filenameSize = (final.filenameVec.map List.length).sum ∧
    ∀ fd input info, final.clientDictionary fd = some info → info.state = 1 →
      info.method = some .list → Unbroken input.writes →
      ∃ listing, runEpoll dirTemplate final (.ready fd input) = some (final.close fd,
          ⟨[], okReply ++ (littleEndian sizeBytes listing.length ++ listing)⟩) ∧
        listing.length < sizeRange ∧ splitNames listing = final.filenameVec ∧
        ∀ stale reads, Unbroken reads →
          handleResponse (handleList stale) reads
              (okReply ++ (littleEndian sizeBytes listing.length ++ listing)) =
            some ⟨listing, .complete⟩ := by
  have listed := listed_of_run run
  obtain ⟨size, small⟩ := listed.size
  refine ⟨listed.counted, fun fd input info found parsed method unbroken => ?_⟩
  have carried := @runEpoll_list _ dirTemplate _ _ input _ found parsed method unbroken
  rw [size] at carried small
  -- What the server sends is what the client reads behind the reply.
  refine ⟨_, carried, ?_, splitNames_listing listed.plain, fun stale reads calm => ?_⟩
  · simp only [sizeRange]
    omega
  · obtain ⟨later, fine, reply⟩ := @handleResponse_ok reads
      (littleEndian sizeBytes (listingPieces final.filenameVec).flatten.length ++
        (listingPieces final.filenameVec).flatten) (handleList stale) calm
    rw [reply]
    apply handleList_eq fine
    simp only [sizeRange]
    omega

/-- One stored file is counted by the length of its name. -/
theorem listing_framed_sample : ∃ trace final,
    Run (Step sampleLibrary sampleDir) (start sampleLibrary) trace final ∧
      final.filenameVec = [[97]] ∧ final.filenameSize = 1 := by
  -- The stored name has one byte.
  obtain ⟨trace, final, run, -, names, -⟩ := sample_run
  have counted := (listing_framed run).1
  rw [names] at counted
  exact ⟨trace, final, run, names, counted⟩

end SystemProgramming.FileServer
