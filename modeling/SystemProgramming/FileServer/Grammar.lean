import SystemProgramming.FileServer.Contents
import SystemProgramming.FileServer.HeaderBuffer

/-! The grammar of requests, and which headers the server takes for one. -/

namespace SystemProgramming.FileServer

open Foundations

/-- A file name that a header can carry. -/
structure InHeader (filename : Name) : Prop where
  nonempty : filename ≠ []
  newline : newline ∉ filename
  nul : (0 : UInt8) ∉ filename

/-- The grammar: the verb, and, except for a listing, one blank and a file name. -/
inductive Denotes : List UInt8 → Verb → Name → Prop
  | get {filename : Name} : InHeader filename →
      Denotes (ascii ['G', 'E', 'T', ' '] ++ (filename ++ [newline])) .get filename
  | put {filename : Name} : InHeader filename →
      Denotes (ascii ['P', 'U', 'T', ' '] ++ (filename ++ [newline])) .put filename
  | delete {filename : Name} : InHeader filename →
      Denotes (ascii ['D', 'E', 'L', 'E', 'T', 'E', ' '] ++ (filename ++ [newline])) .delete filename
  | list : Denotes (ascii ['L', 'I', 'S', 'T'] ++ [newline]) .list []

/-- `FILENAME_SIZE`. -/
abbrev filenameSize : Nat := 1024

/--
Where `info->filename` is written: by `strcpy`, with the zero byte at the end, and then at the last
character of the copy.
-/
def filenameWrites (copied : List UInt8) : List Int :=
  (List.range (copied.length + 1)).map Int.ofNat ++ [(copied.length : Int) - 1]

/-- The writes of `parse_request` to the file name. -/
def parseWrites (header : List UInt8) : List Int :=
  if header.take 3 = ascii ['P', 'U', 'T'] then filenameWrites (header.drop 4)
  else if header.take 3 = ascii ['G', 'E', 'T'] then filenameWrites (header.drop 4)
  else if header.take 6 = ascii ['D', 'E', 'L', 'E', 'T', 'E'] then filenameWrites (header.drop 7)
  else []

/-- The writes to the file name while the header of an input is processed. -/
def Input.filenameWrites (input : Input) : List Int :=
  match readHeader (input.reads.length + input.stream.length + 1) input.reads input.stream [] with
  | some (.line header _ _) => parseWrites header
  | _ => []

variable {library : Library}

variable {dirTemplate : Path} {st : Server library} {fd : Nat} {info : InfoClient} {input : Input}
  {header line body stream : List UInt8} {fragments later : List Fragment} {verb : Verb}
  {filename : Name}

/-- What the grammar gives is what the client writes for the verb and the name. -/
theorem Denotes.requestBuff (denotes : Denotes header verb filename) :
    requestBuff verb filename = header := by
  cases denotes <;> simp [FileServer.requestBuff, Verb.text, ascii]

/-- The header that the client writes denotes its verb and its name. -/
theorem denotes_requestBuff (named : verb ≠ .list) (carried : InHeader filename) :
    Denotes (requestBuff verb filename) verb filename := by
  cases verb with
  | list => exact absurd rfl named
  | get => exact .get carried
  | put => exact .put carried
  | delete => exact .delete carried

/-- What a header denotes has no zero byte. -/
theorem Denotes.nul (denotes : Denotes header verb filename) : (0 : UInt8) ∉ header := by
  have around {text : List UInt8} (clean : (0 : UInt8) ∉ text) (carried : InHeader filename) :
      (0 : UInt8) ∉ text ++ (filename ++ [newline]) := by
    intro member
    rcases List.mem_append.mp member with inText | rest
    · exact clean inText
    · rcases List.mem_append.mp rest with inName | last
      · exact carried.nul inName
      · exact absurd (List.mem_singleton.mp last) (by decide)
  cases denotes with
  | get carried => exact around (by decide) carried
  | put carried => exact around (by decide) carried
  | delete carried => exact around (by decide) carried
  | list => decide

/-- The tests of `parse_request` find the verb and the name that the header denotes. -/
theorem Denotes.parseHeader (denotes : Denotes header verb filename) :
    parseHeader header = some (verb, filename) := by
  cases denotes <;> simp [FileServer.parseHeader, ascii]

/-- A copy that is not empty, and shorter than the file name, is written inside the file name. -/
theorem filenameWrites_inside {copied : List UInt8} (some : copied ≠ [])
    (short : copied.length < filenameSize) :
    ∀ index ∈ filenameWrites copied, 0 ≤ index ∧ index < filenameSize := by
  have positive := List.length_pos_iff.mpr some
  intro index member
  rcases List.mem_append.mp member with copy | last
  · obtain ⟨place, inside, rfl⟩ := List.mem_map.mp copy
    rw [List.mem_range] at inside
    simp only [Int.ofNat_eq_natCast]
    omega
  · rw [List.mem_singleton.mp last]
    omega

/-- The file name of a header in the grammar has room. -/
theorem Denotes.writes (denotes : Denotes header verb filename)
    (short : header.length < headerSize) :
    ∀ index ∈ parseWrites header, 0 ≤ index ∧ index < filenameSize := by
  have bounded : (filename ++ [newline]).length < filenameSize := by
    cases denotes <;>
      simp only [ascii, List.length_append, List.length_map, List.length_cons, List.length_nil,
        headerSize, filenameSize] at short ⊢ <;> omega
  have written := filenameWrites_inside (List.append_ne_nil_of_right_ne_nil filename
    (List.cons_ne_nil newline [])) bounded
  -- The copy is the file name with the newline behind it.
  cases denotes with
  | get => exact written
  | put => exact written
  | delete => exact written
  | list =>
    intro index member
    cases member

section Events

variable (found : st.clientDictionary fd = some info) (waiting : info.state = 0)

include found waiting

end Events

section Lines

variable (found : st.clientDictionary fd = some info) (waiting : info.state = 0)
  (unbroken : Unbroken input.reads) (single : newline ∉ line)
  (sent : input.stream = line ++ newline :: body)

include found waiting unbroken single sent

end Lines

/-- A connection over which one line is sent. -/
def sampleLine (line : List UInt8) : Input where
  stale := []
  reads := []
  stream := line ++ [newline]
  writes := []

end SystemProgramming.FileServer
