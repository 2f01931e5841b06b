import SystemProgramming.Lookup.Lookup2

/-! Looking up a word in a file that is read through a window, beside the lookup in the mapped file. -/

namespace SystemProgramming.Lookup

open Foundations Foundations.Strings

/-- A `BinaryTreeNode`: two children, a count and a price in front, and then the word. -/
structure BinaryTreeNode extends Layout where
  count : Nat
  price : Nat
  leftChild_within : leftChild + 4 ≤ word
  rightChild_within : rightChild + 4 ≤ word
  count_within : count + 4 ≤ word
  price_within : price + 4 ≤ word

/-- `sizeof(BinaryTreeNode)`: the word has no room of its own in it. -/
def BinaryTreeNode.size (node : BinaryTreeNode) : Nat := node.word

/-- What `printFound` is given: the word, the count and the bits of the price. -/
structure Found where
  word : List UInt8
  count : Nat
  price : Nat
  deriving DecidableEq, Repr

/-- An open `FILE`, and the place in it where the next byte is read. -/
structure File where
  bytes : List UInt8
  position : Nat

/-- `fseek` from the start of the file; the place may lie behind its end. -/
def fseek (file : File) (place : Nat) : File := { file with position := place }

/--
`fread` of one item that fills a buffer. Where the file ends before, the bytes that are there are
read, and the rest of the buffer keeps what it had.
-/
def fread (file : File) (buffer : Block) : Block × File :=
  let bytes := (file.bytes.drop file.position).take buffer.length
  (bytes.map some ++ buffer.drop bytes.length,
    { file with position := file.position + bytes.length })

/-- A local variable, whose bytes are undefined before something is read into it. -/
def uninitialised (size : Nat) : Block := List.replicate size none

/-- Four bytes of a structure, as a `uint32_t`; undefined if one of them is. -/
def uint32Field (record : Block) (place : Nat) : Option Nat :=
  (((record.drop place).take 4).mapM id).map ofLittleEndian

/--
`search` of `lookup1`, with a bound on the depth of the recursion: what it prints, if it finds the
word. Undefined are the bytes that were not read, and what lies behind the window.
-/
def searchFile (node : BinaryTreeNode) (word : List UInt8) : Nat → File → Nat → Option (Option Found)
  | 0, _, _ => none
  | fuel + 1, file, offset =>
    if offset = 0 then some none
    else
      let file := fseek file offset
      let (newNode, file) := fread file (uninitialised node.size)
      let file := fseek file (node.size + offset)
      let (temp, file) := fread file (uninitialised 10)
      (strcmp (argument word) temp).bind fun result =>
        if result = 0 then
          (text temp).bind fun word =>
            (uint32Field newNode node.count).bind fun count =>
              (uint32Field newNode node.price).map fun price => some ⟨word, count, price⟩
        else if result < 0 then
          (uint32Field newNode node.leftChild).bind fun child =>
            searchFile node word fuel file child
        else
          (uint32Field newNode node.rightChild).bind fun child =>
            searchFile node word fuel file child

/-- What `main` of `lookup1` reports of one of its words; the file is open, and the root is at 4. -/
def lookup1 (node : BinaryTreeNode) (file : File) (word : List UInt8) (fuel : Nat) :
    Option (Option Found) :=
  searchFile node word fuel file 4

/-- What `main` of `lookup2` prints of the node that is found. -/
def printNode (node : BinaryTreeNode) (file : List UInt8) : Option Nat → Option (Option Found)
  | none => some none
  | some place =>
    (text (memoryAt file (place + node.word))).bind fun word =>
      (readUInt32 file (place + node.count)).bind fun count =>
        (readUInt32 file (place + node.price)).map fun price => some ⟨word, count, price⟩

/-- What `main` of `lookup2` reports of one of its words. -/
def lookup2 (node : BinaryTreeNode) (file word : List UInt8) (fuel : Nat) : Option (Option Found) :=
  (search node.toLayout file word fuel 4).bind (printNode node file)

/-- The format test of `main`: what `strcmp` yields of the first four bytes. -/
def compareFormat (file : File) : Option Int :=
  strcmp (fread file (uninitialised 4)).1 (argument [66, 84, 82, 69])

section Windows

variable {node : BinaryTreeNode} {file : File} {place size : Nat} {bytes word : List UInt8}
  {rest : Block}

@[simp] theorem fseek_bytes : (fseek file place).bytes = file.bytes := rfl

@[simp] theorem fread_bytes (buffer : Block) : (fread file buffer).2.bytes = file.bytes := rfl

/-- A window holds the first bytes at its place, and nothing is known of the rest of it. -/
theorem window (file : File) (place size : Nat) :
    ∃ rest, (fread (fseek file place) (uninitialised size)).1 =
        (memoryAt file.bytes place).take size ++ rest ∧
      (size ≤ (memoryAt file.bytes place).length → rest = []) := by
  have buffered : (uninitialised size).length = size := List.length_replicate
  refine ⟨(uninitialised size).drop ((file.bytes.drop place).take size).length, ?_, ?_⟩
  · simp only [fread, fseek, memoryAt, buffered, List.map_take]
  · intro full
    apply List.drop_eq_nil_of_le
    rw [memoryAt, List.length_map] at full
    rw [buffered, List.length_take]
    omega

/-- Bytes that are all there can be taken together. -/
theorem mapM_some (bytes : List UInt8) : (bytes.map some).mapM id = some bytes := by
  induction bytes with
  | nil => rfl
  | cons byte bytes ih => simp [List.mapM_cons, ih]

/-- A field of a structure that was read whole is what the file holds there. -/
theorem uint32Field_window {field : Nat} (inside : field + 4 ≤ size)
    (whole : place + size ≤ bytes.length) :
    uint32Field ((memoryAt bytes place).take size ++ rest) field = readUInt32 bytes (place + field) ∧
      (readUInt32 bytes (place + field)).isSome := by
  have fits : place + field + 4 ≤ bytes.length := by omega
  have long : ((memoryAt bytes place).take size).length = size := by
    rw [memoryAt, List.length_take, List.length_map, List.length_drop]
    omega
  rw [readUInt32, if_pos fits]
  refine ⟨?_, rfl⟩
  -- What follows in the buffer lies behind the field.
  have four : ((((memoryAt bytes place).take size ++ rest).drop field).take 4) =
      (((bytes.drop (place + field)).take 4).map some) := by
    rw [List.drop_append_of_le_length (by omega), List.take_append_of_le_length (by
      rw [List.length_drop]; omega), memoryAt, List.drop_take, List.take_take,
      Nat.min_eq_left (by omega), ← List.map_drop, List.drop_drop, ← List.map_take]
  rw [uint32Field, four, mapM_some, Option.map_some]

/-- A word that can be read has all of the structure before it in the file. -/
theorem structure_inside (holds : text (memoryAt bytes (place + size)) = some word) :
    place + size ≤ bytes.length := by
  obtain ⟨_, rest, same⟩ := text_eq_some holds
  have long := congrArg List.length same
  simp only [memoryAt, List.length_map, List.length_drop, List.length_append, List.length_cons] at long
  omega

/-- The node that is found is printed with its word. -/
theorem printNode_eq (holds : text (memoryAt bytes (place + node.word)) = some word) :
    ∃ count price, readUInt32 bytes (place + node.count) = some count ∧
      readUInt32 bytes (place + node.price) = some price ∧
      printNode node bytes (some place) = some (some ⟨word, count, price⟩) := by
  have inside := structure_inside holds
  obtain ⟨count, readCount⟩ :=
    Option.isSome_iff_exists.mp (@uint32Field_window _ _ _ [] _ node.count_within inside).2
  obtain ⟨price, readPrice⟩ :=
    Option.isSome_iff_exists.mp (@uint32Field_window _ _ _ [] _ node.price_within inside).2
  refine ⟨count, price, readCount, readPrice, ?_⟩
  rw [printNode, holds, Option.bind_some, readCount, Option.bind_some, readPrice, Option.map_some]

end Windows

section Agreement

variable {node : BinaryTreeNode} {file : File} {tree : SearchTree Nat (List UInt8)}
  {word key : List UInt8} {offset fuel : Nat}

/-- The window of ten characters tells a word from the one that is looked up. -/
def Fits (word key : List UInt8) : Prop := key.length < 10 ∨ ¬ key.take 10 <+: word

instance decidableFits (word key : List UInt8) : Decidable (Fits word key) :=
  inferInstanceAs (Decidable (_ ∨ _))

/-- Every node that a file encodes has its word in the file. -/
theorem Encodes.text_of_mem {layout : Layout} {bytes : List UInt8} {place : Nat}
    (encodes : Encodes layout bytes offset tree) (member : (place, word) ∈ tree.entries) :
    text (memoryAt bytes (place + layout.word)) = some word := by
  induction tree generalizing offset with
  | nil => cases member
  | node label key left right ihLeft ihRight =>
    obtain ⟨_, rfl, holds, ⟨leftChild, _, encodesLeft⟩, rightChild, _, encodesRight⟩ := encodes
    rw [SearchTree.entries, List.mem_append, List.mem_cons] at member
    rcases member with inLeft | here | inRight
    · exact ihLeft encodesLeft inLeft
    · obtain ⟨rfl, rfl⟩ := Prod.mk.inj here
      exact holds
    · exact ihRight encodesRight inRight

/-- A comparison with the window is the one with the word in the file, or it leaves the window. -/
theorem compare_window {place : Nat} (plain : (0 : UInt8) ∉ word)
    (holds : text (memoryAt file.bytes place) = some key) :
    (Fits word key → strcmp (argument word) (fread (fseek file place) (uninitialised 10)).1 =
        strcmp (argument word) (memoryAt file.bytes place)) ∧
      (¬ Fits word key →
        strcmp (argument word) (fread (fseek file place) (uninitialised 10)).1 = none) := by
  obtain ⟨rest, same, full⟩ := window file place 10
  rw [same]
  refine ⟨strcmp_take (text_argument plain) holds, fun leaves => ?_⟩
  obtain ⟨long, starts⟩ := not_or.mp leaves
  -- A long word fills the window, also at the end of the file.
  have filled : 10 ≤ (memoryAt file.bytes place).length := by
    obtain ⟨_, behind, whole⟩ := text_eq_some holds
    rw [whole, List.length_append, List.length_map]
    omega
  rw [full filled, List.append_nil]
  exact strcmp_take_eq_none (text_argument plain) holds (by omega) (Classical.not_not.mp starts)

/-- Words that compare as equal are equal. -/
theorem eq_of_strcmp {block other : Block} (holds : text block = some word)
    (holds' : text other = some key) (same : strcmp block other = some 0) : word = key := by
  obtain ⟨result, compared, order⟩ := strcmp_spec holds holds'
  rw [same] at compared
  obtain rfl := Option.some.inj compared
  exact Std.LawfulEqCmp.eq_of_compare order

/-- What one call does at a node, by the comparison of the words in memory. -/
theorem searchFile_node {place : Nat} {result : Int} (plain : (0 : UInt8) ∉ word)
    (present : place ≠ 0) (holds : text (memoryAt file.bytes (place + node.word)) = some key)
    (compared : strcmp (argument word) (memoryAt file.bytes (place + node.word)) = some result) :
    (¬ Fits word key → searchFile node word (fuel + 1) file place = none) ∧
      ∃ next : File, next.bytes = file.bytes ∧
        (Fits word key → searchFile node word (fuel + 1) file place =
          if result = 0 then printNode node file.bytes (some place)
          else if result < 0 then
            (readUInt32 file.bytes (place + node.leftChild)).bind (searchFile node word fuel next)
          else
            (readUInt32 file.bytes (place + node.rightChild)).bind
              (searchFile node word fuel next)) := by
  have inside := structure_inside holds
  obtain ⟨header, readHeader, _⟩ := window file place node.size
  -- The word is read behind the structure, from the same file.
  let opened := (fread (fseek file place) (uninitialised node.size)).2
  have behind : text (memoryAt opened.bytes (node.size + place)) = some key := by
    rw [Nat.add_comm]
    exact holds
  obtain ⟨fits, leaves⟩ := compare_window plain behind
  have sameBytes : memoryAt opened.bytes (node.size + place) =
      memoryAt file.bytes (place + node.word) := by
    rw [Nat.add_comm]
    rfl
  have fields {field : Nat} (within : field + 4 ≤ node.word) :=
    (@uint32Field_window _ _ _ header _ within inside).1
  constructor
  · intro outside
    rw [searchFile, if_neg present]
    simp only [opened, leaves outside, Option.bind_none]
  · refine ⟨(fread (fseek opened (node.size + place)) (uninitialised 10)).2, rfl, fun ends => ?_⟩
    rw [searchFile, if_neg present]
    have inWindow : strcmp (argument word)
        (fread (fseek opened (node.size + place)) (uninitialised 10)).1 = some result := by
      rw [fits ends, sameBytes, compared]
    simp only [readHeader]
    rw [inWindow, Option.bind_some]
    simp only [BinaryTreeNode.size, fields node.count_within, fields node.price_within,
      fields node.leftChild_within, fields node.rightChild_within]
    by_cases zero : result = 0
    · rw [if_pos zero, if_pos zero]
      -- The word that is equal fits, so that the window holds its zero byte.
      obtain rfl := eq_of_strcmp (text_argument plain) holds (zero ▸ compared)
      have short : word.length < 10 := by
        rcases ends with short | differs
        · exact short
        · exact absurd (List.take_prefix 10 word) differs
      obtain ⟨rest, same, _⟩ := window opened (node.word + place) 10
      have printed : text (fread (fseek opened (node.word + place)) (uninitialised 10)).1 =
          some word := by
        rw [same]
        exact text_take behind short
      obtain ⟨count, price, readCount, readPrice, prints⟩ := printNode_eq holds
      rw [prints, readCount, readPrice]
      exact congrArg (Option.bind · _) printed
    · rw [if_neg zero, if_neg zero]
      rfl

/-- Behind a word that fits, one that does not is further down. -/
theorem visited_of_cons {first : List UInt8} {rest : List (List UInt8)} (fits : Fits word first)
    (outside : ∃ key ∈ first :: rest, ¬ Fits word key) : ∃ key ∈ rest, ¬ Fits word key := by
  obtain ⟨key, member, leaves⟩ := outside
  rcases List.mem_cons.mp member with rfl | later
  · exact absurd fits leaves
  · exact ⟨key, later, leaves⟩

/--
The search with windows prints what the search in memory finds, if every word on the way fits; and
it leaves the window, if one does not.
-/
theorem searchFile_spec (plain : (0 : UInt8) ∉ word)
    (encodes : Encodes node.toLayout file.bytes offset tree) (enough : tree.height < fuel) :
    ((∀ key ∈ tree.visited word, Fits word key) → searchFile node word fuel file offset =
        printNode node file.bytes (tree.descend word)) ∧
      ((∃ key ∈ tree.visited word, ¬ Fits word key) →
        searchFile node word fuel file offset = none) := by
  induction tree generalizing file offset fuel with
  | nil =>
    cases fuel with
    | zero => cases enough
    | succ fuel =>
      rw [searchFile, if_pos (show offset = 0 from encodes)]
      refine ⟨fun _ => rfl, ?_⟩
      rintro ⟨key, member, _⟩
      cases member
  | node label key left right ihLeft ihRight =>
    obtain ⟨present, rfl, holds, ⟨leftChild, readLeft, encodesLeft⟩, rightChild, readRight,
      encodesRight⟩ := encodes
    rw [SearchTree.height] at enough
    cases fuel with
    | zero => cases enough
    | succ fuel =>
      obtain ⟨result, compared, order⟩ := strcmp_spec (text_argument plain) holds
      obtain ⟨leaves, next, sameBytes, goesOn⟩ := @searchFile_node node file word key fuel label
        result plain present holds compared
      rw [SearchTree.visited, SearchTree.descend, order]
      by_cases fits : Fits word key
      · -- The call goes on in the subtree that the sign of the comparison tells.
        rw [goesOn fits]
        cases sign : compare result 0 with
        | eq =>
          rw [if_pos (Int.compare_eq_eq.mp sign)]
          refine ⟨fun _ => rfl, ?_⟩
          rintro ⟨other, member, outside⟩
          obtain rfl := List.mem_singleton.mp member
          exact absurd fits outside
        | lt =>
          have negative := Int.compare_eq_lt.mp sign
          rw [if_neg (Int.ne_of_lt negative), if_pos negative, readLeft, Option.bind_some]
          have later := @ihLeft next leftChild fuel (sameBytes ▸ encodesLeft) (by omega)
          rw [sameBytes] at later
          exact later.imp (fun below all => below fun other member => all other (.tail _ member))
            (fun below some => below (visited_of_cons fits some))
        | gt =>
          have positive := Int.compare_eq_gt.mp sign
          rw [if_neg (Int.ne_of_gt positive), if_neg (Int.not_lt.mpr (Int.le_of_lt positive)),
            readRight, Option.bind_some]
          have later := @ihRight next rightChild fuel (sameBytes ▸ encodesRight) (by omega)
          rw [sameBytes] at later
          exact later.imp (fun below all => below fun other member => all other (.tail _ member))
            (fun below some => below (visited_of_cons fits some))
      · refine ⟨fun all => absurd (all key List.mem_cons_self) fits, fun _ => leaves fits⟩

/-- What is found can be printed. -/
theorem printNode_descend (encodes : Encodes node.toLayout file.bytes offset tree) :
    (printNode node file.bytes (tree.descend word)).isSome := by
  cases found : tree.descend word with
  | none => rfl
  | some place =>
    obtain ⟨count, price, _, _, prints⟩ :=
      printNode_eq (encodes.text_of_mem (SearchTree.mem_of_descend found))
    rw [prints]
    rfl

/--
The two programs report the same, and the first one looks at no byte that it has not read, exactly if
every word on the way down has less than ten characters or differs in its first ten from the word
that is looked up.
-/
theorem lookups_agree_iff (plain : (0 : UInt8) ∉ word)
    (encodes : Encodes node.toLayout file.bytes 4 tree) (enough : tree.height < fuel) :
    (∃ report, lookup1 node file word fuel = some report ∧
        lookup2 node file.bytes word fuel = some report) ↔
      ∀ key ∈ tree.visited word, Fits word key := by
  obtain ⟨agrees, leaves⟩ := searchFile_spec plain encodes enough
  have mapped : lookup2 node file.bytes word fuel = printNode node file.bytes (tree.descend word) := by
    rw [lookup2, search_eq plain encodes enough, Option.bind_some]
  constructor
  · rintro ⟨report, prints, _⟩ key member
    apply Classical.byContradiction
    intro outside
    rw [lookup1, leaves ⟨key, member, outside⟩] at prints
    cases prints
  · intro all
    obtain ⟨report, prints⟩ := Option.isSome_iff_exists.mp (@printNode_descend _ _ _ word _ encodes)
    exact ⟨report, (agrees all).trans prints, mapped.trans prints⟩

/-- The children, a count and a price, in four bytes each. -/
def sampleNode : BinaryTreeNode where
  toLayout := sampleLayout
  count := 8
  price := 12
  leftChild_within := by decide
  rightChild_within := by decide
  count_within := by decide
  price_within := by decide

/-- Both programs find the word "a", which is behind "b". -/
theorem lookups_agree_sample : ∃ report, lookup1 sampleNode ⟨sampleFile, 0⟩ [97] 3 = some report ∧
    lookup2 sampleNode sampleFile [97] 3 = some report := by
  have plain : (0 : UInt8) ∉ ([97] : List UInt8) := by decide
  have agree := @lookups_agree_iff sampleNode ⟨sampleFile, 0⟩ sampleTree [97] 3 plain sample_encodes
    (by decide)
  apply agree.mpr
  intro key member
  -- The words on the way down have one character each.
  have below : ∀ key ∈ sampleTree.visited [97], key.length < 10 := by decide
  exact .inl (below key member)

/-- "BTRE", and a node with the word "abcdefghij", a count of 7 and no price. -/
def longFile : List UInt8 :=
  [66, 84, 82, 69] ++ (littleEndian 4 0 ++ littleEndian 4 0 ++ littleEndian 4 7 ++ littleEndian 4 0 ++
    [97, 98, 99, 100, 101, 102, 103, 104, 105, 106, 0])

def longWord : List UInt8 := [97, 98, 99, 100, 101, 102, 103, 104, 105, 106]

/-- A word of ten characters is found in memory, but the window does not hold its end. -/
theorem long_word_leaves_window :
    Encodes sampleNode.toLayout longFile 4 (.node 4 longWord .nil .nil) ∧
      lookup2 sampleNode longFile longWord 2 = some (some ⟨longWord, 7, 0⟩) ∧
      lookup1 sampleNode ⟨longFile, 0⟩ longWord 2 = none := by
  refine ⟨⟨?_, rfl, ?_, ⟨0, ?_, rfl⟩, 0, ?_, rfl⟩, ?_, ?_⟩ <;> decide

end Agreement

/-- A file of the right format has no zero byte behind the four that `main` has room for. -/
theorem compareFormat_eq_none {file : File} (starts : [66, 84, 82, 69] <+: file.bytes) :
    compareFormat (fseek file 0) = none := by
  obtain ⟨rest, same⟩ := starts
  -- All four bytes are compared, and the fifth is behind the buffer.
  simp [compareFormat, fread, fseek, ← same, uninitialised, argument, strcmp]

end SystemProgramming.Lookup
