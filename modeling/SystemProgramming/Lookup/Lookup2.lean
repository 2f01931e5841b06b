import SystemProgramming.Foundations.SearchTree
import SystemProgramming.Foundations.Stream
import SystemProgramming.Foundations.Strings

/-! Looking up a word in a file that is mapped into memory and holds a binary tree. -/

namespace SystemProgramming.Lookup

open Foundations Foundations.Strings

/-- Where the fields of a `BinaryTreeNode` are; a child is a `uint32_t`, and the word comes last. -/
structure Layout where
  leftChild : Nat
  rightChild : Nat
  word : Nat
  deriving DecidableEq, Repr

/-- The `uint32_t` at a place in a file; undefined where the file ends before. -/
def readUInt32 (file : List UInt8) (place : Nat) : Option Nat :=
  if place + 4 ≤ file.length then some (ofLittleEndian ((file.drop place).take 4)) else none

/-- The memory at a place in a mapped file. -/
def memoryAt (file : List UInt8) (place : Nat) : Block :=
  (file.drop place).map some

/-- An argument of the program, in memory. -/
def argument (word : List UInt8) : Block :=
  word.map some ++ [some 0]

/--
`search`, with a bound on the depth of the recursion. The node is a place in the file, and `NULL` is
`none`; outside of the file nothing is defined.
-/
def search (layout : Layout) (file word : List UInt8) : Nat → Nat → Option (Option Nat)
  | 0, _ => none
  | fuel + 1, offset =>
    if offset = 0 then some none
    else
      let node := offset
      (strcmp (argument word) (memoryAt file (node + layout.word))).bind fun result =>
        if result = 0 then some (some node)
        else if result < 0 then
          (readUInt32 file (node + layout.leftChild)).bind fun child =>
            -- What is found is returned, and if nothing is found then nothing else is tried.
            (search layout file word fuel child).bind fun temp =>
              if temp ≠ none then some temp else some none
        else
          (readUInt32 file (node + layout.rightChild)).bind fun child =>
            (search layout file word fuel child).bind fun temp =>
              if temp ≠ none then some temp else some none

section Search

variable {layout : Layout} {file word : List UInt8} {tree : SearchTree Nat (List UInt8)}
  {offset fuel : Nat} {temp : Option Nat}

/--
From an offset on, a file holds a tree: each node is named by its offset, has a word that ends, and
leads to its subtrees.
-/
def Encodes (layout : Layout) (file : List UInt8) : Nat → SearchTree Nat (List UInt8) → Prop
  | offset, .nil => offset = 0
  | offset, .node label word left right =>
    offset ≠ 0 ∧ label = offset ∧ text (memoryAt file (offset + layout.word)) = some word ∧
    (∃ child, readUInt32 file (offset + layout.leftChild) = some child ∧
      Encodes layout file child left) ∧
    ∃ child, readUInt32 file (offset + layout.rightChild) = some child ∧
      Encodes layout file child right

/-- What a search in a subtree returns is returned. -/
theorem returned (temp : Option Nat) : (if temp ≠ none then some temp else some none) = some temp := by
  cases temp with
  | none => rfl
  | some node => rfl

/-- An argument is read as the word that it is. -/
theorem text_argument (plain : (0 : UInt8) ∉ word) : text (argument word) = some word :=
  text_append plain

/-- The search in a file descends as the search in the tree does. -/
theorem search_eq (plain : (0 : UInt8) ∉ word) (encodes : Encodes layout file offset tree)
    (enough : tree.height < fuel) :
    search layout file word fuel offset = some (tree.descend word) := by
  induction tree generalizing offset fuel with
  | nil =>
    cases fuel with
    | zero => cases enough
    | succ fuel => rw [search, if_pos (show offset = 0 from encodes), SearchTree.descend]
  | node label key left right ihLeft ihRight =>
    obtain ⟨present, rfl, holds, ⟨leftChild, readLeft, encodesLeft⟩, rightChild, readRight,
      encodesRight⟩ := encodes
    rw [SearchTree.height] at enough
    cases fuel with
    | zero => cases enough
    | succ fuel =>
      obtain ⟨result, compared, order⟩ := strcmp_spec (text_argument plain) holds
      rw [search, if_neg present]
      simp only [compared, Option.bind_some]
      rw [SearchTree.descend, order]
      -- The sign of the result is the side on which the tree goes on.
      cases sign : compare result 0 with
      | eq => rw [if_pos (Int.compare_eq_eq.mp sign)]
      | lt =>
        have negative := Int.compare_eq_lt.mp sign
        rw [if_neg (Int.ne_of_lt negative), if_pos negative, readLeft, Option.bind_some,
          ihLeft encodesLeft (by omega), Option.bind_some, returned]
      | gt =>
        have positive := Int.compare_eq_gt.mp sign
        rw [if_neg (Int.ne_of_gt positive), if_neg (Int.not_lt.mpr (Int.le_of_lt positive)),
          readRight, Option.bind_some, ihRight encodesRight (by omega), Option.bind_some, returned]

/--
In a file that holds an ordered tree the search ends; it returns a node exactly if one carries the
word, and then one that does, so the only one if there are not two.
-/
theorem finds_word (plain : (0 : UInt8) ∉ word) (encodes : Encodes layout file 4 tree)
    (ordered : tree.Ordered) :
    ∃ result, (∀ fuel, tree.height < fuel → search layout file word fuel 4 = some result) ∧
      (result ≠ none ↔ ∃ node, (node, word) ∈ tree.entries) ∧
      (∀ node, result = some node → (node, word) ∈ tree.entries) ∧
      ∀ node, (node, word) ∈ tree.entries →
        (∀ other, (other, word) ∈ tree.entries → other = node) → result = some node := by
  refine ⟨tree.descend word, fun fuel => search_eq plain encodes, ⟨?_, ?_⟩, ?_, ?_⟩
  · intro found
    obtain ⟨node, here⟩ := Option.ne_none_iff_exists'.mp found
    exact ⟨node, SearchTree.mem_of_descend here⟩
  · rintro ⟨node, member⟩
    exact Option.isSome_iff_ne_none.mp (ordered.descend_isSome member)
  · exact fun node => SearchTree.mem_of_descend
  · intro node member only
    obtain ⟨other, found⟩ := Option.isSome_iff_exists.mp (ordered.descend_isSome member)
    rw [found, only other (SearchTree.mem_of_descend found)]

/-- The children, a count and a price before the word. -/
def sampleLayout : Layout := ⟨0, 4, 16⟩

/-- "BTRE", a node with the word "b", and its left child with the word "a". -/
def sampleFile : List UInt8 :=
  [66, 84, 82, 69] ++
    (littleEndian 4 22 ++ littleEndian 4 0 ++ List.replicate 8 0 ++ [98, 0]) ++
    (littleEndian 4 0 ++ littleEndian 4 0 ++ List.replicate 8 0 ++ [97, 0])

def sampleTree : SearchTree Nat (List UInt8) :=
  .node 4 [98] (.node 22 [97] .nil .nil) .nil

theorem sample_encodes : Encodes sampleLayout sampleFile 4 sampleTree := by
  refine ⟨by decide, rfl, by decide, ⟨22, by decide, ?_⟩, 0, by decide, rfl⟩
  exact ⟨by decide, rfl, by decide, ⟨0, by decide, rfl⟩, 0, by decide, rfl⟩

/-- The word "a" is found in the node behind the root. -/
theorem finds_word_sample : search sampleLayout sampleFile [97] 3 4 = some (some 22) := by
  have ordered : sampleTree.Ordered := by
    refine ⟨?_, ?_, ⟨?_, ?_, trivial, trivial⟩, trivial⟩ <;> decide
  have plain : (0 : UInt8) ∉ ([97] : List UInt8) := by decide
  obtain ⟨result, returns, _, _, unique⟩ := finds_word plain sample_encodes ordered
  have member : (22, [97]) ∈ sampleTree.entries := by decide
  have only : ∀ other, (other, [97]) ∈ sampleTree.entries → other = 22 := by
    intro other found
    simpa [SearchTree.entries, sampleTree] using found
  rw [unique 22 member only] at returns
  exact returns 3 (by decide)

end Search

end SystemProgramming.Lookup
