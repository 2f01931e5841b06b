import SystemProgramming.Foundations.While
import SystemProgramming.Lookup.Lookup1

/-! Which files the lookup in the mapped file can read, whatever the offsets in them are. -/

namespace SystemProgramming.Lookup

open Foundations Foundations.Strings Relation

section Descent

variable {node : BinaryTreeNode} {file word : List UInt8} {offset child fuel : Nat}

/-- What `strcmp` of the word and that of a node yields; undefined where it leaves the file. -/
def comparison (node : BinaryTreeNode) (file word : List UInt8) (offset : Nat) : Option Int :=
  strcmp (argument word) (memoryAt file (offset + node.word))

/-- From a node, the comparison selects a child. -/
def Descends (node : BinaryTreeNode) (file word : List UInt8) (offset child : Nat) : Prop :=
  offset ≠ 0 ∧ ∃ result, comparison node file word offset = some result ∧
    (result < 0 ∧ readUInt32 file (offset + node.leftChild) = some child ∨
      0 < result ∧ readUInt32 file (offset + node.rightChild) = some child)

/-- One call of `search` as a turn of a loop: it returns, or it calls itself for a child. -/
def searchTurn (node : BinaryTreeNode) (file word : List UInt8) (offset : Nat) :
    Option (Turn Nat (Option Nat)) :=
  if offset = 0 then some (.ends none)
  else
    (comparison node file word offset).bind fun result =>
      if result = 0 then some (.ends (some offset))
      else if result < 0 then (readUInt32 file (offset + node.leftChild)).map .goesOn
      else (readUInt32 file (offset + node.rightChild)).map .goesOn

/-- What the recursive call finds is returned, so that `search` is a loop. -/
theorem search_eq_loop : search node.toLayout file word fuel offset =
    loop (searchTurn node file word) fuel offset := by
  induction fuel generalizing offset with
  | zero => rfl
  | succ fuel ih =>
    rw [search, loop, searchTurn]
    by_cases empty : offset = 0
    · rw [if_pos empty, if_pos empty]
    · rw [if_neg empty, if_neg empty, comparison]
      simp only [ih, returned, Option.bind_fun_some]
      -- The comparison and the child are read by both, and left undefined by both.
      cases strcmp (argument word) (memoryAt file (offset + node.word)) with
      | none => rfl
      | some result =>
        simp only [Option.bind_some]
        by_cases zero : result = 0
        · rw [if_pos zero, if_pos zero]
        · rw [if_neg zero, if_neg zero]
          by_cases negative : result < 0
          · rw [if_pos negative, if_pos negative]
            cases readUInt32 file (offset + node.leftChild) <;> rfl
          · rw [if_neg negative, if_neg negative]
            cases readUInt32 file (offset + node.rightChild) <;> rfl

/-- What is compared starts in the file, so that all of the node before its word is there. -/
theorem inside_of_comparison (compared : (comparison node file word offset).isSome) :
    offset + node.word < file.length := by
  -- Behind the end of the file there is nothing that `strcmp` could look at.
  apply Nat.lt_of_not_le
  intro behind
  have nothing : memoryAt file (offset + node.word) = [] := by
    rw [memoryAt, List.drop_eq_nil_of_le behind, List.map_nil]
  rw [comparison, nothing] at compared
  cases block : argument word <;> simp [block, strcmp] at compared

/-- A child is read from the file wherever the comparison is. -/
theorem child_isSome {field : Nat} (within : field + 4 ≤ node.word)
    (compared : (comparison node file word offset).isSome) :
    (readUInt32 file (offset + field)).isSome := by
  have inside := inside_of_comparison compared
  rw [readUInt32, if_pos (by omega), Option.isSome_some]

/-- A call leaves the file exactly if the comparison does. -/
theorem searchTurn_isSome_iff : (searchTurn node file word offset).isSome ↔
    (offset ≠ 0 → (comparison node file word offset).isSome) := by
  rw [searchTurn]
  by_cases empty : offset = 0
  · simp [empty]
  · rw [if_neg empty]
    cases compared : comparison node file word offset with
    | none => simp [empty]
    | some result =>
      have readable : (comparison node file word offset).isSome := by
        rw [compared, Option.isSome_some]
      have left := child_isSome node.leftChild_within readable
      have right := child_isSome node.rightChild_within readable
      simp only [Option.bind_some]
      split
      · simp
      · split <;> simp [left, right]

/-- A call goes on with the child that is selected, and only with that. -/
theorem goesOn_iff : GoesOn (searchTurn node file word) offset child ↔
    Descends node file word offset child := by
  rw [GoesOn, searchTurn, Descends]
  by_cases empty : offset = 0
  · simp [empty]
  · rw [if_neg empty]
    cases comparison node file word offset with
    | none => simp
    | some result =>
      simp only [Option.bind_some]
      -- The sign of the result decides for one of the three branches.
      rcases Int.lt_trichotomy result 0 with negative | rfl | positive
      · simp [empty, negative, Int.ne_of_lt negative, Int.lt_asymm negative]
      · simp
      · simp [empty, positive, Int.ne_of_gt positive, Int.lt_asymm positive]

/--
The search ends, and has not left the file, exactly if the bytes that are compared at every node on
its way are in the file and it comes to no node twice; and then it makes at most one call for each
byte of the file, and one more.
-/
theorem search_ends_iff (node : BinaryTreeNode) (file word : List UInt8) :
    ((∃ fuel result, search node.toLayout file word fuel 4 = some result) ↔
        (∀ offset, ReflTransGen (Descends node file word) 4 offset → offset ≠ 0 →
          (comparison node file word offset).isSome) ∧
        ¬ ReachesCycle (Descends node file word) 4) ∧
      ∀ result, (∃ fuel, search node.toLayout file word fuel 4 = some result) →
        ∀ fuel, file.length < fuel → search node.toLayout file word fuel 4 = some result := by
  have same : GoesOn (searchTurn node file word) = Descends node file word := by
    funext offset child
    exact propext goesOn_iff
  -- A node where something is compared is in the file, so there are only so many.
  have finite (offset : Nat) (defined : (searchTurn node file word offset).isSome) :
      offset ∈ Finset.range (file.length + 1) := by
    rw [Finset.mem_range]
    by_cases empty : offset = 0
    · omega
    · have inside := inside_of_comparison (searchTurn_isSome_iff.mp defined empty)
      omega
  simp only [search_eq_loop]
  constructor
  · rw [exists_loop_iff _ finite, same]
    simp only [searchTurn_isSome_iff]
  · rintro result ⟨fuel, done⟩ more enough
    refine loop_of_card_le _ finite done ?_
    rw [Finset.card_range]
    exact enough

end Descent

section Files

/-- "BTRE", and a node with a left child and a word. -/
def oneNode (leftChild : Nat) (word : List UInt8) : List UInt8 :=
  [66, 84, 82, 69] ++ (littleEndian 4 leftChild ++ littleEndian 4 0 ++ List.replicate 8 0 ++ word)

/--
A node that is its own child, a child behind the end of the file, and a word without its zero byte:
however deep the recursion may be, the search for "a", or for "bc", does not end in the file.
-/
theorem malformed_files :
    ([66, 84, 82, 69] <+: oneNode 4 [98, 0] ∧
      ∀ fuel, search sampleNode.toLayout (oneNode 4 [98, 0]) [97] fuel 4 = none) ∧
    ([66, 84, 82, 69] <+: oneNode 4096 [98, 0] ∧
      ∀ fuel, search sampleNode.toLayout (oneNode 4096 [98, 0]) [97] fuel 4 = none) ∧
    ([66, 84, 82, 69] <+: oneNode 0 [98] ∧
      ∀ fuel, search sampleNode.toLayout (oneNode 0 [98]) [98, 99] fuel 4 = none) := by
  refine ⟨⟨by decide, fun fuel => ?_⟩, ⟨by decide, fun fuel => ?_⟩, ⟨by decide, fun fuel => ?_⟩⟩
  · -- Every call calls itself for the same offset again.
    have again : searchTurn sampleNode (oneNode 4 [98, 0]) [97] 4 = some (.goesOn 4) := by decide
    rw [search_eq_loop]
    induction fuel with
    | zero => rfl
    | succ fuel ih => rw [loop_goesOn again, ih]
  · have leaves : searchTurn sampleNode (oneNode 4096 [98, 0]) [97] 4 = some (.goesOn 4096) := by
      decide
    rw [search_eq_loop]
    cases fuel with
    | zero => rfl
    | succ fuel => rw [loop_goesOn leaves, loop_undefined (by decide)]
  · rw [search_eq_loop]
    exact loop_undefined (by decide)

end Files

end SystemProgramming.Lookup
