import Mathlib.Data.List.Basic
import Mathlib.Order.Basic

/-! Binary search trees, whose nodes carry a label and a key, and the search that descends into them. -/

namespace Foundations

/-- A binary tree, with labels and keys in its nodes. -/
inductive SearchTree (Label Key : Type*) where
  | nil
  | node (label : Label) (key : Key) (left right : SearchTree Label Key)

namespace SearchTree

variable {Label Key : Type*}

/-- The labels with their keys. -/
def entries : SearchTree Label Key → List (Label × Key)
  | nil => []
  | node label key left right => left.entries ++ (label, key) :: right.entries

/-- The number of nodes on the longest way down. -/
def height : SearchTree Label Key → Nat
  | nil => 0
  | node _ _ left right => max left.height right.height + 1

variable [Ord Key]

/-- No key on the left of a node is greater than its key, and none on the right is less. -/
def Ordered : SearchTree Label Key → Prop
  | nil => True
  | node _ key left right =>
    (∀ entry ∈ left.entries, compare entry.2 key ≠ .gt) ∧
    (∀ entry ∈ right.entries, compare entry.2 key ≠ .lt) ∧ left.Ordered ∧ right.Ordered

/-- The first node on the way down that has the key. -/
def descend (target : Key) : SearchTree Label Key → Option Label
  | nil => none
  | node label key left right =>
    match compare target key with
    | .eq => some label
    | .lt => left.descend target
    | .gt => right.descend target

/-- The keys on the way down that the search takes. -/
def visited (target : Key) : SearchTree Label Key → List Key
  | nil => []
  | node _ key left right =>
    key :: match compare target key with
      | .eq => []
      | .lt => left.visited target
      | .gt => right.visited target

variable [Std.LawfulEqOrd Key] {tree : SearchTree Label Key} {target : Key} {label : Label}

/-- What is found is the label of a node with the key. -/
theorem mem_of_descend (found : tree.descend target = some label) :
    (label, target) ∈ tree.entries := by
  induction tree with
  | nil => cases found
  | node first key left right ihLeft ihRight =>
    rw [descend] at found
    rw [entries, List.mem_append, List.mem_cons]
    cases side : compare target key with
    | eq =>
      rw [side] at found
      obtain rfl := Option.some.inj found
      exact .inr (.inl (by rw [Std.LawfulEqCmp.eq_of_compare side]))
    | lt =>
      rw [side] at found
      exact .inl (ihLeft found)
    | gt =>
      rw [side] at found
      exact .inr (.inr (ihRight found))

/-- In an ordered tree, a key that is somewhere is found. -/
theorem Ordered.descend_isSome (ordered : tree.Ordered) (member : (label, target) ∈ tree.entries) :
    (tree.descend target).isSome := by
  induction tree with
  | nil => cases member
  | node first key left right ihLeft ihRight =>
    obtain ⟨below, above, orderedLeft, orderedRight⟩ := ordered
    rw [entries, List.mem_append, List.mem_cons] at member
    rw [descend]
    -- The subtree that is not visited has its keys on the other side.
    cases side : compare target key with
    | eq => rfl
    | lt =>
      rcases member with inLeft | here | inRight
      · exact ihLeft orderedLeft inLeft
      · have same : compare key key = .eq := Std.ReflCmp.compare_self
        rw [(Prod.mk.inj here).2, same] at side
        cases side
      · exact absurd side (above _ inRight)
    | gt =>
      rcases member with inLeft | here | inRight
      · exact absurd side (below _ inLeft)
      · have same : compare key key = .eq := Std.ReflCmp.compare_self
        rw [(Prod.mk.inj here).2, same] at side
        cases side
      · exact ihRight orderedRight inRight

end SearchTree

end Foundations
