import Mathlib.Data.List.Sort
import Mathlib.Data.Multiset.Basic

/-!
Priority queues over a comparison function, which return a least item as long as the comparisons of
their items do not change.
-/

namespace Foundations

section Comparisons

variable {Item Other Key : Type*}

/-- A comparison function whose sign tells a total preorder. -/
structure Consistent (compare : Item → Item → Int) : Prop where
  total : ∀ a b, compare a b ≤ 0 ∨ compare b a ≤ 0
  trans : ∀ a b c, compare a b ≤ 0 → compare b c ≤ 0 → compare a c ≤ 0

/-- Comparison by a key, and by another comparison where the keys are equal. -/
def compareBy [LinearOrder Key] (key : Item → Key) (breakTie : Item → Item → Int) (a b : Item) :
    Int :=
  if key a = key b then breakTie a b else if key a < key b then -1 else 1

variable [LinearOrder Key] {key : Item → Key} {breakTie : Item → Item → Int} {a b : Item}

/-- An item comes first by its key, or by the other comparison. -/
theorem compareBy_nonpos_iff :
    compareBy key breakTie a b ≤ 0 ↔ key a < key b ∨ (key a = key b ∧ breakTie a b ≤ 0) := by
  rw [compareBy]
  -- The three cases exclude each other.
  rcases lt_trichotomy (key a) (key b) with below | same | above
  · simp [below, below.ne]
  · simp [same]
  · simp [above.not_gt, above.ne']

/-- A consistent comparison stays consistent as the one that breaks ties. -/
theorem Consistent.compareBy (consistent : Consistent breakTie) :
    Consistent (compareBy key breakTie) where
  total a b := by
    rw [compareBy_nonpos_iff, compareBy_nonpos_iff]
    rcases lt_trichotomy (key a) (key b) with below | same | above
    · exact .inl (.inl below)
    · exact (consistent.total a b).imp (fun first => .inr ⟨same, first⟩)
        fun first => .inr ⟨same.symm, first⟩
    · exact .inr (.inl above)
  trans a b c := by
    rw [compareBy_nonpos_iff, compareBy_nonpos_iff, compareBy_nonpos_iff]
    intro first second
    rcases first with below | ⟨same, first⟩
    · -- A strict step by the keys stays strict.
      rcases second with further | ⟨same, _⟩
      · exact .inl (below.trans further)
      · exact .inl (same ▸ below)
    · rcases second with below | ⟨same', second⟩
      · exact .inl (same ▸ below)
      · exact .inr ⟨same.trans same', consistent.trans a b c first second⟩

/-- A comparison that finds all items equal is consistent. -/
theorem Consistent.zero : Consistent fun _ _ : Item => 0 where
  total _ _ := .inl le_rfl
  trans _ _ _ _ _ := le_rfl

/-- A consistent comparison of the images of items. -/
theorem Consistent.comap {compare : Other → Other → Int} (consistent : Consistent compare)
    (image : Item → Other) : Consistent fun a b => compare (image a) (image b) where
  total a b := consistent.total (image a) (image b)
  trans a b c := consistent.trans (image a) (image b) (image c)

end Comparisons

/-- The operations of a priority queue; its comparison function is an argument of each call. -/
structure PriorityQueue (Item Heap : Type*) where
  contents : Heap → Multiset Item
  empty : Heap
  offer : (Item → Item → Int) → Item → Heap → Heap
  poll : (Item → Item → Int) → Heap → Option Item × Heap

namespace PriorityQueue

variable {Item Heap : Type*}

/--
What a priority queue promises: its items are those offered and not yet polled, and while it is
ordered for a comparison, a poll returns a least item. Its order rests on the comparisons of the
items in it only, so that it is lost where one of these changes.
-/
structure Lawful (queue : PriorityQueue Item Heap)
    (Ordered : (Item → Item → Int) → Heap → Prop) : Prop where
  contents_empty : queue.contents queue.empty = 0
  contents_offer : ∀ compare item heap,
    queue.contents (queue.offer compare item heap) = item ::ₘ queue.contents heap
  poll_empty : ∀ compare heap, queue.contents heap = 0 → queue.poll compare heap = (none, heap)
  contents_poll : ∀ compare heap, queue.contents heap ≠ 0 → ∃ item rest,
    queue.poll compare heap = (some item, rest) ∧
      queue.contents heap = item ::ₘ queue.contents rest
  ordered_empty : ∀ compare, Ordered compare queue.empty
  ordered_congr : ∀ compare compare' heap,
    (∀ a ∈ queue.contents heap, ∀ b ∈ queue.contents heap, compare a b = compare' a b) →
      Ordered compare heap → Ordered compare' heap
  ordered_offer : ∀ compare item heap, Consistent compare → Ordered compare heap →
    Ordered compare (queue.offer compare item heap)
  ordered_poll : ∀ compare heap item rest, Consistent compare → Ordered compare heap →
    queue.poll compare heap = (some item, rest) →
      Ordered compare rest ∧ ∀ other ∈ queue.contents heap, compare item other ≤ 0

/-- A sorted list as a priority queue. -/
def sortedList : PriorityQueue Item (List Item) where
  contents heap := heap
  empty := []
  offer compare item heap := heap.orderedInsert (fun a b => compare a b ≤ 0) item
  poll _ heap := (heap.head?, heap.tail)

/-- A sorted list keeps the promises. -/
theorem lawful_sortedList : (sortedList : PriorityQueue Item (List Item)).Lawful
    fun compare heap => heap.Pairwise fun a b => compare a b ≤ 0 where
  contents_empty := rfl
  contents_offer compare item heap := by
    exact Multiset.coe_eq_coe.mpr (List.perm_orderedInsert _ item heap)
  poll_empty compare heap none := by
    have nil : heap = [] := Multiset.coe_eq_zero _ |>.mp none
    subst nil
    rfl
  contents_poll compare heap some := by
    cases heap with
    | nil => exact absurd rfl some
    | cons item rest => exact ⟨item, rest, rfl, rfl⟩
  ordered_empty _ := .nil
  ordered_congr compare compare' heap same ordered := by
    refine ordered.imp_of_mem ?_
    intro a b first second le
    exact same a first b second ▸ le
  ordered_offer compare item heap consistent ordered := by
    have : IsTrans Item fun a b => compare a b ≤ 0 := ⟨consistent.trans⟩
    have : Std.Total fun a b : Item => compare a b ≤ 0 := ⟨consistent.total⟩
    exact ordered.orderedInsert item heap
  ordered_poll compare heap item rest consistent ordered polled := by
    cases heap with
    | nil => cases polled
    | cons first others =>
      cases polled
      refine ⟨ordered.tail, ?_⟩
      intro other member
      -- The first item is in front of all others, and of itself.
      rcases List.mem_cons.mp (Multiset.mem_coe.mp member) with same | later
      · subst same
        exact (consistent.total other other).elim id id
      · exact List.rel_of_pairwise_cons ordered later

end PriorityQueue

end Foundations
