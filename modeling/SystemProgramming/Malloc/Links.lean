import SystemProgramming.Malloc.Access
import Mathlib.Data.List.Induction

/-! The three edits of the free list: unlinking a node, replacing it, and linking one in front. -/

namespace SystemProgramming.Malloc

open Foundations

variable {h h' h₁ h₂ h₃ : Heap} {front back list touched : List Nat}
  {node fresh other prior next forward backward value lower upper : Nat}

/-- Distance from a header is symmetric. -/
theorem Apart.symm (apart : Apart node other) : Apart other node := by
  unfold Apart at *
  omega

/-- A real node is apart from the null pointer. -/
theorem apart_null (low : 32 ≤ node) : Apart node null := .inr (.inr (by omega))

theorem SameProcess.refl : SameProcess h h := ⟨rfl, rfl, rfl, rfl⟩

@[simp] theorem sameProcess_set {field : Field} : SameProcess h (h.set field node value) :=
  ⟨rfl, rfl, rfl, rfl⟩

@[simp] theorem sameProcess_setTag : SameProcess h (h.setTag node value) := ⟨rfl, rfl, rfl, rfl⟩

/-- Steps that keep the process compose. -/
theorem SameProcess.trans (first : SameProcess h₁ h₂) (second : SameProcess h₂ h₃) :
    SameProcess h₁ h₃ :=
  ⟨second.brk.trans first.brk, second.start.trans first.start, second.floor.trans first.floor,
    second.limit.trans first.limit⟩

/-- Untouched bytes compose. -/
theorem Untouched.trans (first : Untouched touched lower upper h₁ h₂)
    (second : Untouched touched lower upper h₂ h₃) : Untouched touched lower upper h₁ h₃ :=
  fun address outside links => (second address outside links).trans (first address outside links)

/-- Allowing more nodes and a wider range to change keeps the statement. -/
theorem Untouched.mono {wider : List Nat} {low high : Nat} (same : Untouched touched lower upper h h')
    (nodes : ∀ node ∈ touched, node ∈ wider ∨ (low ≤ node ∧ node + 32 ≤ high))
    (below : low ≤ lower ∨ upper ≤ lower) (above : upper ≤ high ∨ upper ≤ lower) :
    Untouched wider low high h h' := by
  -- A byte that the wider statement excludes is excluded by the narrower one.
  intro address outside links
  refine same address (by omega) fun node member => ?_
  rcases nodes node member with kept | swallowed
  · exact links node kept
  · -- A node that is no longer listed lies inside the wider range.
    omega

/-- A header write inside the range is allowed. -/
theorem untouched_set {field : Field} (low : lower ≤ node) (high : node + 32 ≤ upper) :
    Untouched touched lower upper h (h.set field node value) := by
  intro address outside _
  have inside := field.inside
  exact Heap.mem_set (by omega)

/-- A tag write inside the range is allowed. -/
theorem untouched_setTag {address : Nat} (low : lower ≤ address)
    (high : address + 8 ≤ upper) :
    Untouched touched lower upper h (h.setTag address value) := by
  intro place outside _
  exact Heap.mem_setTag (by omega)

/-- A link write at one of the nodes is allowed. -/
theorem untouched_link {field : Field} (link : field = .before ∨ field = .after)
    (member : node ∈ touched) : Untouched touched lower upper h (h.set field node value) := by
  intro address _ links
  -- The two link fields lie between eight and twenty-four bytes behind the header address.
  have away := links node member
  rcases link with rfl | rfl <;>
    exact Heap.mem_set (by simp only [Field.offset, Field.width]; omega)

/-- Moving `head` writes no byte. -/
theorem untouched_head : Untouched touched lower upper h { h with head := value } :=
  fun _ _ _ => rfl

/--
The neighbours `prior` and `next` of some node have been joined to new values: `forward` is what
the prior neighbour, or `head`, now points to, and `backward` what the next one points back to.
-/
structure Rejoined (h h' : Heap) (prior next forward backward : Nat) : Prop where
  process : SameProcess h h'
  head : h'.head = if prior = null then forward else h.head
  before : ∀ node, Apart node prior → Apart node next →
    h'.get .before node = if next ≠ null ∧ next = node then backward else h.get .before node
  after : ∀ node, Apart node prior → Apart node next →
    h'.get .after node = if prior ≠ null ∧ prior = node then forward else h.get .after node
  untouched : ∀ touched lower upper, (prior ≠ null → prior ∈ touched) →
    (next ≠ null → next ∈ touched) → Untouched touched lower upper h h'

/-- Joining a prior neighbour to a next one, both present. -/
theorem rejoined_both (priorNonnull : prior ≠ null) (nextNonnull : next ≠ null)
    (forwardFits : forward < 2 ^ 64) (backwardFits : backward < 2 ^ 64) :
    Rejoined h ((h.set .after prior forward).set .before next backward) prior next
      forward backward where
  process := ⟨rfl, rfl, rfl, rfl⟩
  head := by simp [priorNonnull]
  before node apartPrior apartNext := by
    rw [Heap.get_set apartNext backwardFits, Heap.get_set_other apartPrior (.inl (by decide))]
    simp [nextNonnull]
  after node apartPrior apartNext := by
    rw [Heap.get_set_other apartNext (.inl (by decide)), Heap.get_set apartPrior forwardFits]
    simp [priorNonnull]
  untouched touched lower upper priorMember nextMember :=
    (untouched_link (.inr rfl) (priorMember priorNonnull)).trans
      (untouched_link (.inl rfl) (nextMember nextNonnull))

/-- The same two writes in the other order, as `delete_data_node` makes them. -/
theorem rejoined_both' (priorNonnull : prior ≠ null) (nextNonnull : next ≠ null)
    (forwardFits : forward < 2 ^ 64) (backwardFits : backward < 2 ^ 64) :
    Rejoined h ((h.set .before next backward).set .after prior forward) prior next
      forward backward where
  process := ⟨rfl, rfl, rfl, rfl⟩
  head := by simp [priorNonnull]
  before node apartPrior apartNext := by
    rw [Heap.get_set_other apartPrior (.inl (by decide)), Heap.get_set apartNext backwardFits]
    simp [nextNonnull]
  after node apartPrior apartNext := by
    rw [Heap.get_set apartPrior forwardFits, Heap.get_set_other apartNext (.inl (by decide))]
    simp [priorNonnull]
  untouched touched lower upper priorMember nextMember :=
    (untouched_link (.inl rfl) (nextMember nextNonnull)).trans
      (untouched_link (.inr rfl) (priorMember priorNonnull))

/-- With only a next neighbour, `head` takes the place of the prior one. -/
theorem rejoined_next (nextNonnull : next ≠ null) (backwardFits : backward < 2 ^ 64) :
    Rejoined h { h.set .before next backward with head := forward } null next
      forward backward where
  process := ⟨rfl, rfl, rfl, rfl⟩
  head := by simp
  before node _ apartNext := by
    -- Moving `head` changes no byte, so the field is read from the heap before that.
    show (h.set .before next backward).get .before node = _
    rw [Heap.get_set apartNext backwardFits]
    simp [nextNonnull]
  after node _ apartNext := by
    show (h.set .before next backward).get .after node = _
    rw [Heap.get_set_other apartNext (.inl (by decide))]
    simp
  untouched touched lower upper _ nextMember :=
    (untouched_link (.inl rfl) (nextMember nextNonnull)).trans untouched_head

/-- With only a prior neighbour, nothing points back any more. -/
theorem rejoined_prior (priorNonnull : prior ≠ null) (forwardFits : forward < 2 ^ 64) :
    Rejoined h (h.set .after prior forward) prior null forward backward where
  process := ⟨rfl, rfl, rfl, rfl⟩
  head := by simp [priorNonnull]
  before node apartPrior _ := by
    rw [Heap.get_set_other apartPrior (.inl (by decide))]
    simp
  after node apartPrior _ := by
    rw [Heap.get_set apartPrior forwardFits]
    simp [priorNonnull]
  untouched touched lower upper priorMember _ :=
    untouched_link (.inr rfl) (priorMember priorNonnull)

/-- With no neighbours, only `head` moves. -/
theorem rejoined_none : Rejoined h { h with head := forward } null null forward backward where
  process := ⟨rfl, rfl, rfl, rfl⟩
  head := by simp
  before _ _ _ := by simp [Heap.get]
  after _ _ _ := by simp [Heap.get]
  untouched _ _ _ _ _ := untouched_head

/-- `delete_data_node` joins the two neighbours of the node with each other. -/
theorem deleteDataNode_rejoined (nonnull : node ≠ null)
    (apartNext : Apart node (h.get .after node)) (other : h.get .after node ≠ node) :
    Rejoined h (deleteDataNode h node) (h.get .before node) (h.get .after node)
      (h.get .after node) (h.get .before node) := by
  have priorFits := h.get_lt .before node
  have nextFits := h.get_lt .after node
  -- The first write lands in another header, so the links of the node itself still read the same.
  have keepBefore : ∀ value, (h.set .before (h.get .after node) value).get .before node =
      h.get .before node := fun value => Heap.get_set_other apartNext (.inr other)
  have keepAfter : ∀ value, (h.set .before (h.get .after node) value).get .after node =
      h.get .after node := fun value => Heap.get_set_other apartNext (.inl (by decide))
  unfold deleteDataNode
  simp only [Heap.before, Heap.after, if_neg nonnull, keepBefore, keepAfter]
  -- The four branches of the source are the four cases of missing neighbours.
  by_cases noPrior : h.get .before node = null
  · by_cases noNext : h.get .after node = null
    · rw [if_pos ⟨noPrior, noNext⟩, noPrior, noNext]
      exact rejoined_none
    · rw [if_neg (fun both => noNext both.2), if_neg (fun both => both.1 noPrior), if_pos noNext,
        noPrior]
      exact rejoined_next noNext (by decide)
  · by_cases noNext : h.get .after node = null
    · rw [if_neg (fun both => noPrior both.1), if_neg (fun both => both.2 noNext),
        if_neg (fun ne => ne noNext), noNext]
      exact rejoined_prior noPrior (by decide)
    · rw [if_neg (fun both => noPrior both.1), if_pos ⟨noPrior, noNext⟩]
      exact rejoined_both' noPrior noNext nextFits priorFits

/-- `relist_split` joins both neighbours of the node to the new node. -/
theorem relistSplit_rejoined (apartPrior : Apart node (h.get .before node))
    (fits : fresh < 2 ^ 64) (other : h.get .before node ≠ node) :
    Rejoined h (relistSplit h node fresh) (h.get .before node) (h.get .after node)
      fresh fresh := by
  -- The first write is in another header, so the next link of the node still reads the same.
  have keepAfter : ∀ value, (h.set .after (h.get .before node) value).get .after node =
      h.get .after node := fun value => Heap.get_set_other apartPrior (.inr other)
  unfold relistSplit
  simp only [Heap.before, Heap.after, keepAfter]
  -- Again one branch for each case of missing neighbours.
  by_cases noPrior : h.get .before node = null
  · by_cases noNext : h.get .after node = null
    · rw [if_neg (fun both => both.1 noPrior), if_neg (fun ne => ne noPrior),
        if_neg (fun ne => ne noNext), noPrior, noNext]
      exact rejoined_none
    · rw [if_neg (fun both => both.1 noPrior), if_neg (fun ne => ne noPrior), if_pos noNext,
        noPrior]
      exact rejoined_next noNext fits
  · by_cases noNext : h.get .after node = null
    · rw [if_neg (fun both => both.2 noNext), if_pos noPrior, noNext]
      exact rejoined_prior noPrior fits
    · rw [if_pos ⟨noPrior, noNext⟩]
      exact rejoined_both noPrior noNext fits fits

/-- The null pointer is not a node. -/
theorem Nodes.nonnull (nodes : Nodes list) (member : node ∈ list) : node ≠ null := by
  have low := nodes.low node member
  unfold null
  omega

/-- What the ends of two neighbouring lists are called by their links. -/
theorem neighbours_members :
    (front.getLastD null ≠ null → front.getLastD null ∈ front ++ back) ∧
      (back.headD null ≠ null → back.headD null ∈ front ++ back) := by
  constructor
  · cases front using List.reverseRecOn with
    | nil => simp
    | append_singleton front last => simp
  · cases back with
    | nil => simp
    | cons first back => simp

/-- The seam conditions of a joined list, in terms of the neighbours' addresses. -/
theorem seam_iff (nodes : Nodes (front ++ back)) (member : other ∈ front ++ back) :
    (back.headD null ≠ null ∧ back.headD null = other ↔ back.head? = some other) ∧
      (front.getLastD null ≠ null ∧ front.getLastD null = other ↔ front.getLast? = some other) := by
  -- A node is not null, so being the neighbour of the seam already says that there is one.
  have nonnull := nodes.nonnull member
  constructor
  · cases back with
    | nil => simp
    | cons first back => simp only [List.headD_cons, List.head?_cons]; grind
  · cases front using List.reverseRecOn with
    | nil => simp
    | append_singleton front last => simp only [List.getLastD_concat, List.getLast?_concat]; grind

/-- The remaining nodes of a list can still be the nodes of a list. -/
theorem Nodes.remove (nodes : Nodes (front ++ node :: back)) : Nodes (front ++ back) where
  distinct := nodes.distinct.sublist ((List.sublist_cons_self _ _).append_left _)
  low other member := nodes.low other (by grind)
  bounded other member := nodes.bounded other (by grind)
  apart one first two second := nodes.apart one (by grind) two (by grind)

/-- A header apart from all nodes of a list can be put in front of it. -/
theorem Nodes.cons (nodes : Nodes list) (low : 32 ≤ node) (fits : node < 2 ^ 64)
    (absent : node ∉ list) (apart : ∀ other ∈ list, Apart node other) : Nodes (node :: list) where
  distinct := List.nodup_cons.mpr ⟨absent, nodes.distinct⟩
  low other member := by
    rcases List.mem_cons.mp member with rfl | old
    · exact low
    · exact nodes.low other old
  bounded other member := by
    rcases List.mem_cons.mp member with rfl | old
    · exact fits
    · exact nodes.bounded other old
  apart one first two second := by
    rcases List.mem_cons.mp first with rfl | old <;> rcases List.mem_cons.mp second with rfl | old'
    · exact .inl rfl
    · exact apart two old'
    · -- An old node before the new one.
      exact (apart one old).symm
    · exact nodes.apart one old two old'

/-- A node of the list is apart from both ends of a seam. -/
theorem apart_seam (low : 32 ≤ other)
    (apart : ∀ node ∈ front ++ back, Apart other node) :
    Apart other (front.getLastD null) ∧ Apart other (back.headD null) := by
  obtain ⟨lastMember, headMember⟩ := neighbours_members
  constructor
  · by_cases none : front.getLastD null = null
    · rw [none]; exact apart_null low
    · exact apart _ (lastMember none)
  · by_cases none : back.headD null = null
    · rw [none]; exact apart_null low
    · exact apart _ (headMember none)

/-- The last of a nonempty list is in it. -/
private theorem getLastD_mem_cons (list : List Nat) (first : Nat) :
    (first :: list).getLastD null ∈ first :: list := by
  rw [List.getLastD_eq_getLast?, List.getLast?_eq_some_getLast (List.cons_ne_nil _ _)]
  exact List.getLast_mem _

/-- Joining the neighbours of a node with each other unlinks the node. -/
theorem Rejoined.unlink (nodes : Nodes (front ++ node :: back))
    (links : FreeLinks h (front ++ node :: back))
    (rejoined : Rejoined h h' (front.getLastD null) (back.headD null) (back.headD null)
      (front.getLastD null)) : FreeLinks h' (front ++ back) := by
  have rest := nodes.remove
  have away : ∀ other ∈ front ++ back,
      Apart other (front.getLastD null) ∧ Apart other (back.headD null) := fun other member =>
    apart_seam (rest.low other member) (rest.apart other member)
  refine ⟨links.linked.unlink rest.distinct (fun other member => ?_) (fun other member => ?_), ?_⟩
  · rw [rejoined.before other (away other member).1 (away other member).2]
    simp only [(seam_iff rest member).1]
  · rw [rejoined.after other (away other member).1 (away other member).2]
    simp only [(seam_iff rest member).2]
  · rw [rejoined.head]
    -- Without a node in front, `head` moves to the next one; otherwise it stays.
    cases front with
    | nil => simp
    | cons first front =>
      have nonnull : (first :: front).getLastD null ≠ null :=
        rest.nonnull (List.mem_append_left _ (getLastD_mem_cons front first))
      rw [if_neg nonnull, links.head]
      rfl

/-- Joining the neighbours of a node to a new node puts that node in its place. -/
theorem Rejoined.replace (nodes : Nodes (front ++ node :: back))
    (links : FreeLinks h (front ++ node :: back))
    (rejoined : Rejoined h h' (front.getLastD null) (back.headD null) fresh fresh)
    (low : 32 ≤ fresh) (apart : ∀ node ∈ front ++ back, Apart fresh node)
    (different : fresh ∉ front ++ back)
    (prior : h.get .before fresh = front.getLastD null)
    (next : h.get .after fresh = back.headD null) : FreeLinks h' (front ++ fresh :: back) := by
  have rest := nodes.remove
  have away : ∀ other ∈ front ++ back,
      Apart other (front.getLastD null) ∧ Apart other (back.headD null) := fun other member =>
    apart_seam (rest.low other member) (rest.apart other member)
  have freshAway := apart_seam low apart
  obtain ⟨lastMember, headMember⟩ := neighbours_members
  refine ⟨links.linked.replace rest.distinct ?_ ?_ (fun other member => ?_)
    (fun other member => ?_), ?_⟩
  · -- The links of the new node are those that were prepared in it.
    rw [rejoined.before fresh freshAway.1 freshAway.2, prior, if_neg]
    exact fun ⟨nonnull, same⟩ => different (same ▸ headMember nonnull)
  · rw [rejoined.after fresh freshAway.1 freshAway.2, next, if_neg]
    exact fun ⟨nonnull, same⟩ => different (same ▸ lastMember nonnull)
  · rw [rejoined.before other (away other member).1 (away other member).2]
    simp only [(seam_iff rest member).1]
  · rw [rejoined.after other (away other member).1 (away other member).2]
    simp only [(seam_iff rest member).2]
  · rw [rejoined.head]
    -- Without a node in front, `head` moves to the new node; otherwise it stays.
    cases front with
    | nil => simp
    | cons first front =>
      have nonnull : (first :: front).getLastD null ≠ null :=
        rest.nonnull (List.mem_append_left _ (getLastD_mem_cons front first))
      rw [if_neg nonnull, links.head]
      rfl

/-- The neighbours that the link fields of a node name. -/
theorem FreeLinks.neighbours (links : FreeLinks h (front ++ node :: back)) :
    h.get .before node = front.getLastD null ∧ h.get .after node = back.headD null :=
  links.linked.neighbours

/-- A node is not its own neighbour, because the list has no node twice. -/
theorem Nodes.neighbours_ne (nodes : Nodes (front ++ node :: back)) :
    front.getLastD null ≠ node ∧ back.headD null ≠ node := by
  have distinct := nodes.distinct
  have nonnull : node ≠ null := nodes.nonnull (by simp)
  constructor
  · cases front using List.reverseRecOn with
    | nil => simpa using nonnull.symm
    | append_singleton front last => simp only [List.getLastD_concat]; grind
  · cases back with
    | nil => simpa using nonnull.symm
    | cons first back => simp only [List.headD_cons]; grind

/-- Writing a link of one neighbour leaves the links of the node itself as they are. -/
theorem FreeLinks.reread {value : Nat} (links : FreeLinks h (front ++ node :: back))
    (nodes : Nodes (front ++ node :: back)) (field : Field) :
    (h.set .before (h.get .after node) value).get field node = h.get field node ∧
      (h.set .after (h.get .before node) value).get field node = h.get field node := by
  obtain ⟨prior, next⟩ := links.neighbours
  have away := @apart_seam front back node (nodes.low node (by simp)) fun other member =>
    nodes.apart node (by simp) other (by grind)
  rw [prior, next]
  exact ⟨Heap.get_set_other away.2 (.inr nodes.neighbours_ne.2),
    Heap.get_set_other away.1 (.inr nodes.neighbours_ne.1)⟩

/-- `delete_data_node` unlinks a node of the list and touches only links of the others. -/
theorem deleteDataNode_spec (nodes : Nodes (front ++ node :: back))
    (links : FreeLinks h (front ++ node :: back)) :
    SameProcess h (deleteDataNode h node) ∧ FreeLinks (deleteDataNode h node) (front ++ back) ∧
      ∀ lower upper, Untouched (front ++ back) lower upper h (deleteDataNode h node) := by
  obtain ⟨prior, next⟩ := links.neighbours
  have low := nodes.low node (by simp)
  have away := @apart_seam front back node low fun other member =>
    nodes.apart node (by simp) other (by grind)
  have nonnull : node ≠ null := nodes.nonnull (by simp)
  have rejoined := deleteDataNode_rejoined nonnull (by rw [next]; exact away.2)
    (by rw [next]; exact nodes.neighbours_ne.2)
  -- The link fields of the node name the ends of the two parts of the list.
  rw [prior, next] at rejoined
  obtain ⟨lastMember, headMember⟩ := @neighbours_members front back
  exact ⟨rejoined.process, rejoined.unlink nodes links,
    fun lower upper => rejoined.untouched _ lower upper lastMember headMember⟩

/-- `relist_split` puts a prepared node in the place of another and touches only links. -/
theorem relistSplit_spec (nodes : Nodes (front ++ node :: back))
    (links : FreeLinks h (front ++ node :: back)) (low : 32 ≤ fresh) (fits : fresh < 2 ^ 64)
    (apart : ∀ node ∈ front ++ back, Apart fresh node) (different : fresh ∉ front ++ back)
    (prior : h.get .before fresh = h.get .before node)
    (next : h.get .after fresh = h.get .after node) :
    SameProcess h (relistSplit h node fresh) ∧
      FreeLinks (relistSplit h node fresh) (front ++ fresh :: back) ∧
      ∀ lower upper, Untouched (front ++ back) lower upper h (relistSplit h node fresh) := by
  obtain ⟨nodePrior, nodeNext⟩ := links.neighbours
  have away := @apart_seam front back node (nodes.low node (by simp)) fun other member =>
    nodes.apart node (by simp) other (by grind)
  have rejoined := relistSplit_rejoined (by rw [nodePrior]; exact away.1) fits
    (by rw [nodePrior]; exact nodes.neighbours_ne.1)
  rw [nodePrior, nodeNext] at rejoined
  obtain ⟨lastMember, headMember⟩ := @neighbours_members front back
  exact ⟨rejoined.process,
    rejoined.replace nodes links low apart different (prior.trans nodePrior) (next.trans nodeNext),
    fun lower upper => rejoined.untouched _ lower upper lastMember headMember⟩

/-- Link fields outside a written header keep the free list. -/
theorem FreeLinks.set {field : Field} (links : FreeLinks h list)
    (apart : ∀ other ∈ list, Apart other node)
    (harmless : field = .size ∨ field = .free ∨ node ∉ list) :
    FreeLinks (h.set field node value) list := by
  -- The write is to another field than a link, or to a header that is not in the list.
  have differ : ∀ {link : Field}, link = .before ∨ link = .after → ∀ other ∈ list,
      field ≠ link ∨ node ≠ other := by
    intro link kind other member
    rcases harmless with rfl | rfl | absent
    · rcases kind with rfl | rfl <;> exact .inl (by decide)
    · rcases kind with rfl | rfl <;> exact .inl (by decide)
    · exact .inr fun same => absent (same ▸ member)
  exact ⟨links.linked.congr
    (fun other member => Heap.get_set_other (apart other member) (differ (.inl rfl) other member))
    (fun other member => Heap.get_set_other (apart other member) (differ (.inr rfl) other member)),
    links.head⟩

/-- A tag outside the headers of the free list keeps the free list. -/
theorem FreeLinks.setTag {address : Nat} (links : FreeLinks h list)
    (outside : ∀ other ∈ list, address + 8 ≤ other ∨ other + 32 ≤ address) :
    FreeLinks (h.setTag address value) list :=
  ⟨links.linked.congr (fun other member => Heap.get_setTag (outside other member))
    (fun other member => Heap.get_setTag (outside other member)), links.head⟩

/-- The last part of linking a node in front of the list: its own links are already written. -/
def pushHead (h : Heap) (node : Nat) : Heap :=
  { (if h.head ≠ null then h.set .before h.head node else h) with head := node }

/-- A node whose links say that it comes first becomes the first node. -/
theorem pushHead_spec (nodes : Nodes (node :: list)) (links : FreeLinks h list)
    (prior : h.get .before node = null) (next : h.get .after node = h.head) :
    SameProcess h (pushHead h node) ∧ FreeLinks (pushHead h node) (node :: list) ∧
      ∀ lower upper, Untouched list lower upper h (pushHead h node) := by
  have fits := nodes.bounded node (by simp)
  unfold pushHead
  cases list with
  | nil =>
    -- In an empty list only `head` is set.
    have head : h.head = null := by simpa using links.head
    rw [if_neg (by simp [head])]
    exact ⟨⟨rfl, rfl, rfl, rfl⟩, ⟨⟨prior, next.trans head, trivial⟩, rfl⟩, fun _ _ => untouched_head⟩
  | cons first rest =>
    have head : h.head = first := by simpa using links.head
    -- The old first node gets the new node as its predecessor.
    have different : first ≠ node := by have distinct := nodes.distinct; grind
    have away : ∀ other ∈ node :: first :: rest, Apart other first :=
      fun other member => nodes.apart _ member _ (by simp)
    rw [head, if_pos (nodes.nonnull (by simp))]
    refine ⟨⟨rfl, rfl, rfl, rfl⟩, ⟨?_, rfl⟩, fun lower upper =>
      (untouched_link (.inl rfl) (by simp)).trans untouched_head⟩
    show Linked ((h.set .before first node).get .before) ((h.set .before first node).get .after) _ _ _
    refine links.linked.push (List.nodup_cons.mp nodes.distinct).2 ?_ ?_
      (fun other member => ?_) (fun other member => ?_)
    · rw [Heap.get_set_other (away node (by simp)) (.inr different), prior]
    · rw [Heap.get_set_other (away node (by simp)) (.inl (by decide)), next, head]
      rfl
    · rw [Heap.get_set (away other (by simp [member])) fits]
      simp
    · exact Heap.get_set_other (away other (by simp [member])) (.inl (by decide))

/-- Both branches of the insertion write the links of the node and then push it. -/
theorem linkAtHead_eq :
    linkAtHead h node = pushHead ((h.set .after node h.head).set .before node null) node := by
  unfold linkAtHead pushHead
  by_cases empty : h.head = null
  · rw [if_pos empty, if_neg (by simpa using empty), empty]
    rfl
  · rw [if_neg empty, if_pos (by simpa using empty)]

/-- Linking a node in front of the free list. -/
theorem linkAtHead_spec (nodes : Nodes (node :: list)) (links : FreeLinks h list) :
    SameProcess h (linkAtHead h node) ∧ FreeLinks (linkAtHead h node) (node :: list) ∧
      ∀ lower upper, Untouched (node :: list) lower upper h (linkAtHead h node) := by
  have absent := (List.nodup_cons.mp nodes.distinct).1
  have apart : ∀ other ∈ list, Apart other node := fun other member =>
    nodes.apart other (by simp [member]) node (by simp)
  -- The links of the new node are written outside the list.
  have rest : FreeLinks ((h.set .after node h.head).set .before node null) list :=
    (links.set apart (.inr (.inr absent))).set apart (.inr (.inr absent))
  rw [linkAtHead_eq]
  have prior : ((h.set .after node h.head).set .before node null).get .before node = null :=
    Heap.get_set_same .before
  have next : ((h.set .after node h.head).set .before node null).get .after node = h.head := by
    rw [Heap.get_set_other (.inl rfl) (.inl (by decide)), Heap.get_set_same, links.head]
    refine Nat.mod_eq_of_lt ?_
    cases list with
    | nil => decide
    | cons first list => exact nodes.bounded first (by simp)
  obtain ⟨process, newLinks, kept⟩ := pushHead_spec nodes rest prior next
  exact ⟨(sameProcess_set.trans sameProcess_set).trans process, newLinks, fun lower upper =>
    ((untouched_link (.inr rfl) (by simp)).trans (untouched_link (.inl rfl) (by simp))).trans
      ((kept 0 0).mono (fun _ member => .inl (by simp [member])) (.inr (by simp)) (.inr (by simp)))⟩

end SystemProgramming.Malloc
