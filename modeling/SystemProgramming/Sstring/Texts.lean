import SystemProgramming.Sstring.Sstring

/-! Sstrings are strings: what the calls do to the texts that the pool shows. -/

namespace SystemProgramming.Sstring

open Foundations Foundations.Strings

/-- Each sstring has the length of the string in its block, and no two share a block. -/
structure Shows (st : State) (texts : List (List UInt8)) : Prop where
  count : st.members.length = texts.length
  shown : ∀ (i : Nat) (member : Sstring) (text : List UInt8), st.members[i]? = some member →
    texts[i]? = some text → member.length = text.length ∧ st.heap.string member.s 0 = some text
  distinct : ∀ (i j : Nat) (first second : Sstring), st.members[i]? = some first →
    st.members[j]? = some second → first.s = second.s → i = j
  allocated : ∀ (i : Nat) (member : Sstring), st.members[i]? = some member → member.s < st.heap.next

/-- The sstring that a call changes. -/
def Operation.changes : Operation → Option Nat
  | append this _ | substitute this _ _ _ => some this
  | create _ | toCstr _ => none

/-- A target does not occur in a string at or behind an offset. -/
def Missing (haystack : List UInt8) (offset : Nat) (needle : List UInt8) : Prop :=
  ∀ place, offset ≤ place → place ≤ haystack.length → ¬ needle <+: haystack.drop place

/-- What a call does to strings, and what it returns. -/
def Operation.Yields (st st' : State) (texts texts' : List (List UInt8)) (reply : Reply) :
    Operation → Prop
  | create input => texts' = texts ++ [input] ∧ reply = .made texts.length
  | toCstr i => texts' = texts ∧ ∃ text address, texts[i]? = some text ∧ reply = .block address ∧
      st'.heap.string address 0 = some text
  | append i j => ∃ this addition, texts[i]? = some this ∧ texts[j]? = some addition ∧
      texts' = texts.set i (this ++ addition) ∧
      reply = .number (asInt (this ++ addition).length)
  | substitute i offset target substitution => ∃ this, texts[i]? = some this ∧
    -- What is replaced is the first occurrence; without one, nothing changes.
    ((∃ needle replacement place, target = some needle ∧ substitution = some replacement ∧
        FirstOccurrence this offset needle place ∧
        texts' = texts.set i
          (this.take place ++ replacement ++ this.drop (place + needle.length)) ∧
        reply = .number 0) ∨
      ((∀ needle, target = some needle → substitution = none ∨ Missing this offset needle) ∧
        texts' = texts ∧ st' = st ∧ reply = .number (-1)))

/-- A call does to the strings what it is for, and leaves all other sstrings alone. -/
def Works (st : State) (texts : List (List UInt8)) (operation : Operation) : Prop :=
  ∃ reply st' texts', execute st operation = some (reply, st') ∧ Shows st' texts' ∧
    operation.Yields st st' texts texts' reply ∧
    ∀ (j : Nat) (member : Sstring), operation.changes ≠ some j → st.members[j]? = some member →
      st'.members[j]? = some member ∧ st'.heap.blocks member.s = st.heap.blocks member.s

/-- The call does not append an sstring to itself, or one that is empty. -/
def Operation.Apart (st : State) (operation : Operation) : Prop :=
  ∀ (i : Nat) (member : Sstring), operation = .append i i → st.members[i]? = some member → member.length = 0

variable {st : State} {texts : List (List UInt8)} {i j : Nat} {member : Sstring}
  {characters : List UInt8}

theorem start_shows : Shows start [] where
  count := rfl
  shown i member text holds := by cases holds
  distinct i j first second holds := by cases holds
  allocated i member holds := by cases holds

/-- Every sstring that was made shows a string. -/
theorem Shows.text (shows : Shows st texts) (made : st.members[i]? = some member) :
    ∃ text, texts[i]? = some text ∧ member.length = text.length ∧
      st.heap.string member.s 0 = some text := by
  obtain ⟨inside, _⟩ := List.getElem?_eq_some_iff.mp made
  have inside' : i < texts.length := by rw [← shows.count]; exact inside
  have holds : texts[i]? = some texts[i] := List.getElem?_eq_getElem inside'
  exact ⟨_, holds, shows.shown i member _ made holds⟩

/-- Its block starts with the string. -/
theorem Shows.block (shows : Shows st texts) (made : st.members[i]? = some member) :
    ∃ text rest, texts[i]? = some text ∧ member.length = text.length ∧ (0 : UInt8) ∉ text ∧
      st.heap.blocks member.s = some (text.map some ++ some 0 :: rest) := by
  obtain ⟨text, holds, length, read⟩ := shows.text made
  obtain ⟨plain, rest, stored⟩ := Heap.string_eq_some read
  exact ⟨text, rest, holds, length, plain, stored⟩

/-- The heap may change where no sstring has its block. -/
theorem Shows.of_blocks (shows : Shows st texts) {heap : Heap} (later : st.heap.next ≤ heap.next)
    (same : ∀ (j : Nat) (member : Sstring), st.members[j]? = some member →
      heap.blocks member.s = st.heap.blocks member.s) : Shows ⟨heap, st.members⟩ texts where
  count := shows.count
  shown j member text made holds := by
    obtain ⟨length, read⟩ := shows.shown j member text made holds
    exact ⟨length, by rw [Heap.string, same j member made]; exact read⟩
  distinct := shows.distinct
  allocated j member made := Nat.lt_of_lt_of_le (shows.allocated j member made) later

/-- A new sstring, in a block that was not used before, shows its string. -/
theorem Shows.made (shows : Shows st texts) {heap : Heap} (later : st.heap.next < heap.next)
    (same : ∀ (j : Nat) (member : Sstring), st.members[j]? = some member →
      heap.blocks member.s = st.heap.blocks member.s)
    (read : heap.string st.heap.next 0 = some characters) :
    Shows ⟨heap, st.members ++ [⟨st.heap.next, characters.length⟩]⟩ (texts ++ [characters]) := by
  have old := shows.of_blocks (Nat.le_of_lt later) same
  -- A member is an old one, or the one at the end.
  have split : ∀ {j : Nat} {member : Sstring},
      (st.members ++ [(⟨st.heap.next, characters.length⟩ : Sstring)])[j]? = some member →
        st.members[j]? = some member ∨
        (j = st.members.length ∧ member = ⟨st.heap.next, characters.length⟩) := by
    intro j member holds
    rw [List.getElem?_append] at holds
    split at holds
    · exact .inl holds
    · obtain ⟨single, same⟩ := List.getElem?_eq_some_iff.mp holds
      simp only [List.length_singleton] at single
      simp only [List.getElem_singleton] at same
      exact .inr ⟨by omega, same.symm⟩
  constructor
  · simp [shows.count]
  · intro j member text made holds
    rcases split made with before | ⟨rfl, rfl⟩
    · obtain ⟨inside, _⟩ := List.getElem?_eq_some_iff.mp before
      rw [List.getElem?_append_left (by rw [← shows.count]; exact inside)] at holds
      exact old.shown j member text before holds
    · rw [shows.count, List.getElem?_concat_length] at holds
      obtain rfl := Option.some.inj holds
      exact ⟨rfl, read⟩
  · intro j k first second one two equal
    rcases split one with before | ⟨rfl, rfl⟩ <;> rcases split two with before' | ⟨rfl, rfl⟩
    · exact shows.distinct j k first second before before' equal
    · exact absurd equal (Nat.ne_of_lt (shows.allocated j first before))
    · exact absurd equal.symm (Nat.ne_of_lt (shows.allocated k second before'))
    · rfl
  · intro j member made
    rcases split made with before | ⟨rfl, rfl⟩
    · exact old.allocated j member before
    · exact later

/-- An sstring that moves to a block that was not used before shows its new string. -/
theorem Shows.moved (shows : Shows st texts) {heap : Heap} (inside : i < st.members.length)
    (later : st.heap.next < heap.next)
    (same : ∀ (j : Nat) (member : Sstring), i ≠ j → st.members[j]? = some member →
      heap.blocks member.s = st.heap.blocks member.s)
    (read : heap.string st.heap.next 0 = some characters) :
    Shows ⟨heap, st.members.set i ⟨st.heap.next, characters.length⟩⟩ (texts.set i characters) where
  count := by simp [shows.count]
  shown j member text made holds := by
    by_cases here : i = j
    · subst here
      rw [List.getElem?_set_self inside] at made
      rw [List.getElem?_set_self (by rw [← shows.count]; exact inside)] at holds
      obtain rfl := Option.some.inj made
      obtain rfl := Option.some.inj holds
      exact ⟨rfl, read⟩
    · rw [List.getElem?_set_ne here] at made holds
      obtain ⟨length, before⟩ := shows.shown j member text made holds
      exact ⟨length, by rw [Heap.string, same j member here made]; exact before⟩
  distinct j k first second one two equal := by
    -- The block was not used before, so that no other sstring has it.
    by_cases here : i = j <;> by_cases there : i = k
    · exact here.symm.trans there
    · subst here
      rw [List.getElem?_set_self inside] at one
      rw [List.getElem?_set_ne there] at two
      obtain rfl := Option.some.inj one
      exact absurd equal.symm (Nat.ne_of_lt (shows.allocated k second two))
    · subst there
      rw [List.getElem?_set_self inside] at two
      rw [List.getElem?_set_ne here] at one
      obtain rfl := Option.some.inj two
      exact absurd equal (Nat.ne_of_lt (shows.allocated j first one))
    · rw [List.getElem?_set_ne here] at one
      rw [List.getElem?_set_ne there] at two
      exact shows.distinct j k first second one two equal
  allocated j member made := by
    by_cases here : i = j
    · subst here
      rw [List.getElem?_set_self inside] at made
      obtain rfl := Option.some.inj made
      exact later
    · rw [List.getElem?_set_ne here] at made
      exact Nat.lt_trans (shows.allocated j member made) later

section Calls

/-- A block that is allocated is new, and nothing else changes. -/
theorem malloc_new (heap : Heap) (size : Nat) {after : Heap}
    (changes : Heap.Changes (heap.malloc size).2 after heap.next) :
    heap.next < after.next ∧ ∀ block, block < heap.next →
      after.blocks block = heap.blocks block := by
  refine ⟨by rw [changes.next]; exact Nat.lt_succ_self _, fun block below => ?_⟩
  rw [changes.others block (Nat.ne_of_lt below)]
  exact Function.update_of_ne (Nat.ne_of_lt below) _ _

/-- A string is copied to a new block of its size. -/
theorem copied_new (heap : Heap) (plain : (0 : UInt8) ∉ characters) :
    ∃ after, (heap.malloc (characters.length + 1)).2.strcpy heap.next 0 characters = some after ∧
      Heap.Changes (heap.malloc (characters.length + 1)).2 after heap.next ∧
      after.string heap.next 0 = some characters := by
  have stored : (heap.malloc (characters.length + 1)).2.blocks heap.next =
      some ([] ++ List.replicate (characters.length + 1) none) := Function.update_self _ _ _
  obtain ⟨after, done, changes, result⟩ :=
    @Heap.strcpy_behind characters _ _ _ _ 0 stored rfl (by simp)
  exact ⟨after, done, changes, Heap.string_eq result plain⟩

theorem works_create (shows : Shows st texts) (plain : (0 : UInt8) ∉ characters) :
    Works st texts (.create characters) := by
  obtain ⟨heap, done, changes, read⟩ := copied_new st.heap plain
  obtain ⟨later, same⟩ := malloc_new _ _ changes
  have kept : ∀ (j : Nat) (member : Sstring), st.members[j]? = some member →
      heap.blocks member.s = st.heap.blocks member.s := fun j member made =>
    same member.s (shows.allocated j member made)
  refine ⟨.made st.members.length, _, _, ?_, shows.made later kept read,
    ⟨rfl, by rw [shows.count]⟩, ?_⟩
  · rw [execute, cstrToSstring]
    simp only [Heap.malloc] at done ⊢
    rw [done]
    rfl
  · intro j member _ made
    obtain ⟨inside, _⟩ := List.getElem?_eq_some_iff.mp made
    exact ⟨by rw [List.getElem?_append_left inside]; exact made, kept j member made⟩

theorem works_toCstr (shows : Shows st texts) (inside : i < st.members.length) :
    Works st texts (.toCstr i) := by
  have made := List.getElem?_eq_getElem inside
  obtain ⟨text, rest, holds, length, plain, stored⟩ := shows.block made
  obtain ⟨heap, done, changes, read⟩ := copied_new st.heap plain
  obtain ⟨later, same⟩ := malloc_new _ _ changes
  have kept : ∀ (j : Nat) (member : Sstring), st.members[j]? = some member →
      heap.blocks member.s = st.heap.blocks member.s := fun j member made =>
    same member.s (shows.allocated j member made)
  refine ⟨_, _, _, ?_, shows.of_blocks (Nat.le_of_lt later) kept,
    ⟨rfl, text, st.heap.next, holds, rfl, read⟩, fun j member _ made => ⟨made, kept j member made⟩⟩
  -- The block that is read is not the one that was allocated.
  have apart : st.members[i].s ≠ st.heap.next := Nat.ne_of_lt (shows.allocated i _ made)
  have found : (st.heap.malloc (st.members[i].length + 1)).2.string st.members[i].s 0 =
      some text := by
    rw [Heap.string, Heap.malloc]
    simp only [Function.update_of_ne apart]
    exact (shows.shown i _ text made holds).2
  rw [execute, made]
  simp only [Option.bind_eq_bind, Option.bind_some, sstringToCstr]
  rw [found, length]
  simp only [Heap.malloc] at done ⊢
  simp only [Option.bind_some, done, Option.map_some]

/--
An append moves the first sstring to a larger block; if its string is behind the other one there then,
the append has worked.
-/
theorem works_append_of {this addition moved : Sstring} {text more : List UInt8} {grown heap : Heap}
    (shows : Shows st texts) (first : st.members[i]? = some this)
    (second : st.members[j]? = some addition) (holds : texts[i]? = some text)
    (holds' : texts[j]? = some more)
    (grows : st.heap.realloc this.s (text.length + more.length + 1) = some (st.heap.next, grown))
    (next : grown.next = st.heap.next + 1)
    (others : ∀ other, other ≠ this.s → other ≠ st.heap.next →
      grown.blocks other = st.heap.blocks other)
    (found : (st.members.set i ⟨st.heap.next, (text ++ more).length⟩)[j]? = some moved)
    (done : grown.strcat st.heap.next moved.s = some heap)
    (changes : Heap.Changes grown heap st.heap.next)
    (read : heap.string st.heap.next 0 = some (text ++ more)) : Works st texts (.append i j) := by
  obtain ⟨inside, _⟩ := List.getElem?_eq_some_iff.mp first
  have later : st.heap.next < heap.next := by rw [changes.next, next]; exact Nat.lt_succ_self _
  -- Neither the old block nor the new one belongs to another sstring.
  have kept : ∀ (k : Nat) (member : Sstring), i ≠ k → st.members[k]? = some member →
      heap.blocks member.s = st.heap.blocks member.s := by
    intro k member apart made
    have fresh : member.s ≠ st.heap.next := Nat.ne_of_lt (shows.allocated k member made)
    rw [changes.others member.s fresh]
    exact others member.s (fun same => apart (shows.distinct i k _ _ first made same.symm)) fresh
  refine ⟨_, _, _, ?_, shows.moved inside later kept read, ⟨text, more, holds, holds', rfl, rfl⟩, ?_⟩
  · have length := (shows.shown i this text first holds).1
    have length' := (shows.shown j addition more second holds').1
    rw [List.length_append] at found
    rw [execute, sstringAppend, first, second]
    simp only [Option.bind_eq_bind, Option.bind_some, length, length']
    rw [grows]
    simp only [Option.bind_some]
    rw [found]
    simp only [Option.bind_some, done, Option.map_some, List.length_append]
  · intro k member apart made
    have elsewhere : i ≠ k := fun same => apart (congrArg some same)
    exact ⟨by rw [List.getElem?_set_ne elsewhere]; exact made, kept k member elsewhere made⟩

theorem works_append_apart (shows : Shows st texts) (inside : i < st.members.length)
    (inside' : j < st.members.length) (apart : i ≠ j) : Works st texts (.append i j) := by
  have first := List.getElem?_eq_getElem inside
  have second := List.getElem?_eq_getElem inside'
  obtain ⟨text, rest, holds, length, plain, stored⟩ := shows.block first
  obtain ⟨more, holds', length', read⟩ := shows.text second
  obtain ⟨grown, room, grows, next, enough, target, others⟩ :=
    @Heap.realloc_larger _ _ _ _ more.length stored
  -- The string that is appended lies in a block of its own.
  have fresh : st.members[j].s ≠ st.heap.next := Nat.ne_of_lt (shows.allocated j _ second)
  have elsewhere : st.members[j].s ≠ st.members[i].s := fun same =>
    apart (shows.distinct i j _ _ first second same.symm)
  have source : grown.string st.members[j].s 0 = some more := by
    rw [Heap.string, others _ elsewhere fresh]
    exact read
  obtain ⟨heap, done, changes, result⟩ := Heap.strcat_apart (Ne.symm fresh) source target plain
    (Nat.le_of_eq enough.symm)
  exact works_append_of shows first second holds holds' grows next others
    (by rw [List.getElem?_set_ne apart]; exact second) done changes result

/-- An append of an sstring to itself is a `strcat` of the block that it has moved to. -/
theorem appended_self (shows : Shows st texts) (inside : i < st.members.length) :
    (st.members[i].length ≠ 0 → execute st (.append i i) = none) ∧
      (st.members[i].length = 0 → Works st texts (.append i i)) := by
  have first := List.getElem?_eq_getElem inside
  obtain ⟨text, rest, holds, length, plain, stored⟩ := shows.block first
  obtain ⟨grown, room, grows, next, _, target, others⟩ :=
    @Heap.realloc_larger _ _ _ _ text.length stored
  -- By then the sstring that is appended is the one that has moved.
  have found : (st.members.set i ⟨st.heap.next, (text ++ text).length⟩)[i]? =
      some ⟨st.heap.next, (text ++ text).length⟩ := List.getElem?_set_self inside
  obtain ⟨fails, empties⟩ := Heap.strcat_self target plain
  rw [length]
  constructor
  · intro nonempty
    have stuck := fails fun empty => nonempty (by rw [empty]; rfl)
    rw [List.length_append] at found
    rw [execute, sstringAppend, first]
    simp only [Option.bind_eq_bind, Option.bind_some, length]
    rw [grows]
    simp only [Option.bind_some]
    rw [found]
    simp only [Option.bind_some, stuck, Option.bind_none, Option.map_none]
  · intro empty
    obtain rfl := List.length_eq_zero_iff.mp empty
    obtain ⟨heap, done, changes, result⟩ := empties rfl
    exact works_append_of shows first first holds holds grows next others found done changes result

/--
The three copies of a substitution put the part before the target, what replaces it, and the part
behind it one after the other.
-/
theorem substituted_new {heap : Heap} {s length place skipped : Nat}
    {whole replacement : List UInt8} (read : heap.string s 0 = some whole)
    (below : s < heap.next) (inside : place + skipped ≤ whole.length)
    (plain : (0 : UInt8) ∉ replacement)
    (size : length = whole.length - skipped + replacement.length) :
    ∃ front middle after,
      (heap.malloc (length + 1)).2.strncpy heap.next 0 whole place = some front ∧
      front.strncpy heap.next place replacement replacement.length = some middle ∧
      middle.string s (place + skipped) = some (whole.drop (place + skipped)) ∧
      middle.strcpy heap.next (place + replacement.length) (whole.drop (place + skipped)) =
        some after ∧
      Heap.Changes (heap.malloc (length + 1)).2 after heap.next ∧
      after.string heap.next 0 =
        some (whole.take place ++ replacement ++ whole.drop (place + skipped)) := by
  have free_of_zero : (0 : UInt8) ∉ whole := (Heap.string_eq_some read).1
  have taken : (whole.take place).length = place := List.length_take_of_le (by omega)
  have allocated : (heap.malloc (length + 1)).2.blocks heap.next =
      some ([] ++ List.replicate (length + 1) none) := Function.update_self _ _ _
  obtain ⟨front, done, changes, first⟩ :=
    @Heap.strncpy_behind whole _ _ _ _ 0 place allocated rfl (by omega)
      (by rw [List.length_replicate]; omega)
  obtain ⟨middle, done', changes', second⟩ :=
    @Heap.strncpy_behind replacement _ _ _ _ place replacement.length first
      (by rw [List.nil_append, List.length_map, taken]) (Nat.le_refl _)
      (by simp only [List.length_drop, List.length_replicate]; omega)
  obtain ⟨after, done'', changes'', third⟩ :=
    @Heap.strcpy_behind (whole.drop (place + skipped)) _ _ _ _ (place + replacement.length) second
      (by rw [List.nil_append, List.take_length, ← List.map_append, List.length_map,
        List.length_append, taken])
      (by simp only [List.length_drop, List.length_replicate]; omega)
  refine ⟨front, middle, after, done, done', ?_, done'', (changes.trans changes').trans changes'', ?_⟩
  · -- The copies so far have not touched the old string.
    have apart : s ≠ heap.next := Nat.ne_of_lt below
    refine Heap.string_drop ?_ inside
    rw [Heap.string, (changes.trans changes').others s apart,
      show (heap.malloc (length + 1)).2.blocks s = heap.blocks s from Function.update_of_ne apart _ _]
    exact read
  · rw [List.nil_append, List.take_length, ← List.map_append, ← List.map_append] at third
    refine Heap.string_eq third ?_
    simp only [List.mem_append, not_or]
    exact ⟨⟨fun member => free_of_zero (List.mem_of_mem_take member), plain⟩,
      fun member => free_of_zero (List.mem_of_mem_drop member)⟩

/-- A substitution that finds the target. -/
theorem works_substitute_found {this : Sstring} {whole needle replacement : List UInt8}
    {offset place : Nat} (shows : Shows st texts) (made : st.members[i]? = some this)
    (holds : texts[i]? = some whole) (within : offset ≤ whole.length)
    (plain : (0 : UInt8) ∉ replacement)
    (found : strstr (whole.drop offset) needle = some place) :
    Works st texts (.substitute i offset (some needle) (some replacement)) := by
  obtain ⟨count, read⟩ := shows.shown i this whole made holds
  obtain ⟨stored, _⟩ := List.getElem?_eq_some_iff.mp made
  have below := shows.allocated i this made
  have first := FirstOccurrence.of_drop within (strstr_eq_some found)
  have inside := first.2.1
  have occurs := first.2.2.1
  have fits := occurs.length_le
  rw [List.length_drop] at fits
  obtain ⟨front, middle, heap, done, done', rest, done'', changes, result⟩ :=
    @substituted_new st.heap this.s (whole.length - needle.length + replacement.length)
      (offset + place) needle.length whole replacement read below (by omega) plain rfl
  obtain ⟨later, same⟩ := malloc_new _ _ changes
  -- The old block is given back only now.
  have kept : ∀ (k : Nat) (member : Sstring), i ≠ k → st.members[k]? = some member →
      (heap.free this.s).blocks member.s = st.heap.blocks member.s := by
    intro k member apart made'
    have other : member.s ≠ this.s := fun same => apart (shows.distinct i k _ _ made made' same.symm)
    rw [Heap.free, ← same member.s (shows.allocated k member made')]
    exact Function.update_of_ne other _ _
  have reads : (heap.free this.s).string st.heap.next 0 = some (whole.take (offset + place) ++
      replacement ++ whole.drop (offset + place + needle.length)) := by
    rw [← result, Heap.string, Heap.string, Heap.free]
    simp only [Function.update_of_ne (Nat.ne_of_gt below)]
  have length : (whole.take (offset + place) ++ replacement ++
      whole.drop (offset + place + needle.length)).length =
      whole.length - needle.length + replacement.length := by
    simp only [List.length_append, List.length_take, List.length_drop]
    omega
  have shows' := shows.moved stored (show st.heap.next < (heap.free this.s).next from later) kept reads
  rw [length] at shows'
  refine ⟨_, _, _, ?_, shows', ⟨whole, holds, .inl ⟨needle, replacement, offset + place, rfl, rfl,
    first, rfl, rfl⟩⟩, ?_⟩
  · have untouched : (st.heap.malloc (whole.length - needle.length + replacement.length + 1)).2.string
        this.s 0 = some whole := by
      rw [Heap.string, Heap.malloc]
      simp only [Function.update_of_ne (Nat.ne_of_lt below)]
      exact read
    rw [execute, sstringSubstitute, made]
    simp only [Option.bind_eq_bind, Option.bind_some, count]
    rw [Heap.string_drop read within]
    simp only [Option.bind_some, found]
    rw [untouched]
    simp only [Heap.malloc] at done ⊢
    simp only [Option.bind_some, done, done', rest, done'', Option.map_some]
  · intro k member apart made'
    have elsewhere : i ≠ k := fun same => apart (congrArg some same)
    exact ⟨by rw [List.getElem?_set_ne elsewhere]; exact made', kept k member elsewhere made'⟩

/-- A substitution that has nothing to do. -/
theorem works_substitute_none {whole : List UInt8} {offset : Nat}
    {target substitution : Option (List UInt8)} (shows : Shows st texts)
    (holds : texts[i]? = some whole)
    (nothing : ∀ needle, target = some needle → substitution = none ∨ Missing whole offset needle)
    (returns : sstringSubstitute i offset target substitution st = some (-1, st)) :
    Works st texts (.substitute i offset target substitution) := by
  refine ⟨_, st, texts, ?_, shows, ⟨whole, holds, .inr ⟨nothing, rfl, rfl, rfl⟩⟩,
    fun k member _ made => ⟨made, rfl⟩⟩
  rw [execute, returns, Option.map_some]

theorem works_substitute {offset : Nat} {target substitution : Option (List UInt8)}
    (shows : Shows st texts)
    (valid : (Operation.substitute i offset target substitution).Valid st) :
    Works st texts (.substitute i offset target substitution) := by
  obtain ⟨⟨this, made, within⟩, _, plain⟩ := valid
  obtain ⟨whole, holds, count, read⟩ := shows.text made
  rw [count] at within
  cases target with
  | none => exact works_substitute_none shows holds (by simp) rfl
  | some needle =>
    cases substitution with
    | none => exact works_substitute_none shows holds (fun _ _ => .inl rfl) rfl
    | some replacement =>
      cases found : strstr (whole.drop offset) needle with
      | some place => exact works_substitute_found shows made holds within (plain _ rfl) found
      | none =>
        apply works_substitute_none shows holds
        · rintro other same
          obtain rfl := Option.some.inj same
          right
          intro place lower upper occurs
          -- A place behind the offset is one of the string that was searched.
          obtain ⟨distance, rfl⟩ := Nat.exists_eq_add_of_le lower
          apply strstr_eq_none found distance
          rw [List.length_drop, List.drop_drop]
          exact ⟨by omega, occurs⟩
        · rw [sstringSubstitute, made]
          simp only [Option.bind_eq_bind, Option.bind_some]
          rw [Heap.string_drop read within]
          simp only [Option.bind_some, found]

end Calls

/-- An append of an sstring to itself is apart exactly if the sstring is empty. -/
theorem apart_self_iff (inside : i < st.members.length) :
    (Operation.append i i).Apart st ↔ st.members[i].length = 0 := by
  have made := List.getElem?_eq_getElem inside
  constructor
  · intro apart
    exact apart i _ rfl made
  · rintro empty k member equal holds
    obtain ⟨rfl, _⟩ := Operation.append.inj equal
    rw [made] at holds
    rw [← Option.some.inj holds]
    exact empty

/-- An append to another sstring is. -/
theorem apart_of_ne (different : i ≠ j) : (Operation.append i j).Apart st := by
  rintro k member equal _
  obtain ⟨rfl, rfl⟩ := Operation.append.inj equal
  exact absurd rfl different

/-- A call that does not append an sstring with characters to itself works, and one that does fails. -/
theorem works_or_fails {operation : Operation} (shows : Shows st texts)
    (valid : operation.Valid st) :
    (operation.Apart st → Works st texts operation) ∧
      (¬ operation.Apart st → execute st operation = none) := by
  cases operation with
  | create input =>
    exact ⟨fun _ => works_create shows valid, fun close => absurd (by simp [Operation.Apart]) close⟩
  | toCstr i =>
    exact ⟨fun _ => works_toCstr shows valid, fun close => absurd (by simp [Operation.Apart]) close⟩
  | substitute i offset target substitution =>
    exact ⟨fun _ => works_substitute shows valid,
      fun close => absurd (by simp [Operation.Apart]) close⟩
  | append i j =>
    by_cases same : i = j
    · subst same
      rw [apart_self_iff valid.1]
      exact (appended_self shows valid.1).symm
    · exact ⟨fun _ => works_append_apart shows valid.1 valid.2 same,
        fun close => absurd (apart_of_ne same) close⟩

section Runs

variable {trace : List (Transition State Operation)} {final : State}

/-- After a call that returns, the sstrings show the strings that it yields. -/
theorem Shows.step {operation : Operation} {st' : State} (shows : Shows st texts)
    (stepped : Step st operation st') : ∃ texts', Shows st' texts' := by
  obtain ⟨valid, reply, returns⟩ := stepped
  obtain ⟨works, fails⟩ := works_or_fails shows valid
  by_cases apart : operation.Apart st
  · obtain ⟨_, after, texts', done, shows', _⟩ := works apart
    rw [returns] at done
    obtain ⟨rfl, rfl⟩ := Prod.mk.inj (Option.some.inj done)
    exact ⟨texts', shows'⟩
  · rw [fails apart] at returns
    cases returns

/-- In every run the texts are found step by step, as every call returns only what it yields. -/
theorem shows_of_run (run : Run Step start trace final) : ∃ texts, Shows final texts := by
  apply Run.invariant run
  · exact ⟨[], start_shows⟩
  · rintro before operation after ⟨texts, shows⟩ stepped
    exact shows.step stepped

/--
In every run the sstrings show strings, with their lengths, and every call does to these strings what
it is for exactly if it does not append an sstring that has characters to itself.
-/
theorem refines_strings (run : Run Step start trace final) :
    ∃ texts, Shows final texts ∧ ∀ operation : Operation, operation.Valid final →
      (Works final texts operation ↔ operation.Apart final) := by
  obtain ⟨texts, shows⟩ := shows_of_run run
  refine ⟨texts, shows, fun operation valid => ?_⟩
  obtain ⟨works, fails⟩ := works_or_fails shows valid
  refine ⟨?_, works⟩
  rintro ⟨reply, after, texts', returns, _⟩
  by_contra close
  rw [fails close] at returns
  cases returns

end Runs

def sampleAbc : State where
  heap := ⟨Function.update (fun _ => none) 0 (some [some 97, some 98, some 99, some 0]), 1⟩
  members := [⟨0, 3⟩]

theorem sample_run : Run Step start [⟨start, .create [97, 98, 99], sampleAbc⟩] sampleAbc := by
  have made : Step start (.create [97, 98, 99]) sampleAbc := by
    refine ⟨by simp [Operation.Valid], .made 0, ?_⟩
    simp [execute, cstrToSstring, Heap.malloc, Heap.strcpy, Heap.store, start, sampleAbc]
  exact Run.start.next made

/-- In "abc", from its second character on, "c" is replaced. -/
theorem refines_strings_abc : ∃ texts, Shows sampleAbc texts ∧
    Works sampleAbc texts (.substitute 0 1 (some [99]) (some [100, 101])) := by
  obtain ⟨texts, shows, works⟩ := refines_strings sample_run
  refine ⟨texts, shows, (works _ ?_).mpr (by simp [Operation.Apart])⟩
  exact ⟨⟨⟨0, 3⟩, rfl, by decide⟩, by simp, by simp⟩

/-- Appending "abc" to itself runs out of its block. -/
theorem append_to_itself : ¬ ∀ trace final, Run Step start trace final →
    ∃ texts, Shows final texts ∧ ∀ operation : Operation, operation.Valid final →
      Works final texts operation := by
  intro claim
  obtain ⟨texts, shows, works⟩ := claim _ _ sample_run
  obtain ⟨reply, after, texts', returns, _⟩ := works (.append 0 0) (by simp [Operation.Valid, sampleAbc])
  have nothing : execute sampleAbc (.append 0 0) = none := by
    apply (works_or_fails shows (by simp [Operation.Valid, sampleAbc])).2
    intro apart
    exact absurd (apart 0 ⟨0, 3⟩ rfl rfl) (by decide)
  rw [nothing] at returns
  cases returns

end SystemProgramming.Sstring
