import Mathlib.Data.List.Infix
import Mathlib.Logic.Function.Basic

/-! Strings that end at a zero byte, in a heap of blocks that are allocated byte by byte. -/

namespace Foundations.Strings

/-- A block of memory, whose bytes are undefined until they are written. -/
abbrev Block := List (Option UInt8)

/-- The bytes up to the first zero byte; undefined where that does not come, or a byte is missing. -/
def text : Block → Option (List UInt8)
  | [] => none
  | none :: _ => none
  | some byte :: rest => if byte = 0 then some [] else (text rest).map (byte :: ·)

variable {block rest : Block} {characters source : List UInt8} {byte : UInt8}

/-- A block that starts with a string and a zero byte holds that string. -/
theorem text_append (plain : (0 : UInt8) ∉ characters) :
    text (characters.map some ++ some 0 :: rest) = some characters := by
  induction characters with
  | nil => rfl
  | cons byte characters ih =>
    obtain ⟨nonzero, tail⟩ := List.ne_and_not_mem_of_not_mem_cons plain
    rw [List.map_cons, List.cons_append, text, if_neg (Ne.symm nonzero), ih tail, Option.map_some]

/-- A block that holds a string starts with it and a zero byte. -/
theorem text_eq_some (holds : text block = some characters) :
    (0 : UInt8) ∉ characters ∧ ∃ rest, block = characters.map some ++ some 0 :: rest := by
  -- The recursion reads one byte of the block, and of the string.
  induction block generalizing characters with
  | nil => cases holds
  | cons first block ih =>
    cases first with
    | none => cases holds
    | some byte =>
      rw [text] at holds
      split at holds
      · rename_i zero
        obtain rfl := Option.some.inj holds
        exact ⟨by simp, block, by rw [zero]; rfl⟩
      · rename_i nonzero
        obtain ⟨later, found, rfl⟩ := Option.map_eq_some_iff.mp holds
        obtain ⟨plain, rest, rfl⟩ := ih found
        exact ⟨List.not_mem_cons_of_ne_of_not_mem (Ne.symm nonzero) plain, rest, rfl⟩

/-- A string and its zero byte are left in a block that is made larger. -/
theorem resized_larger {more : Nat} :
    ∃ room : Block, room.length = more ∧
      (characters.map some ++ some 0 :: rest).take (characters.length + more + 1) ++
        List.replicate
          (characters.length + more + 1 - (characters.map some ++ some 0 :: rest).length) none =
        characters.map some ++ some 0 :: room := by
  refine ⟨rest.take more ++ List.replicate (more - rest.length) none, ?_, ?_⟩
  · simp only [List.length_append, List.length_take, List.length_replicate]
    omega
  · -- All characters and the zero byte fit into the new size.
    have size : characters.length + more + 1 = (characters.map some).length + (more + 1) := by
      rw [List.length_map, Nat.add_assoc]
    have left : characters.length + more + 1 - (characters.map some ++ some 0 :: rest).length =
        more - rest.length := by
      simp only [List.length_append, List.length_map, List.length_cons]
      omega
    rw [left, size, List.take_length_add_append, List.take_succ_cons]
    simp

section Comparison

/-- `strcmp`, on memory that holds two strings; undefined where one of them does not end. -/
def strcmp : Block → Block → Option Int
  | some first :: block, some second :: other =>
    if first = second ∧ first ≠ 0 then strcmp block other
    else some (first.toNat - second.toNat)
  | _, _ => none

/-- What a block that holds a string begins with. -/
theorem text_cases (holds : text block = some characters) :
    (characters = [] ∧ ∃ rest, block = some 0 :: rest) ∨
      ∃ byte later rest, byte ≠ 0 ∧ characters = byte :: later ∧ block = some byte :: rest ∧
        text rest = some later := by
  cases block with
  | nil => cases holds
  | cons first block =>
    cases first with
    | none => cases holds
    | some byte =>
      rw [text] at holds
      split at holds
      · rename_i zero
        exact .inl ⟨(Option.some.inj holds).symm, block, by rw [zero]⟩
      · rename_i nonzero
        obtain ⟨later, found, rfl⟩ := Option.map_eq_some_iff.mp holds
        exact .inr ⟨byte, later, block, nonzero, rfl, rfl, found⟩

/-- The order of two bytes is that of their difference and zero. -/
theorem compare_toNat_sub (byte other : UInt8) :
    compare byte other = compare ((byte.toNat : Int) - other.toNat) 0 := by
  rw [UInt8.compare_eq_toNat_compare_toNat]
  cases order : compare byte.toNat other.toNat with
  | lt =>
    have less := Nat.compare_eq_lt.mp order
    exact (Int.compare_eq_lt.mpr (by omega)).symm
  | eq =>
    have same := Nat.compare_eq_eq.mp order
    exact (Int.compare_eq_eq.mpr (by omega)).symm
  | gt =>
    have more := Nat.compare_eq_gt.mp order
    exact (Int.compare_eq_gt.mpr (by omega)).symm

/-- Comparing two strings yields a number whose sign tells their order, byte by byte. -/
theorem strcmp_spec {other : Block} {more : List UInt8} (holds : text block = some characters)
    (holds' : text other = some more) :
    ∃ result, strcmp block other = some result ∧ compare characters more = compare result 0 := by
  induction characters generalizing block other more with
  | nil =>
    obtain ⟨_, rest, rfl⟩ | ⟨byte, later, rest, _, unequal, _⟩ := text_cases holds
    · rcases text_cases holds' with ⟨rfl, rest', rfl⟩ | ⟨byte, later, rest', nonzero, rfl, rfl, _⟩
      · exact ⟨_, rfl, rfl⟩
      · -- The first string ends before the second one.
        refine ⟨_, if_neg fun both => both.2 rfl, ?_⟩
        rw [← compare_toNat_sub]
        have positive : (0 : UInt8) < byte := UInt8.pos_iff_ne_zero.mpr nonzero
        exact (Std.compare_eq_lt.mpr positive).symm
    · cases unequal
  | cons first characters ih =>
    obtain ⟨unequal, _⟩ | ⟨byte, later, rest, nonzero, same, rfl, found⟩ := text_cases holds
    · cases unequal
    obtain ⟨rfl, rfl⟩ := List.cons.inj same
    rcases text_cases holds' with ⟨rfl, rest', rfl⟩ | ⟨byte, later, rest', _, rfl, rfl, found'⟩
    · -- The second string ends before the first one.
      refine ⟨_, if_neg fun both => nonzero both.1, ?_⟩
      rw [← compare_toNat_sub]
      have positive : (0 : UInt8) < first := UInt8.pos_iff_ne_zero.mpr nonzero
      exact (Std.compare_eq_gt.mpr positive).symm
    · by_cases equal : first = byte
      · subst equal
        -- The strings go on with the same byte, so what follows decides.
        obtain ⟨result, compared, order⟩ := ih found found'
        refine ⟨result, ?_, ?_⟩
        · rw [strcmp, if_pos ⟨rfl, nonzero⟩, compared]
        · rw [← order, List.compare_eq_compareLex, List.compareLex_cons_cons]
          have self : compare first first = .eq := Std.ReflCmp.compare_self
          rw [self]
          rfl
      · refine ⟨_, if_neg fun both => equal both.1, ?_⟩
        rw [← compare_toNat_sub, List.compare_eq_compareLex, List.compareLex_cons_cons]
        cases order : compare first byte with
        | eq => exact absurd (Std.LawfulEqCmp.eq_of_compare order) equal
        | lt => rfl
        | gt => rfl

/-- A string and its zero byte are read from any window that has room for both. -/
theorem text_take (holds : text block = some characters) {size : Nat}
    (fits : characters.length < size) : text (block.take size ++ rest) = some characters := by
  obtain ⟨plain, behind, rfl⟩ := text_eq_some holds
  obtain ⟨room, rfl⟩ := Nat.exists_eq_add_of_lt fits
  have whole : (characters.map some).length = characters.length := List.length_map _
  rw [List.take_append, List.take_of_length_le (by omega), whole,
    show characters.length + room + 1 - characters.length = room + 1 by omega,
    List.take_succ_cons, List.append_assoc, List.cons_append, text_append plain]

/-- A string that fits in a window, or differs from another one there, is compared in it. -/
theorem strcmp_take {other : Block} {more : List UInt8} {size : Nat}
    (holds : text block = some characters) (holds' : text other = some more)
    (stops : more.length < size ∨ ¬ more.take size <+: characters) :
    strcmp block (other.take size ++ rest) = strcmp block other := by
  -- Each character that is the same in both is one of the window less.
  induction size generalizing block other characters more with
  | zero =>
    rcases stops with short | differs
    · cases short
    · exact absurd List.nil_prefix differs
  | succ size ih =>
    rcases text_cases holds' with ⟨rfl, behind, rfl⟩ | ⟨byte, later, behind, _, rfl, rfl, found'⟩
    · -- The zero byte of the other string is in the window.
      rw [List.take_succ_cons, List.cons_append]
      obtain ⟨_, front, rfl⟩ | ⟨first, tail, front, nonzero, _, rfl, _⟩ := text_cases holds
      · rfl
      · rw [strcmp, strcmp, if_neg fun both => nonzero both.1, if_neg fun both => nonzero both.1]
    · rw [List.take_succ_cons, List.cons_append]
      obtain ⟨_, front, rfl⟩ | ⟨first, tail, front, nonzero, rfl, rfl, found⟩ := text_cases holds
      · rw [strcmp, strcmp, if_neg fun both => both.2 rfl, if_neg fun both => both.2 rfl]
      · rw [strcmp, strcmp]
        by_cases same : first = byte
        · subst same
          rw [if_pos ⟨rfl, nonzero⟩, if_pos ⟨rfl, nonzero⟩]
          apply ih found found'
          rcases stops with short | differs
          · exact .inl (Nat.lt_of_succ_lt_succ short)
          · refine .inr fun starts => differs ?_
            rw [List.take_succ_cons]
            exact List.cons_prefix_cons.mpr ⟨rfl, starts⟩
        · rw [if_neg fun both => same both.1, if_neg fun both => same both.1]

/-- A comparison that goes on at the end of a window leaves it. -/
theorem strcmp_take_eq_none {other : Block} {more : List UInt8} {size : Nat}
    (holds : text block = some characters) (holds' : text other = some more)
    (long : size ≤ more.length) (same : more.take size <+: characters) :
    strcmp block (other.take size) = none := by
  induction size generalizing block other characters more with
  | zero =>
    rw [List.take_zero, strcmp]
    intro first _ second _ _ unequal
    cases unequal
  | succ size ih =>
    rcases text_cases holds' with ⟨rfl, behind, rfl⟩ | ⟨byte, later, behind, nonzero, rfl, rfl, found'⟩
    · cases long
    · rw [List.take_succ_cons] at same
      rw [List.take_succ_cons]
      obtain ⟨rfl, front, rfl⟩ | ⟨first, tail, front, _, rfl, rfl, found⟩ := text_cases holds
      · exact absurd (List.prefix_nil.mp same) (List.cons_ne_nil _ _)
      · obtain ⟨rfl, starts⟩ := List.cons_prefix_cons.mp same
        rw [strcmp, if_pos ⟨rfl, nonzero⟩]
        exact ih found found' (Nat.le_of_succ_le_succ long) starts

end Comparison

section Search

variable {Character : Type*}

/-- The first place at or behind an offset where a string contains another one. -/
def FirstOccurrence (haystack : List Character) (offset : Nat) (needle : List Character) (place : Nat) :
    Prop :=
  offset ≤ place ∧ place ≤ haystack.length ∧ needle <+: haystack.drop place ∧
    ∀ earlier, offset ≤ earlier → earlier < place → ¬ needle <+: haystack.drop earlier

variable {haystack needle : List Character} {place offset : Nat}

/-- An occurrence in what lies behind an offset is one at or behind the offset. -/
theorem FirstOccurrence.of_drop (within : offset ≤ haystack.length)
    (first : FirstOccurrence (haystack.drop offset) 0 needle place) :
    FirstOccurrence haystack offset needle (offset + place) := by
  obtain ⟨_, inside, occurs, none⟩ := first
  rw [List.length_drop] at inside
  rw [List.drop_drop] at occurs
  refine ⟨Nat.le_add_right _ _, by omega, occurs, fun earlier lower below => ?_⟩
  obtain ⟨distance, rfl⟩ := Nat.exists_eq_add_of_le lower
  have absent := none distance (Nat.zero_le _) (by omega)
  rwa [List.drop_drop] at absent

variable [DecidableEq Character]

/-- `strstr`: how far from its start a string first contains another one. -/
def strstr : List Character → List Character → Option Nat
  | [], needle => if needle = [] then some 0 else none
  | character :: rest, needle =>
    if needle <+: character :: rest then some 0 else (strstr rest needle).map (· + 1)

/-- Where `strstr` finds something, that is the first occurrence. -/
theorem strstr_eq_some (found : strstr haystack needle = some place) :
    FirstOccurrence haystack 0 needle place := by
  induction haystack generalizing place with
  | nil =>
    rw [strstr] at found
    split at found
    · rename_i empty
      obtain rfl := Option.some.inj found
      subst empty
      exact ⟨Nat.le_refl _, Nat.le_refl _, List.nil_prefix, fun _ _ below => absurd below (by simp)⟩
    · cases found
  | cons character rest ih =>
    rw [strstr] at found
    split at found
    · rename_i here
      obtain rfl := Option.some.inj found
      exact ⟨Nat.le_refl _, Nat.zero_le _, here, fun _ _ below => absurd below (by simp)⟩
    · rename_i elsewhere
      obtain ⟨later, there, rfl⟩ := Option.map_eq_some_iff.mp found
      obtain ⟨_, inside, occurs, first⟩ := ih there
      refine ⟨Nat.zero_le _, Nat.succ_le_succ inside, occurs, fun earlier _ below => ?_⟩
      -- An earlier place is the start, where it does not occur, or one in the rest.
      cases earlier with
      | zero => exact elsewhere
      | succ earlier => exact first earlier (Nat.zero_le _) (Nat.lt_of_succ_lt_succ below)

/-- Where `strstr` finds nothing, there is no occurrence. -/
theorem strstr_eq_none (missing : strstr haystack needle = none) (place : Nat) :
    ¬ (place ≤ haystack.length ∧ needle <+: haystack.drop place) := by
  induction haystack generalizing place with
  | nil =>
    rintro ⟨_, occurs⟩
    rw [List.drop_nil, List.prefix_nil] at occurs
    rw [strstr, if_pos occurs] at missing
    cases missing
  | cons character rest ih =>
    rw [strstr] at missing
    split at missing
    · cases missing
    · rename_i elsewhere
      rintro ⟨inside, occurs⟩
      cases place with
      | zero => exact elsewhere occurs
      | succ place =>
        exact ih (Option.map_eq_none_iff.mp missing) place ⟨Nat.le_of_succ_le_succ inside, occurs⟩

/-- `strstr` finds nothing exactly where the string does not contain the other one. -/
theorem strstr_eq_none_iff : strstr haystack needle = none ↔ ¬ needle <:+: haystack := by
  induction haystack with
  | nil =>
    rw [strstr, List.infix_nil]
    simp
  | cons character rest ih =>
    rw [strstr, List.infix_cons_iff, not_or, ← ih]
    split
    · rename_i here
      simp [here]
    · rename_i elsewhere
      simp [elsewhere]

end Search

section Separators

variable {Character : Type*} {needle front rest : List Character} {separator : Character}

/-- What starts before a separator, and does not contain it, ends before it. -/
theorem prefix_before (apart : separator ∉ needle)
    (starts : needle <+: front ++ separator :: rest) : needle <+: front := by
  obtain ⟨tail, same⟩ := starts
  rcases List.append_eq_append_iff.mp same with ⟨more, whole, _⟩ | ⟨more, whole, behind⟩
  · exact ⟨more, whole.symm⟩
  · -- What the needle has beyond the front would start with the separator.
    cases more with
    | nil => exact ⟨[], by simpa using whole⟩
    | cons first more =>
      obtain ⟨rfl, _⟩ := List.cons.inj behind
      exact absurd (whole ▸ by simp) apart

/-- A needle that does not contain a separator does not lie across it. -/
theorem infix_around_iff (apart : separator ∉ needle) (nonempty : needle ≠ []) :
    needle <:+: front ++ separator :: rest ↔ needle <:+: front ∨ needle <:+: rest := by
  induction front with
  | nil =>
    rw [List.nil_append, List.infix_cons_iff, List.infix_nil]
    refine or_congr_left ⟨fun here => ?_, fun empty => absurd empty nonempty⟩
    exact List.prefix_nil.mp (@prefix_before _ _ [] rest _ apart here)
  | cons character front ih =>
    have here : needle <+: character :: (front ++ separator :: rest) ↔
        needle <+: character :: front := by
      constructor
      · exact @prefix_before _ _ (character :: front) rest _ apart
      · exact fun starts => starts.trans (List.prefix_append (character :: front) _)
    rw [List.cons_append, List.infix_cons_iff, List.infix_cons_iff, here, or_assoc]
    exact or_congr_right ih

/-- A needle that is not before a separator is found behind it. -/
theorem strstr_behind [DecidableEq Character] (apart : separator ∉ needle) (nonempty : needle ≠ [])
    (missing : ¬ needle <:+: front) : strstr (front ++ separator :: rest) needle =
      (strstr rest needle).map (· + (front.length + 1)) := by
  induction front with
  | nil =>
    rw [List.nil_append, strstr, if_neg]
    · rfl
    · intro here
      exact nonempty (List.prefix_nil.mp (@prefix_before _ _ [] rest _ apart here))
  | cons character front ih =>
    rw [List.infix_cons_iff, not_or] at missing
    rw [List.cons_append, strstr, if_neg, ih missing.2, Option.map_map]
    · rfl
    · intro here
      exact missing.1 (@prefix_before _ _ (character :: front) rest _ apart here)

end Separators

section Pieces

variable {Character : Type*} [BEq Character] {delimiter : Character} {characters piece : List Character}

end Pieces

/-- A heap of blocks; those from `next` on were never allocated. -/
structure Heap where
  blocks : Nat → Option Block
  next : Nat

namespace Heap

/-- The string that starts at an offset in a block. -/
def string (heap : Heap) (address offset : Nat) : Option (List UInt8) :=
  (heap.blocks address).bind fun block => text (block.drop offset)

/-- `malloc` returns a new block. -/
def malloc (heap : Heap) (size : Nat) : Nat × Heap :=
  (heap.next,
    { blocks := Function.update heap.blocks heap.next (some (List.replicate size none))
      next := heap.next + 1 })

/-- `free`. -/
def free (heap : Heap) (address : Nat) : Heap :=
  { heap with blocks := Function.update heap.blocks address none }

/-- `realloc` returns a new block with the bytes of the old one, as many as fit. -/
def realloc (heap : Heap) (address size : Nat) : Option (Nat × Heap) :=
  (heap.blocks address).map fun block =>
    (heap.next,
      { blocks := Function.update (Function.update heap.blocks address none) heap.next
          (some (block.take size ++ List.replicate (size - block.length) none))
        next := heap.next + 1 })

/-- Writing bytes from an offset on; undefined where they do not all lie in the block. -/
def store (heap : Heap) (address offset : Nat) (bytes : List UInt8) : Option Heap :=
  match heap.blocks address with
  | some block =>
    if offset + bytes.length ≤ block.length then some
      { heap with
        blocks := Function.update heap.blocks address
          (some (block.take offset ++ bytes.map some ++ block.drop (offset + bytes.length))) }
    else none
  | none => none

/-- `strcpy` of a string that lies elsewhere. -/
def strcpy (heap : Heap) (address offset : Nat) (source : List UInt8) : Option Heap :=
  heap.store address offset (source ++ [0])

/-- `strncpy` of a string that lies elsewhere: zero bytes fill up what it does not. -/
def strncpy (heap : Heap) (address offset : Nat) (source : List UInt8) (count : Nat) : Option Heap :=
  heap.store address offset (source.take count ++ List.replicate (count - source.length) 0)

/-- The loop of `strcat`, which reads each byte only when it copies it. -/
def copyString : Nat → Heap → Nat → Nat → Nat → Nat → Option Heap
  | 0, _, _, _, _, _ => none
  | fuel + 1, heap, target, j, source, i =>
    match (heap.blocks source).bind (·[i]?.join) with
    | some byte =>
      (heap.store target j [byte]).bind fun heap =>
        if byte = 0 then some heap else copyString fuel heap target (j + 1) source (i + 1)
    | none => none

/--
`strcat` of two strings, which may be one and the same. Every turn writes one more byte of the
target, so that the turns are fewer than its bytes.
-/
def strcat (heap : Heap) (target source : Nat) : Option Heap :=
  match heap.string target 0, heap.blocks target with
  | some start, some block => copyString (block.length + 1) heap target start.length source 0
  | _, _ => none

variable {heap after : Heap} {address other size fuel i : Nat} {front junk : Block}
  {bytes : List UInt8}

/-- Only one block changes, and nothing is allocated. -/
structure Changes (heap after : Heap) (address : Nat) : Prop where
  others : ∀ other, other ≠ address → after.blocks other = heap.blocks other
  next : after.next = heap.next

theorem Changes.trans {last : Heap} (first : Changes heap after address)
    (second : Changes after last address) : Changes heap last address :=
  ⟨fun other apart => (second.others other apart).trans (first.others other apart),
    second.next.trans first.next⟩

/-- What a block starts with can be read as a string. -/
theorem string_eq (stored : heap.blocks address = some (characters.map some ++ some 0 :: rest))
    (plain : (0 : UInt8) ∉ characters) : heap.string address 0 = some characters := by
  rw [string, stored, Option.bind_some, List.drop_zero, text_append plain]

/-- A string that can be read is what its block starts with. -/
theorem string_eq_some (holds : heap.string address 0 = some characters) :
    (0 : UInt8) ∉ characters ∧
      ∃ rest, heap.blocks address = some (characters.map some ++ some 0 :: rest) := by
  obtain ⟨block, stored, read⟩ := Option.bind_eq_some_iff.mp holds
  rw [List.drop_zero] at read
  obtain ⟨plain, rest, rfl⟩ := text_eq_some read
  exact ⟨plain, rest, stored⟩

/-- A string can also be read from any of its characters on. -/
theorem string_drop (holds : heap.string address 0 = some characters) {offset : Nat}
    (within : offset ≤ characters.length) :
    heap.string address offset = some (characters.drop offset) := by
  obtain ⟨plain, rest, stored⟩ := string_eq_some holds
  rw [string, stored, Option.bind_some, List.drop_append_of_le_length (by simpa using within),
    ← List.map_drop, text_append fun member => plain (List.mem_of_mem_drop member)]

/-- Bytes that fit behind the front of a block replace what is there. -/
theorem store_behind (bytes : List UInt8) (stored : heap.blocks address = some (front ++ junk))
    (fits : bytes.length ≤ junk.length) :
    ∃ after, heap.store address front.length bytes = some after ∧ Changes heap after address ∧
      after.blocks address = some (front ++ bytes.map some ++ junk.drop bytes.length) := by
  rw [store, stored]
  simp only [List.length_append, Nat.add_le_add_iff_left, if_pos fits, Option.some.injEq,
    exists_eq_left']
  refine ⟨⟨fun other apart => Function.update_of_ne apart _ _, rfl⟩, ?_⟩
  rw [Function.update_self, List.take_left', List.drop_append, List.drop_eq_nil_of_le (by omega),
    List.nil_append, Nat.add_sub_cancel_left]
  rfl

/-- A byte behind the end of a block cannot be written. -/
theorem store_outside (stored : heap.blocks address = some front) (nonempty : bytes ≠ []) :
    heap.store address front.length bytes = none := by
  have some_bytes : 0 < bytes.length := List.length_pos_of_ne_nil nonempty
  rw [store, stored]
  exact if_neg (by omega)

/-- A string that is copied behind the front of a block with enough room. -/
theorem strcpy_behind {offset : Nat} (stored : heap.blocks address = some (front ++ junk))
    (place : offset = front.length) (fits : source.length + 1 ≤ junk.length) :
    ∃ after, heap.strcpy address offset source = some after ∧ Changes heap after address ∧
      after.blocks address =
        some (front ++ source.map some ++ some 0 :: junk.drop (source.length + 1)) := by
  obtain ⟨after, done, changes, result⟩ := store_behind (source ++ [0]) stored (by simpa using fits)
  refine ⟨after, by rw [strcpy, place, done], changes, ?_⟩
  rw [result]
  simp

/-- So many characters of a string, as many as it has at most, copied behind the front of a block. -/
theorem strncpy_behind {offset count : Nat} (stored : heap.blocks address = some (front ++ junk))
    (place : offset = front.length) (some_of : count ≤ source.length)
    (fits : count ≤ junk.length) :
    ∃ after, heap.strncpy address offset source count = some after ∧ Changes heap after address ∧
      after.blocks address = some (front ++ (source.take count).map some ++ junk.drop count) := by
  have length : (source.take count).length = count := List.length_take_of_le some_of
  obtain ⟨after, done, changes, result⟩ := store_behind (source.take count) stored
    (by rw [length]; exact fits)
  refine ⟨after, ?_, changes, by rw [result, length]⟩
  -- The string is long enough, so no zero bytes fill it up.
  rw [strncpy, Nat.sub_eq_zero_of_le some_of, List.replicate_zero, List.append_nil, place, done]

/-- A string that is moved to a larger block is still there, with more room behind it. -/
theorem realloc_larger {more : Nat}
    (stored : heap.blocks address = some (characters.map some ++ some 0 :: rest)) :
    ∃ after room, heap.realloc address (characters.length + more + 1) = some (heap.next, after) ∧
      after.next = heap.next + 1 ∧ room.length = more ∧
      after.blocks heap.next = some (characters.map some ++ some 0 :: room) ∧
      ∀ other, other ≠ address → other ≠ heap.next → after.blocks other = heap.blocks other := by
  obtain ⟨room, length, kept⟩ := @resized_larger rest characters more
  rw [realloc, stored, Option.map_some]
  refine ⟨_, room, rfl, rfl, length, ?_, ?_⟩
  · simp only
    rw [Function.update_self, kept]
  · intro other apart apart'
    simp only
    rw [Function.update_of_ne apart', Function.update_of_ne apart]

/-- The loop of `strcat` copies a string and its zero byte into another block with enough room. -/
theorem copyString_apart (apart : address ≠ other)
    (source : heap.blocks other = some (front ++ (characters.map some ++ some 0 :: rest)))
    {start : Block} (target : heap.blocks address = some (start ++ junk))
    (plain : (0 : UInt8) ∉ characters) (fits : characters.length + 1 ≤ junk.length)
    (enough : characters.length < fuel) :
    ∃ after, copyString fuel heap address start.length other front.length = some after ∧
      Changes heap after address ∧ after.blocks address =
        some (start ++ characters.map some ++ some 0 :: junk.drop (characters.length + 1)) := by
  obtain ⟨fuel, rfl⟩ : ∃ left, fuel = left + 1 := ⟨fuel - 1, by omega⟩
  -- The induction is on the string; each turn moves a character from the rest to the front.
  induction characters generalizing heap front start junk fuel with
  | nil =>
    have read : ((heap.blocks other).bind (·[front.length]?.join)) = some 0 := by
      rw [source, Option.bind_some]
      simp
    obtain ⟨after, done, changes, stored⟩ := store_behind [0] target (by simpa using fits)
    refine ⟨after, ?_, changes, by simpa using stored⟩
    rw [copyString, read]
    simp [done]
  | cons byte characters ih =>
    obtain ⟨nonzero, tail⟩ := List.ne_and_not_mem_of_not_mem_cons plain
    have read : ((heap.blocks other).bind (·[front.length]?.join)) = some byte := by
      rw [source, Option.bind_some]
      simp
    simp only [List.length_cons] at fits enough
    obtain ⟨middle, done, changes, stored⟩ := store_behind [byte] target
      (by simp only [List.length_singleton]; omega)
    -- The source is another block, and so still holds the string.
    have source' : middle.blocks other =
        some ((front ++ [some byte]) ++ (characters.map some ++ some 0 :: rest)) := by
      rw [changes.others other (Ne.symm apart), source]
      simp
    have target' : middle.blocks address = some ((start ++ [some byte]) ++ junk.drop 1) := by
      simpa using stored
    have room : characters.length + 1 ≤ (junk.drop 1).length := by
      rw [List.length_drop]
      omega
    obtain ⟨after, copied, more, result⟩ := ih source' target' tail room (fuel - 1) (by omega)
    refine ⟨after, ?_, changes.trans more, ?_⟩
    · rw [copyString, read]
      simp only
      rw [done, Option.bind_some, if_neg (Ne.symm nonzero)]
      simp only [List.length_append, List.length_singleton] at copied
      rw [show fuel = fuel - 1 + 1 by omega]
      exact copied
    · rw [result]
      simp [Nat.add_comm]

/-- A string is appended to another one, in a block with enough room. -/
theorem strcat_apart {start : List UInt8} (apart : address ≠ other)
    (source : heap.string other 0 = some characters)
    (target : heap.blocks address = some (start.map some ++ some 0 :: junk))
    (plain : (0 : UInt8) ∉ start) (fits : characters.length ≤ junk.length) :
    ∃ after, heap.strcat address other = some after ∧ Changes heap after address ∧
      after.string address 0 = some (start ++ characters) := by
  obtain ⟨free_of_zero, rest, stored⟩ := string_eq_some source
  have enough : characters.length < (start.map some ++ some 0 :: junk).length + 1 := by
    simp only [List.length_append, List.length_cons]
    omega
  obtain ⟨after, copied, changes, result⟩ :=
    @copyString_apart rest characters heap address other _ [] _ apart stored _ target free_of_zero
      (Nat.succ_le_succ fits) enough
  refine ⟨after, ?_, changes, ?_⟩
  · rw [strcat, string_eq target plain, target]
    rw [List.length_map] at copied
    exact copied
  · rw [← List.map_append] at result
    exact string_eq result (by simp [plain, free_of_zero])

/--
Where the string that is copied goes to its own end, the zero byte is overwritten before it is
reached, so that the loop leaves the block.
-/
theorem copyString_self {window : List UInt8}
    (stored : heap.blocks address = some (front ++ (window.map some ++ junk)))
    (plain : (0 : UInt8) ∉ window) (nonempty : window ≠ []) :
    copyString fuel heap address (front.length + window.length) address front.length = none := by
  -- Between the place that is read and the one that is written there is never a zero byte.
  induction fuel generalizing heap front window junk with
  | zero => rfl
  | succ fuel ih =>
    obtain ⟨byte, window, rfl⟩ := List.exists_cons_of_ne_nil nonempty
    obtain ⟨nonzero, tail⟩ := List.ne_and_not_mem_of_not_mem_cons plain
    have read : ((heap.blocks address).bind (·[front.length]?.join)) = some byte := by
      rw [stored, Option.bind_some]
      simp
    rw [copyString, read]
    simp only
    have place : front.length + (byte :: window).length =
        (front ++ (byte :: window).map some).length := by simp
    rw [← List.append_assoc] at stored
    cases junk with
    | nil =>
      rw [List.append_nil] at stored
      rw [place, store_outside stored (by simp)]
      rfl
    | cons old junk =>
      obtain ⟨after, done, _, result⟩ := store_behind [byte] stored (by simp)
      rw [place, done, Option.bind_some, if_neg (Ne.symm nonzero)]
      have shifted : after.blocks address =
          some ((front ++ [some byte]) ++ ((window ++ [byte]).map some ++ junk)) := by
        simpa using result
      have moved := ih shifted (by simp [tail, nonzero]) (by simp)
      have reader : front.length + 1 = (front ++ [some byte]).length := by simp
      have writer : (front ++ (byte :: window).map some).length + 1 =
          (front ++ [some byte]).length + (window ++ [byte]).length := by
        simp only [List.length_append, List.length_map, List.length_cons, List.length_nil]
        omega
      rw [writer, reader]
      exact moved

/-- A string is appended to itself only if it is empty. -/
theorem strcat_self (stored : heap.blocks address = some (characters.map some ++ some 0 :: junk))
    (plain : (0 : UInt8) ∉ characters) :
    (characters ≠ [] → heap.strcat address address = none) ∧
      (characters = [] → ∃ after, heap.strcat address address = some after ∧
        Changes heap after address ∧ after.string address 0 = some []) := by
  rw [strcat, string_eq stored plain, stored]
  constructor
  · intro nonempty
    have runs := @copyString_self heap address ((characters.map some ++ some 0 :: junk).length + 1)
      [] (some 0 :: junk) characters stored plain nonempty
    simpa using runs
  · rintro rfl
    -- The only byte that is read is the zero byte, which goes to where it was.
    have target : heap.blocks address = some ([] ++ some 0 :: junk) := stored
    obtain ⟨after, done, changes, result⟩ := store_behind [0] target (by simp)
    refine ⟨after, ?_, changes, string_eq result (by simp)⟩
    have read : (heap.blocks address).bind (·[0]?.join) = some 0 := by
      rw [stored]
      rfl
    simp only [copyString, read]
    simp only [List.length_nil] at done ⊢
    rw [done]
    rfl

end Heap

end Foundations.Strings
