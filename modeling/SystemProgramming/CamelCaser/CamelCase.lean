import SystemProgramming.CamelCaser.CamelCaser

/-! What camel case is, and the buffers that hold a text in it. -/

namespace SystemProgramming.CamelCaser

open Foundations Foundations.Strings

/-- The parts of a text between whitespace. -/
def words (text : List UInt8) : List (List UInt8) := (text.splitOnP isSpace).filter (· ≠ [])

/-- A word that is not the first one. -/
def capitalised : List UInt8 → List UInt8
  | [] => []
  | character :: rest => toUpper character :: rest.map toLower

/-- Words that are joined together; the first of them may be the first one of all. -/
def joined : Bool → List (List UInt8) → List UInt8
  | _, [] => []
  | isFirst, word :: rest =>
    (if isFirst then word.map toLower else capitalised word) ++ joined false rest

def camelCase (text : List UInt8) : List UInt8 := joined true (words text)

/-- The texts in front of the punctuation characters; what is behind the last of these is dropped. -/
def sentences (text : List UInt8) : List (List UInt8) := (text.splitOnP isPunct).dropLast

section Words

variable {character : UInt8} {text word rest spaces : List UInt8} {rests : List (List UInt8)}
  {isFirst : Bool}

theorem words_nil : words [] = [] := rfl

/-- Whitespace in front of a text is no part of a word. -/
theorem words_space (space : isSpace character) : words (character :: text) = words text := by
  rw [words, List.splitOnP_cons_eq_if_modifyHead, if_pos space, List.filter_cons_of_neg (by simp)]
  rfl

theorem words_spaces (all : ∀ character ∈ spaces, isSpace character) :
    words (spaces ++ text) = words text := by
  induction spaces with
  | nil => rfl
  | cons first spaces ih =>
    rw [List.cons_append, words_space (all first List.mem_cons_self)]
    exact ih fun other member => all other (.tail _ member)

/-- A word ends where there is whitespace, or with the text. -/
theorem words_word (nonempty : word ≠ []) (plain : ∀ character ∈ word, isSpace character = false)
    (ends : ∀ character ∈ rest.head?, isSpace character) :
    words (word ++ rest) = word :: words rest := by
  cases rest with
  | nil =>
    rw [List.append_nil, words, List.splitOnP_eq_singleton plain,
      List.filter_cons_of_pos (by simpa using nonempty)]
    rfl
  | cons space rest =>
    have space_here := ends space rfl
    rw [words_space space_here, words, List.splitOnP_append_cons_of_forall_mem plain _ space_here,
      List.filter_cons_of_pos (by simpa using nonempty)]
    rfl

/-- Camel case has a character for each one of the words. -/
theorem length_joined : (joined isFirst rests).length = rests.flatten.length := by
  induction rests generalizing isFirst with
  | nil => rfl
  | cons word rests ih =>
    have same : (capitalised word).length = word.length := by cases word <;> simp [capitalised]
    rw [joined, List.length_append, List.flatten_cons, List.length_append, ih]
    split
    · rw [List.length_map]
    · rw [same]

/-- What lies between separators is what is left without them. -/
theorem flatten_splitOnP {separates : UInt8 → Bool} :
    (text.splitOnP separates).flatten = text.filter fun character => !separates character := by
  induction text with
  | nil => rfl
  | cons character text ih =>
    obtain ⟨first, others, parts⟩ :=
      List.exists_cons_of_ne_nil (List.splitOnP_ne_nil separates text)
    rw [List.splitOnP_cons_eq_if_modifyHead]
    rw [parts] at ih ⊢
    by_cases separator : separates character
    · rw [if_pos separator, List.filter_cons_of_neg (by simp [separator]), ← ih]
      rfl
    · -- A character that does not separate goes to the front of the first part.
      rw [if_neg separator, List.filter_cons_of_pos (by simp [separator]), ← ih]
      rfl

/-- The words are what is left of a text without its whitespace. -/
theorem flatten_words : (words text).flatten = text.filter fun character => !isSpace character := by
  rw [words, List.flatten_filter_ne_nil, flatten_splitOnP]

/-- Camel case is shorter than the text by its whitespace. -/
theorem length_camelCase : (camelCase text).length + text.countP isSpace = text.length := by
  have parts := @List.length_eq_countP_add_countP _ isSpace text
  have others : text.countP (fun character => !isSpace character) =
      text.countP fun character => decide ¬ isSpace character = true := by
    congr 1
    funext character
    simp
  rw [camelCase, length_joined, flatten_words, ← List.countP_eq_length_filter, others]
  omega

/-- Only the zero byte is written as the zero byte. -/
theorem toLower_ne_zero (nonzero : character ≠ 0) : toLower character ≠ 0 := by
  rw [toLower]
  split
  · -- A letter stays one.
    grind
  · exact nonzero

theorem toUpper_ne_zero (nonzero : character ≠ 0) : toUpper character ≠ 0 := by
  rw [toUpper]
  split
  · grind
  · exact nonzero

theorem joined_plain (plain : (0 : UInt8) ∉ rests.flatten) : (0 : UInt8) ∉ joined isFirst rests := by
  induction rests generalizing isFirst with
  | nil => simp [joined]
  | cons word rests ih =>
    rw [List.flatten_cons, List.mem_append, not_or] at plain
    obtain ⟨here, later⟩ := plain
    have lower (text : List UInt8) (plain : (0 : UInt8) ∉ text) : (0 : UInt8) ∉ text.map toLower := by
      intro member
      obtain ⟨character, inside, zero⟩ := List.mem_map.mp member
      exact toLower_ne_zero (fun same => plain (same ▸ inside)) zero
    rw [joined, List.mem_append, not_or]
    refine ⟨?_, ih later⟩
    split
    · exact lower word here
    · cases word with
      | nil => simp [capitalised]
      | cons first word =>
        obtain ⟨nonzero, rest⟩ := List.ne_and_not_mem_of_not_mem_cons here
        rw [capitalised, List.mem_cons, not_or]
        exact ⟨Ne.symm (toUpper_ne_zero (Ne.symm nonzero)), lower word rest⟩

/-- No zero byte comes into a text by its camel case. -/
theorem camelCase_plain (plain : (0 : UInt8) ∉ text) : (0 : UInt8) ∉ camelCase text := by
  refine joined_plain ?_
  rw [flatten_words]
  exact fun member => plain (List.mem_filter.mp member).1

end Words

section Buffers

variable {contents : Nat → UInt8} {sentence : List UInt8}

/-- The buffer of a sentence, with what is stored to it: its end, its characters and its end again. -/
def sentenceBuffer (contents : Nat → UInt8) (sentence : List UInt8) : Buffer :=
  (((malloc contents (sentence.length + 1)).store sentence.length 0).write 0
    (camelCase sentence)).store sentence.length 0

/-- The indices that are stored to are those of the characters, and twice that of the end. -/
theorem stores_sentenceBuffer : (sentenceBuffer contents sentence).stores =
    sentence.length :: (List.range (camelCase sentence).length ++ [sentence.length]) := by
  rw [sentenceBuffer, Buffer.stores_store, Buffer.stores_write, Buffer.stores_store,
    List.range_eq_range']
  rfl

theorem sentenceBuffer_within : (sentenceBuffer contents sentence).Within := by
  have requested : (sentenceBuffer contents sentence).requested = sentence.length + 1 := by
    rw [sentenceBuffer, Buffer.requested_store, Buffer.requested_write, Buffer.requested_store]
    rfl
  have short := @length_camelCase sentence
  intro i member
  rw [stores_sentenceBuffer, List.mem_cons, List.mem_append, List.mem_range,
    List.mem_singleton] at member
  omega

/-- What a buffer still has of its old contents, between the characters and the end. -/
def remains (contents : Nat → UInt8) (sentence : List UInt8) : List UInt8 :=
  ((List.range sentence.length).map contents).drop (camelCase sentence).length

theorem bytes_sentenceBuffer : (sentenceBuffer contents sentence).bytes =
    (camelCase sentence ++ remains contents sentence).map some ++ [some 0] := by
  have short := @length_camelCase sentence
  let old : List UInt8 := (List.range sentence.length).map contents
  have size : (old.map some).length = sentence.length := by simp [old]
  have start : (malloc contents (sentence.length + 1)).bytes =
      old.map some ++ [some (contents sentence.length)] := by
    simp [malloc, old, List.range_succ]
  -- The first end does not change what is in front of it.
  have ended : ((malloc contents (sentence.length + 1)).store sentence.length 0).bytes =
      [] ++ (old.map some ++ [some 0]) := by
    rw [Buffer.store, start, ← size, put_behind]
    rfl
  have written := Buffer.bytes_write (camelCase sentence) ended
  rw [List.length_nil, List.nil_append, List.drop_append_of_le_length (by omega), ← List.append_assoc,
    ← List.map_drop, ← List.map_append] at written
  have last : ((camelCase sentence ++ old.drop (camelCase sentence).length).map some).length =
      sentence.length := by
    rw [List.length_map] at size
    rw [List.length_map, List.length_append, List.length_drop]
    omega
  -- Nor does the second one, which is stored at the same place.
  have closed := @put_behind ((camelCase sentence ++ old.drop (camelCase sentence).length).map some)
    [some 0] 0
  rw [last] at closed
  rw [sentenceBuffer, Buffer.store]
  simp only [written, closed]
  rfl

/-- The string in a buffer ends behind its characters if there is no whitespace, or by chance. -/
theorem text_sentenceBuffer_iff (plain : (0 : UInt8) ∉ sentence) :
    text (sentenceBuffer contents sentence).bytes = some (camelCase sentence) ↔
      (∀ character ∈ sentence, isSpace character = false) ∨
        contents (camelCase sentence).length = 0 := by
  have short := @length_camelCase sentence
  have unspaced : sentence.countP isSpace = 0 ↔
      ∀ character ∈ sentence, isSpace character = false := by
    rw [List.countP_eq_zero]
    simp
  rw [bytes_sentenceBuffer, ← unspaced]
  by_cases none_left : sentence.countP isSpace = 0
  · -- Nothing is between the characters and the end.
    have empty : remains contents sentence = [] := by
      rw [remains, List.drop_eq_nil_of_le]
      rw [List.length_map, List.length_range]
      omega
    rw [empty, List.append_nil]
    exact iff_of_true (text_append (camelCase_plain plain)) (.inl none_left)
  · have inside : (camelCase sentence).length < ((List.range sentence.length).map contents).length := by
      rw [List.length_map, List.length_range]
      omega
    have same := List.drop_eq_getElem_cons inside
    rw [List.getElem_map, List.getElem_range, ← remains] at same
    rw [same, List.map_append, List.append_assoc, List.map_cons, List.cons_append]
    constructor
    · intro ends
      -- A string that ends there has its zero byte in what was left.
      obtain ⟨_, behind, whole⟩ := text_eq_some ends
      have zero := List.append_cancel_left whole
      exact .inr (Option.some.inj (List.cons.inj zero).1)
    · intro zero
      rw [zero.resolve_left none_left]
      exact text_append (camelCase_plain plain)

end Buffers

end SystemProgramming.CamelCaser
