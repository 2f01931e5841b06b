import SystemProgramming.CamelCaser.Sentences

/-! When the results depend on what the memory of the buffers had in it before. -/

namespace SystemProgramming.CamelCaser

open Foundations Foundations.Strings

/-- The C string that a pointer to a buffer stands for. -/
def Pointer.text : Option Pointer → Option (List UInt8)
  | some (.to buffer) => Strings.text buffer.bytes
  | _ => none

/-- The C strings of a result, in front of its `NULL`. -/
def texts (result : Results) : List (Option (List UInt8)) := result.dropLast.map Pointer.text

/-- Each C string ends behind the characters that were written, whatever the memory had in it. -/
def EndsBehind (input : List UInt8) : Prop :=
  ∀ heap turns, input.length < turns → ∃ result,
    camelCaser turns heap (some input) = some (some result) ∧
      texts result = (sentences input).map fun sentence => some (camelCase sentence)

/-- Two runs return the same C strings, whatever the memory had in it in each of them. -/
def Independent (input : List UInt8) : Prop :=
  ∀ heap heap' turns, input.length < turns → ∃ result result',
    camelCaser turns heap (some input) = some (some result) ∧
      camelCaser turns heap' (some input) = some (some result') ∧ texts result = texts result'

/-- No whitespace is in front of a punctuation character. -/
def Unspaced (input : List UInt8) : Prop :=
  ∀ sentence ∈ sentences input, ∀ character ∈ sentence, isSpace character = false

section Heaps

variable {input : AsciiString} {heap heap' : Nat → Nat → UInt8} {turns : Nat}
  {found : List (List UInt8)}

theorem texts_buffersOf : texts (buffersOf heap found ++ [some .null]) =
    found.mapIdx fun i sentence => text (sentenceBuffer (heap i) sentence).bytes := by
  rw [texts, List.dropLast_concat]
  apply List.ext_getElem?
  intro i
  rw [List.getElem?_map, buffersOf, List.getElem?_mapIdx, List.getElem?_mapIdx, Option.map_map]
  rfl

/-- The C strings are the sentences if each of them is, and the other way round. -/
theorem texts_eq_iff : texts (buffersOf heap found ++ [some .null]) =
      found.map (fun sentence => some (camelCase sentence)) ↔
    ∀ i sentence, found[i]? = some sentence →
      text (sentenceBuffer (heap i) sentence).bytes = some (camelCase sentence) := by
  rw [texts_buffersOf, List.ext_getElem?_iff]
  refine forall_congr' fun i => ?_
  rw [List.getElem?_mapIdx, List.getElem?_map]
  cases found[i]? <;> simp

/-- The characters of a sentence are characters of the text. -/
theorem subset_of_mem_sentences {text sentence : List UInt8} (member : sentence ∈ sentences text) :
    sentence ⊆ text := by
  intro character inside
  have within : character ∈ (text.splitOnP isPunct).flatten :=
    List.mem_flatten.mpr ⟨sentence, List.mem_of_mem_dropLast member, inside⟩
  rw [flatten_splitOnP] at within
  exact (List.mem_filter.mp within).1

/-- In one run, the C strings end behind their characters where there is no whitespace, or by chance. -/
theorem ends_behind_iff (fits : Fits input.characters) (enough : input.characters.length < turns) :
    (∃ result, camelCaser turns heap (some input.characters) = some (some result) ∧
        texts result = (sentences input.characters).map fun sentence => some (camelCase sentence)) ↔
      ∀ i sentence, (sentences input.characters)[i]? = some sentence →
        (∀ character ∈ sentence, isSpace character = false) ∨
          heap i (camelCase sentence).length = 0 := by
  have returns := @camelCaser_eq input.characters heap turns input.plain fits enough
  have each (i : Nat) (sentence : List UInt8)
      (here : (sentences input.characters)[i]? = some sentence) :=
    @text_sentenceBuffer_iff (heap i) sentence fun member =>
      input.plain (subset_of_mem_sentences (List.mem_of_getElem? here) member)
  constructor
  · rintro ⟨result, returned, same⟩
    rw [returns] at returned
    obtain rfl := Option.some.inj (Option.some.inj returned)
    exact fun i sentence here => (each i sentence here).mp (texts_eq_iff.mp same i sentence here)
  · intro all
    refine ⟨_, returns, texts_eq_iff.mpr fun i sentence here => ?_⟩
    exact (each i sentence here).mpr (all i sentence here)

/-- Where they do although no byte of the memory was zero, there is no whitespace. -/
theorem unspaced_of_dirty {result : Results} (fits : Fits input.characters)
    (enough : input.characters.length < turns)
    (returns : camelCaser turns (fun _ _ => 120) (some input.characters) = some (some result))
    (same : texts result = (sentences input.characters).map fun sentence => some (camelCase sentence)) :
    Unspaced input.characters := by
  intro sentence member
  obtain ⟨i, here⟩ := List.getElem?_of_mem member
  refine ((ends_behind_iff fits enough).mp ⟨result, returns, same⟩ i sentence here).resolve_right ?_
  decide

/-- Without whitespace, they do in every run. -/
theorem ends_behind_of_unspaced (fits : Fits input.characters) (unspaced : Unspaced input.characters)
    (enough : input.characters.length < turns) :
    ∃ result, camelCaser turns heap (some input.characters) = some (some result) ∧
      texts result = (sentences input.characters).map fun sentence => some (camelCase sentence) :=
  (ends_behind_iff fits enough).mpr fun _ sentence here =>
    .inl (unspaced sentence (List.mem_of_getElem? here))

/--
The C strings end where they should in every run exactly if the text fits and no whitespace is in
front of a punctuation character; and exactly then they are the same in any two runs.
-/
theorem determined_iff (input : AsciiString) :
    (EndsBehind input.characters ↔ Fits input.characters ∧ Unspaced input.characters) ∧
      (Independent input.characters ↔ Fits input.characters ∧ Unspaced input.characters) := by
  have enough := Nat.lt_succ_self input.characters.length
  refine ⟨⟨fun ends => ?_, ?_⟩, fun independent => ?_, ?_⟩
  · obtain ⟨result, returns, same⟩ := ends (fun _ _ => 120) _ enough
    have fits := fits_of_camelCaser input.plain enough returns
    exact ⟨fits, unspaced_of_dirty fits enough returns same⟩
  · rintro ⟨fits, unspaced⟩ heap turns enough
    exact ends_behind_of_unspaced fits unspaced enough
  · -- In memory that is full of zero bytes, every string ends where it should.
    obtain ⟨result, result', returns, returns', same⟩ :=
      independent (fun _ _ => 0) (fun _ _ => 120) _ enough
    have fits := fits_of_camelCaser input.plain enough returns
    obtain ⟨_, returned, ends⟩ :=
      (@ends_behind_iff input (fun _ _ => 0) _ fits enough).mpr fun _ _ _ => .inr rfl
    obtain rfl := Option.some.inj (Option.some.inj (returns.symm.trans returned))
    exact ⟨fits, unspaced_of_dirty fits enough returns' (same.symm.trans ends)⟩
  · rintro ⟨fits, unspaced⟩ heap heap' turns enough
    obtain ⟨result, returns, same⟩ := @ends_behind_of_unspaced input heap turns fits unspaced enough
    obtain ⟨result', returns', same'⟩ := @ends_behind_of_unspaced input heap' turns fits unspaced enough
    exact ⟨result, result', returns, returns', same.trans same'.symm⟩

/-- `"a b."`. -/
def spacedString : AsciiString where
  characters := [97, 32, 98, 46]
  ascii := by simp

theorem spacedString_runs :
    (camelCaser 5 (fun _ _ => 120) (some spacedString.characters)).map (Option.map texts) =
      some (some [some [97, 66, 120]]) ∧
    (camelCaser 5 (fun _ _ => 0) (some spacedString.characters)).map (Option.map texts) =
      some (some [some [97, 66]]) := by
  constructor <;> decide

/--
Its sentence is "aB", and "aBx" is returned where the memory was full of the letter "x"; so it does
not end behind its characters, and another run returns another string.
-/
theorem whitespace_leaves_memory :
    (sentences spacedString.characters).map camelCase = [[97, 66]] ∧
      (camelCaser 5 (fun _ _ => 120) (some spacedString.characters)).map (Option.map texts) =
        some (some [some [97, 66, 120]]) ∧
      ¬ EndsBehind spacedString.characters ∧ ¬ Independent spacedString.characters := by
  obtain ⟨dirty, clean⟩ := spacedString_runs
  have wanted : (sentences spacedString.characters).map camelCase = [[97, 66]] := by decide
  refine ⟨wanted, dirty, fun ends => ?_, fun independent => ?_⟩
  · obtain ⟨result, returns, same⟩ := ends (fun _ _ => 120) 5 (by decide)
    rw [returns, Option.map_some, Option.map_some, same] at dirty
    exact absurd dirty (by decide)
  · obtain ⟨result, result', returns, returns', same⟩ :=
      independent (fun _ _ => 120) (fun _ _ => 0) 5 (by decide)
    rw [returns, Option.map_some, Option.map_some, same] at dirty
    rw [returns', Option.map_some, Option.map_some] at clean
    exact absurd (dirty.symm.trans clean) (by decide)

end Heaps

end SystemProgramming.CamelCaser
