import Mathlib.Algebra.Order.Ring.Nat
import SystemProgramming.Foundations.Buffers
import SystemProgramming.Foundations.While

/-! The program that writes the sentences of a text in camel case. -/

namespace SystemProgramming.CamelCaser

open Foundations Foundations.Strings

section Characters

/-- `isspace`. -/
def isSpace (character : UInt8) : Bool :=
  character = 32 || (9 ≤ character && character ≤ 13)

/-- `ispunct`. -/
def isPunct (character : UInt8) : Bool :=
  (33 ≤ character && character ≤ 47) || (58 ≤ character && character ≤ 64) ||
    (91 ≤ character && character ≤ 96) || (123 ≤ character && character ≤ 126)

/-- `tolower`. -/
def toLower (character : UInt8) : UInt8 :=
  if 65 ≤ character ∧ character ≤ 90 then character + 32 else character

/-- `toupper`. -/
def toUpper (character : UInt8) : UInt8 :=
  if 97 ≤ character ∧ character ≤ 122 then character - 32 else character

end Characters

/-- The character at an index of a string; undefined behind its zero byte. -/
def characterAt (input : List UInt8) (i : Nat) : Option UInt8 := (input ++ [0])[i]?

/-- Whether the string goes on at an index. -/
def goesOnAt (input : List UInt8) (i : Nat) : Option Bool :=
  (characterAt input i).map fun character => character ≠ 0

/-- `++` of an `int` that is not negative; undefined where it overflows. -/
def increment (value : Nat) : Option Nat :=
  if value + 1 < 2 ^ 31 then some (value + 1) else none

/-- `malloc` of memory that still has its old contents. -/
def malloc (contents : Nat → UInt8) (size : Nat) : Buffer :=
  ⟨size, (List.range size).map fun i => some (contents i), []⟩

section Counting

/-- The pointer of the first loop, as an index, and its counter. -/
structure Counting where
  inputS1 : Nat
  outNum : Nat
  deriving DecidableEq, Repr

/-- One turn of the first loop. -/
def countCharacter (input : List UInt8) (st : Counting) : Option Counting :=
  (characterAt input st.inputS1).bind fun character =>
    (if isPunct character then increment st.outNum else some st.outNum).map fun outNum =>
      { inputS1 := st.inputS1 + 1, outNum }

/-- `out_num` behind the first loop: one more than there are punctuation characters. -/
def countResults (turns : Nat) (input : List UInt8) : Option Nat :=
  (whileLoop (fun st => goesOnAt input st.inputS1) (countCharacter input) turns ⟨0, 0⟩).bind fun st =>
    increment st.outNum

end Counting

section Words

/-- The variables of the inner loops; `j` and `k` stay below `i`, and do not overflow. -/
structure Words where
  j : Nat
  k : Nat
  isFirst : Bool
  resultE : Buffer
  deriving DecidableEq, Repr

/-- `j < i && isspace(input_s2[j])`. -/
def spaceAt (input : List UInt8) (i : Nat) (st : Words) : Option Bool :=
  if st.j < i then (characterAt input st.j).map isSpace else some false

def skipSpace (st : Words) : Option Words := some { st with j := st.j + 1 }

/-- `j < i && !isspace(input_s2[j]) && !ispunct(input_s2[j])`. -/
def letterAt (input : List UInt8) (i : Nat) (st : Words) : Option Bool :=
  if st.j < i then
    (characterAt input st.j).map fun character => !isSpace character && !isPunct character
  else some false

def copyLetter (input : List UInt8) (st : Words) : Option Words :=
  (characterAt input st.j).map fun character =>
    { st with
      j := st.j + 1
      k := st.k + 1
      resultE := st.resultE.store st.k (toLower character) }

/-- One turn of the loop over the words of a sentence. -/
def copyWord (turns : Nat) (input : List UInt8) (i : Nat) (st : Words) : Option Words :=
  (whileLoop (spaceAt input i) skipSpace turns st).bind fun st =>
    if st.j < i then
      (characterAt input st.j).bind fun character =>
        whileLoop (letterAt input i) (copyLetter input) turns
          { j := st.j + 1
            k := st.k + 1
            isFirst := false
            resultE := st.resultE.store st.k
              (if st.isFirst then toLower character else toUpper character) }
    else some st

end Words

/-- A pointer to a buffer, or `NULL`. -/
inductive Pointer where
  | null
  | to (buffer : Buffer)
  deriving DecidableEq, Repr

/-- The array of results; an element is undefined until it is stored. -/
abbrev Results := List (Option Pointer)

/-- An assignment to an element; undefined outside of the array. -/
def storeResult (result : Results) (index : Nat) (pointer : Pointer) : Option Results :=
  if index < result.length then some (result.set index (some pointer)) else none

/-- The variables of the second loop. -/
structure Sentences where
  i : Nat
  head : Nat
  idx : Nat
  result : Results
  deriving DecidableEq, Repr

/-- What is done at a punctuation character, with what each of the buffers has in it at first. -/
def copySentence (turns : Nat) (heap : Nat → Nat → UInt8) (input : List UInt8) (st : Sentences) :
    Option Sentences :=
  (increment (st.i - st.head)).bind fun size =>
    let resultE := (malloc (heap st.idx) size).store (st.i - st.head) 0
    (whileLoop (fun words => some (words.j < st.i)) (copyWord turns input st.i) turns
        ⟨st.head, 0, true, resultE⟩).bind fun words =>
      let resultE := words.resultE.store (st.i - st.head) 0
      (storeResult st.result st.idx (.to resultE)).bind fun result =>
        (increment st.idx).bind fun idx =>
          (increment st.i).map fun head => { st with head, idx, result }

/-- One turn of the second loop. -/
def nextCharacter (turns : Nat) (heap : Nat → Nat → UInt8) (input : List UInt8) (st : Sentences) :
    Option Sentences :=
  (characterAt input st.i).bind fun character =>
    (if isPunct character then copySentence turns heap input st else some st).bind fun st =>
      (increment st.i).map fun i => { st with i }

/-- `camel_caser`, of a string or of `NULL`. The memory that is asked for is there. -/
def camelCaser (turns : Nat) (heap : Nat → Nat → UInt8) :
    Option (List UInt8) → Option (Option Results)
  | none => some none
  | some input =>
    (countResults turns input).bind fun outNum =>
      (storeResult (List.replicate outNum none) (outNum - 1) .null).bind fun result =>
        (whileLoop (fun st => goesOnAt input st.i) (nextCharacter turns heap input) turns
          ⟨0, 0, 0, result⟩).map fun st => some st.result

/-- A string of ASCII characters. -/
structure AsciiString where
  characters : List UInt8
  ascii : ∀ character ∈ characters, 0 < character ∧ character < 128

end SystemProgramming.CamelCaser
