import SystemProgramming.TeachingThreads.ParReduce

/-! The arithmetic of the parts, for lists that an `int` cannot count as well. -/

namespace SystemProgramming.TeachingThreads

namespace Call

variable {call : Call} {each i : Nat}

/-- The parts of the threads cover the list: none is empty, and all are in it, up to its length. -/
structure Covers (call : Call) : Prop where
  /-- There is no division by zero. -/
  divides : (parReduce call).isSome
  nonempty : 1 ≤ call.listLen → ∀ i < call.threads, 1 ≤ call.length i
  total : ((List.range call.threads).map call.length).sum = call.listLen
  inside : ∀ i < call.threads, call.offset i + call.length i ≤ call.listLen

/-- A number in the upper half of the remainders stands for a negative one. -/
theorem bmod_upper {number modulus : Nat} (below : number < modulus)
    (upper : (modulus + 1) / 2 ≤ number) : (number : Int).bmod modulus = number - modulus := by
  rw [Int.bmod_def, Int.emod_eq_of_lt (by omega) (by omega), if_neg (by omega)]

/-- What does not fit is left away either way. -/
theorem bmod_mod (number modulus : Nat) :
    ((number % modulus : Nat) : Int).bmod modulus = (number : Int).bmod modulus := by
  rw [Int.natCast_emod, Int.emod_bmod]

/-- An `int` holds what is left in it of a number, which may become negative. -/
theorem toInt_eq (number : Nat) :
    (number % 2 ^ 32 < 2 ^ 31 → toInt number = (number % 2 ^ 32 : Nat)) ∧
      (2 ^ 31 ≤ number % 2 ^ 32 → toInt number = (number % 2 ^ 32 : Nat) - (2 ^ 32 : Nat)) := by
  have reduced : toInt (number % 2 ^ 32) = toInt number := bmod_mod number _
  rw [← reduced]
  constructor
  · intro small
    exact toInt_of_lt small
  · intro large
    exact bmod_upper (by omega) (by omega)

/-- The number of threads is at most that of the values, and there are both or neither. -/
theorem threads_eq (someThread : 1 ≤ call.numThreads) :
    call.threads = min call.listLen call.numThreads ∧
      (call.threads = 0 ↔ call.listLen = 0) := by
  rw [threads]
  split <;> omega

/-- Parts of one length, and what is left for the last one, cover the list. -/
theorem covers_of_each (divides : (parReduce call).isSome) (someThread : 1 ≤ call.threads)
    (positive : 1 ≤ each) (fits : each * call.threads ≤ call.listLen)
    (offsets : ∀ i < call.threads, call.offset i = each * i)
    (lengths : ∀ i < call.threads, call.length i =
      if i = call.threads - 1 then call.listLen - each * (call.threads - 1) else each) :
    call.Covers := by
  obtain ⟨others, same⟩ := Nat.exists_eq_add_of_le' someThread
  rw [same, Nat.add_sub_cancel] at lengths
  rw [same, Nat.mul_succ] at fits
  have last : call.length others = call.listLen - each * others := by
    rw [lengths others (Nat.lt_succ_self _), if_pos rfl]
  have earlier (i : Nat) (below : i < others) : call.length i = each := by
    rw [lengths i (by omega), if_neg (by omega)]
  have cases' (i : Nat) (below : i < call.threads) : i = others ∨ i < others := by omega
  refine ⟨divides, fun _ i below => ?_, ?_, fun i below => ?_⟩
  · rcases cases' i below with rfl | before
    · rw [last]
      omega
    · rw [earlier i before]
      exact positive
  · -- All but the last have the same length.
    have front : (List.range others).map call.length = List.replicate others each := by
      rw [List.eq_replicate_iff]
      refine ⟨by simp, fun length member => ?_⟩
      obtain ⟨i, inside, rfl⟩ := List.mem_map.mp member
      exact earlier i (List.mem_range.mp inside)
    rw [same, List.range_succ, List.map_append, List.sum_append, front, List.sum_replicate_nat]
    simp only [List.map_cons, List.map_nil, List.sum_singleton, last]
    rw [Nat.mul_comm]
    omega
  · rw [offsets i below]
    rcases cases' i below with rfl | before
    · rw [last]
      omega
    · have bound := Nat.mul_le_mul_left each (Nat.succ_le_of_lt before)
      rw [earlier i before, ← Nat.mul_succ]
      omega

/-- If the quotient has no sign and is not zero, then no part is longer than it is. -/
theorem covers_of_quotient (size : call.listLen < 2 ^ 64) (divides : (parReduce call).isSome)
    (someThread : 1 ≤ call.threads) (positive : 1 ≤ each)
    (same : call.numEachList = each) (atMost : each ≤ call.listLen / call.threads) :
    call.Covers := by
  have fits : each * call.threads ≤ call.listLen :=
    (Nat.mul_le_mul_right _ atMost).trans (Nat.div_mul_le_self _ _)
  -- No product is larger than the length of the list, so that nothing of it is lost.
  have product (i : Nat) (below : i < call.threads) : each * i ≤ call.listLen :=
    (Nat.mul_le_mul_left _ (Nat.le_of_lt below)).trans fits
  have offset_eq (i : Nat) (below : i < call.threads) : call.offset i = each * i := by
    have bound := product i below
    rw [Call.offset, same, ← Int.natCast_mul, sizeT_of_lt (by omega)]
  refine covers_of_each divides someThread positive fits offset_eq fun i below => ?_
  rw [Call.length, same]
  by_cases last : i = call.threads - 1
  · have bound := product i below
    have start := offset_eq i below
    rw [Call.offset, same] at start
    rw [if_pos last, if_pos last, ← last, start, ← Int.natCast_sub bound, sizeT_of_lt (by omega)]
  · have one := product 1 (by omega)
    rw [if_neg last, if_neg last, sizeT_of_lt (by omega)]

/-- A single thread takes the whole list, whatever the quotient is. -/
theorem covers_of_single (size : call.listLen < 2 ^ 64) (divides : (parReduce call).isSome)
    (nonempty : 1 ≤ call.listLen) (single : call.threads = 1) : call.Covers := by
  have start : sizeT 0 = 0 := by decide
  refine @covers_of_each call 1 divides (by omega) (Nat.le_refl 1) (by omega) ?_ ?_
  · intro i below
    obtain rfl : i = 0 := by omega
    rw [Call.offset, Int.natCast_zero, Int.mul_zero, start]
  · intro i below
    rw [Call.length, if_pos (by omega), if_pos (by omega), single, Nat.sub_self, Int.natCast_zero,
      Int.mul_zero, start, Int.natCast_zero, Int.sub_zero, sizeT_of_lt size]
    omega

/-- There is a division by zero exactly for an empty list. -/
theorem divides_iff (given : call.list ≠ none) (someThread : 1 ≤ call.numThreads) :
    (parReduce call).isSome ↔ 1 ≤ call.listLen := by
  obtain ⟨list, here⟩ := Option.ne_none_iff_exists'.mp given
  have empty := (threads_eq someThread).2
  simp only [parReduce, here]
  split
  · simp
    omega
  · simp
    omega

/-- With two threads or more, the quotient has to be one that an `int` has, and not zero. -/
theorem Covers.quotient_eq (covers : call.Covers) (size : call.listLen < 2 ^ 64)
    (several : 2 ≤ call.threads) (nonempty : 1 ≤ call.listLen) :
    1 ≤ call.listLen / call.threads % 2 ^ 32 ∧
      call.listLen / call.threads % 2 ^ 32 < 2 ^ 31 := by
  obtain ⟨small, large⟩ := toInt_eq (call.listLen / call.threads)
  have first : call.length 0 = sizeT call.numEachList := by
    rw [Call.length, if_neg (by omega)]
  have some := covers.nonempty nonempty 0 (by omega)
  rw [first] at some
  constructor
  · -- Without a value left in the quotient, the first part would be empty.
    apply Nat.one_le_iff_ne_zero.mpr
    intro zero
    rw [Call.numEachList, small (by omega), zero, Int.natCast_zero, sizeT] at some
    omega
  · apply Nat.lt_of_not_le
    intro negative
    -- The length of a part is then almost 2 ^ 64, and the second part starts where it ends.
    have second := covers.inside 1 (by omega)
    have last := covers.nonempty nonempty 1 (by omega)
    have each := large negative
    have start : call.offset 1 = sizeT call.numEachList := by
      rw [Call.offset, Int.natCast_one, Int.mul_one]
    have huge : sizeT call.numEachList + 2 ^ 32 = 2 ^ 64 + call.listLen / call.threads % 2 ^ 32 := by
      rw [Call.numEachList, each, sizeT]
      omega
    rcases Nat.lt_or_ge 2 call.threads with more | two
    · have length : call.length 1 = sizeT call.numEachList := by
        rw [Call.length, if_neg (by omega)]
      omega
    · have same : call.threads = 2 := by omega
      rw [same] at huge negative
      omega

/--
The parts cover the list exactly if it is not empty and there is one thread, or the quotient is, as
an `int`, not negative and not zero.
-/
theorem covers_iff (given : call.list ≠ none) (size : call.listLen < 2 ^ 64)
    (someThread : 1 ≤ call.numThreads) :
    call.Covers ↔ 1 ≤ call.listLen ∧ (call.numThreads = 1 ∨
      1 ≤ call.listLen / min call.listLen call.numThreads % 2 ^ 32 ∧
        call.listLen / min call.listLen call.numThreads % 2 ^ 32 < 2 ^ 31) := by
  obtain ⟨same, empty⟩ := threads_eq someThread
  rw [← same]
  constructor
  · intro covers
    have nonempty := (divides_iff given someThread).mp covers.divides
    refine ⟨nonempty, ?_⟩
    rcases Nat.lt_or_ge call.threads 2 with few | several
    · -- One thread is used because there is no other, or because there is one value.
      by_cases single : call.numThreads = 1
      · exact .inl single
      · have one : call.threads = 1 := by omega
        have value : call.listLen = 1 := by omega
        rw [one, value]
        exact .inr (by decide)
    · exact .inr (covers.quotient_eq size several nonempty)
  · rintro ⟨nonempty, single | ⟨positive, small⟩⟩
    · have divides := (divides_iff given someThread).mpr nonempty
      exact covers_of_single size divides nonempty (by omega)
    · have divides := (divides_iff given someThread).mpr nonempty
      have quotient := (toInt_eq (call.listLen / call.threads)).1 small
      exact covers_of_quotient size divides (by omega) positive quotient (Nat.mod_le _ _)

/-- Three values, of which two threads get one and two. -/
theorem covers_iff_three : (⟨some [3, 1, 2], 3, (· + ·), 0, 2⟩ : Call).Covers := by
  refine (covers_iff (by decide) (by decide) (by decide)).mpr ⟨by decide, .inr ?_⟩
  decide

/--
Without a value there is a division by zero; with 2 ^ 33 values and two threads, the first part is
empty; and with 2 ^ 32 values and two threads it has more than there are.
-/
theorem chunks_miss : ¬ (⟨some [], 0, (· + ·), 0, 1⟩ : Call).Covers ∧
    ¬ (⟨some (List.replicate (2 ^ 33) 0), 2 ^ 33, (· + ·), 0, 2⟩ : Call).Covers ∧
    ¬ (⟨some (List.replicate (2 ^ 32) 0), 2 ^ 32, (· + ·), 0, 2⟩ : Call).Covers := by
  refine ⟨fun covers => ?_, fun covers => ?_, fun covers => ?_⟩
  · have divides := covers.divides
    cases divides
  · have some := covers.nonempty (by decide) 0 (by decide)
    exact absurd some (by decide)
  · have inside := covers.inside 0 (by decide)
    exact absurd inside (by decide)

end Call

end SystemProgramming.TeachingThreads
