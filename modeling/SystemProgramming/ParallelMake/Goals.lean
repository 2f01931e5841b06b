import SystemProgramming.ParallelMake.WorkList

/-! Which goals `vector_check` tests for a cycle, and which of them it removes. -/

namespace SystemProgramming.ParallelMake

variable {Target : Type*}

/--
`vector_check`: the list that is left, and the goals that were given to `cycle_detect`. The first
number bounds the rounds; the index is an integer, because a `size_t` that has wrapped around below
zero is back at zero before it is used.
-/
def vectorCheck (cycleDetect : Target → Int) :
    Nat → Int → List Target → List Target → Option (List Target × List Target)
  | 0, _, _, _ => none
  | fuel + 1, i, targetList, tested =>
    if i < targetList.length then
      match targetList[i.toNat]? with
      | some cur =>
        if cycleDetect cur ≠ 0 then
          -- The goal is erased, and `i --` makes up for one of the two `i ++`.
          vectorCheck cycleDetect fuel (i - 1 + 1 + 1) (targetList.eraseIdx i.toNat) (tested ++ [cur])
        else vectorCheck cycleDetect fuel (i + 1 + 1) targetList (tested ++ [cur])
      | none => none
    else some (targetList, tested)

/-- What `parmake` expects: no goal is left out of the test, and the cyclic ones are gone. -/
def Cleaned (cycleDetect : Target → Int) (targets left tested : List Target) : Prop :=
  left = targets.filter (fun target => cycleDetect target = 0) ∧ ∀ target ∈ targets, target ∈ tested

/-- The first goal of a list, the third one, and so on. -/
def examined : List Target → List Target
  | [] => []
  | [cur] => [cur]
  | cur :: _ :: rest => cur :: examined rest

/-- The second goal of a list, the fourth one, and so on. -/
def passedOver : List Target → List Target
  | [] => []
  | [_] => []
  | _ :: next :: rest => next :: passedOver rest

/-- The list without the cyclic goals among those that are examined. -/
def swept (cycleDetect : Target → Int) : List Target → List Target
  | [] => []
  | [cur] => if cycleDetect cur ≠ 0 then [] else [cur]
  | cur :: next :: rest =>
    if cycleDetect cur ≠ 0 then next :: swept cycleDetect rest
    else cur :: next :: swept cycleDetect rest

variable {cycleDetect : Target → Int} {targets front rest tested : List Target} {target : Target}
  {fuel : Nat}

/-- Every goal is examined or passed over. -/
theorem mem_split : target ∈ targets ↔ target ∈ examined targets ∨ target ∈ passedOver targets := by
  induction targets using examined.induct with
  | case1 => simp [examined, passedOver]
  | case2 cur => simp [examined, passedOver]
  | case3 cur next rest ih =>
    simp only [List.mem_cons, examined, passedOver, ih]
    tauto

/-- A round looks at the goal at the index, and the next round at the one behind its successor. -/
theorem vectorCheck_cons (cur : Target) :
    vectorCheck cycleDetect (fuel + 1) front.length (front ++ cur :: rest) tested =
      if cycleDetect cur ≠ 0 then
        vectorCheck cycleDetect fuel (front.length + 1) (front ++ rest) (tested ++ [cur])
      else
        vectorCheck cycleDetect fuel (front.length + 2) (front ++ cur :: rest) (tested ++ [cur]) := by
  have inside : (front.length : Int) < (front ++ cur :: rest).length := by
    rw [List.length_append, List.length_cons]
    omega
  have there : (front ++ cur :: rest)[front.length]? = some cur := by simp
  have gone : (front ++ cur :: rest).eraseIdx front.length = front ++ rest := by
    rw [List.eraseIdx_append_of_length_le (Nat.le_refl _), Nat.sub_self]
    rfl
  rw [vectorCheck, if_pos inside, Int.toNat_natCast, there]
  dsimp only
  rw [gone, Int.sub_add_cancel, Int.add_assoc (front.length : Int) 1 1]
  rfl

/-- Behind the end of the list the loop is over. -/
theorem vectorCheck_end {i : Int} (outside : targets.length ≤ i) :
    vectorCheck cycleDetect (fuel + 1) i targets tested = some (targets, tested) := by
  rw [vectorCheck, if_neg (not_lt.mpr outside)]

/-- From an index on, the loop examines every other goal, whatever the answers are. -/
theorem vectorCheck_from (enough : rest.length < fuel) :
    vectorCheck cycleDetect fuel front.length (front ++ rest) tested =
      some (front ++ swept cycleDetect rest, tested ++ examined rest) := by
  -- The induction takes two goals of the list at a time.
  induction rest using examined.induct generalizing front tested fuel with
  | case1 =>
    obtain ⟨fuel, rfl⟩ : ∃ less, fuel = less + 1 := ⟨fuel - 1, by omega⟩
    simp [vectorCheck_end, swept, examined]
  | case2 cur =>
    rw [List.length_singleton] at enough
    obtain ⟨fuel, rfl⟩ : ∃ less, fuel = less + 2 := ⟨fuel - 2, by omega⟩
    rw [vectorCheck_cons, swept, examined]
    -- The index has left the list in both cases.
    split
    · rw [List.append_nil, vectorCheck_end (by omega)]
    · rw [vectorCheck_end (by rw [List.length_append, List.length_singleton]; omega)]
  | case3 cur next rest ih =>
    obtain ⟨fuel, rfl⟩ : ∃ less, fuel = less + 1 := ⟨fuel - 1, by omega⟩
    rw [List.length_cons, List.length_cons] at enough
    rw [vectorCheck_cons, swept, examined]
    split
    · -- The next goal has taken the place of the erased one, before the new index.
      have later := @ih (front ++ [next]) (tested ++ [cur]) fuel (by omega)
      rw [List.length_append, List.length_singleton, List.append_assoc, List.append_assoc,
        List.append_assoc] at later
      exact later
    · have later := @ih (front ++ [cur, next]) (tested ++ [cur]) fuel (by omega)
      rw [List.length_append, List.append_assoc, List.append_assoc, List.append_assoc] at later
      exact later

/-- The loop returns: it has examined every other goal, and erased the cyclic ones among them. -/
theorem vectorCheck_eq (enough : targets.length < fuel) :
    vectorCheck cycleDetect fuel 0 targets [] = some (swept cycleDetect targets, examined targets) :=
  @vectorCheck_from _ cycleDetect [] targets [] fuel enough

/-- The right goals are left exactly if none of those that are passed over is cyclic. -/
theorem swept_eq_filter : swept cycleDetect targets =
      targets.filter (fun target => cycleDetect target = 0) ↔
    ∀ target ∈ passedOver targets, cycleDetect target = 0 := by
  induction targets using examined.induct with
  | case1 => simp [swept, passedOver]
  | case2 cur =>
    by_cases cyclic : cycleDetect cur = 0 <;> simp [swept, passedOver, cyclic]
  | case3 cur next rest ih =>
    rw [passedOver, List.forall_mem_cons, ← ih]
    -- A cyclic goal behind the examined one is left in the list, but not in the filtered one.
    have missing (cyclic : cycleDetect next ≠ 0) (other : List Target) :
        next :: other ≠ rest.filter (fun target => cycleDetect target = 0) := by
      intro same
      have member : next ∈ rest.filter (fun target => cycleDetect target = 0) :=
        same ▸ List.mem_cons_self
      exact cyclic (of_decide_eq_true (List.mem_filter.mp member).2)
    by_cases cyclic : cycleDetect cur = 0 <;> by_cases second : cycleDetect next = 0 <;>
      simp [swept, cyclic, second, missing]

/--
`vector_check` returns for every list of goals and every answer of `cycle_detect`; and it has tested
all goals and left exactly the ones without a cycle if and only if no goal at an even place, counted
from one, is cyclic, and each of these also stands at an odd place.
-/
theorem vectorCheck_cleaned_iff (cycleDetect : Target → Int) (targets : List Target) :
    ∃ fuel left tested,
      (∀ more, fuel ≤ more → vectorCheck cycleDetect more 0 targets [] = some (left, tested)) ∧
      (Cleaned cycleDetect targets left tested ↔
        ∀ target ∈ passedOver targets, cycleDetect target = 0 ∧ target ∈ examined targets) := by
  refine ⟨targets.length + 1, swept cycleDetect targets, examined targets,
    fun more enough => vectorCheck_eq enough, ?_⟩
  -- What is passed over has to be harmless, and to be tested elsewhere in the list.
  have complete : (∀ target ∈ targets, target ∈ examined targets) ↔
      ∀ target ∈ passedOver targets, target ∈ examined targets := by
    constructor
    · exact fun all target passed => all target (mem_split.mpr (.inr passed))
    · intro all target member
      exact (mem_split.mp member).elim id (all target)
  rw [Cleaned, swept_eq_filter, complete, ← forall₂_and]

/-- The second goal is cyclic, is not tested, and is left to the search for descendants. -/
theorem vectorCheck_uncleaned :
    vectorCheck (fun target => if target = 2 then 1 else 0) 3 0 [1, 2] [] = some ([1, 2], [1]) ∧
      ¬ Cleaned (fun target => if target = 2 then 1 else 0) [1, 2] [1, 2] [1] := by
  refine ⟨by decide, fun cleaned => ?_⟩
  have tested := cleaned.2 2 (by decide)
  exact absurd tested (by decide)

end SystemProgramming.ParallelMake
