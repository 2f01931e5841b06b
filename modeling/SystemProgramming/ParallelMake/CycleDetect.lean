import SystemProgramming.ParallelMake.WorkList
import SystemProgramming.Foundations.Cycles
import Mathlib.Data.Set.Card

/-! The cycle check of `parmake`: what it returns is right, and when it returns. -/

namespace SystemProgramming.ParallelMake

open Foundations Relation

section Functions

variable {Target : Type*} [DecidableEq Target]

/-- The loop over the neighbors, which ends at the first one that returns a flag. -/
def detectLoop
    (cycleDetect : Target → Option (List Target) → Option (Bool × Option (List Target))) :
    List Target → Option (List Target) → Option (Bool × Option (List Target))
  | [], visitedVertex => some (false, visitedVertex)
  | neighbor :: rest, visitedVertex =>
    match cycleDetect neighbor visitedVertex with
    | some (true, visitedVertex) => some (true, visitedVertex)
    | some (false, visitedVertex) => detectLoop cycleDetect rest visitedVertex
    | none => none

/--
`cycle_detect`, with the global `visited_vertex` passed along; `none` stands for `NULL`. The first
number bounds the depth of the recursion.
-/
def cycleDetect (rules : Rules Target) :
    Nat → Target → Option (List Target) → Option (Bool × Option (List Target))
  | 0, _, _ => none
  | fuel + 1, cur, visitedVertex =>
    let visited := visitedVertex.getD []
    if cur ∉ visited then
      match detectLoop (cycleDetect rules fuel) (rules.dependencies cur) (some (cur :: visited)) with
      -- Every call that returns destroys the set, also the calls for the neighbors.
      | some (flag, _) => some (flag, none)
      | none => none
    else some (true, none)

end Functions

variable {Target : Type*} {rules : Rules Target} {cur next : Target} {list front back : List Target}

/-- What `cycle_detect` should do: it returns, with a flag exactly where a cycle can be reached. -/
def DecidesCycles [DecidableEq Target] (rules : Rules Target) (cur : Target) : Prop :=
  ∃ fuel flag, cycleDetect rules fuel cur none = some (flag, none) ∧
    (flag = true ↔ ReachesCycle (Goes rules.dependencies) cur)

/-- A bound for each element of a list gives one for all of them. -/
theorem exists_bound {Holds : Target → Nat → Prop}
    (each : ∀ target ∈ list, ∃ enough, ∀ fuel, enough ≤ fuel → Holds target fuel) :
    ∃ enough, ∀ target ∈ list, ∀ fuel, enough ≤ fuel → Holds target fuel := by
  induction list with
  | nil => exact ⟨0, nofun⟩
  | cons first rest ih =>
    obtain ⟨one, head⟩ := each first List.mem_cons_self
    obtain ⟨two, tail⟩ := ih fun target member => each target (List.mem_cons_of_mem _ member)
    -- The larger of the two bounds is enough for both.
    refine ⟨max one two, List.forall_mem_cons.mpr ⟨?_, ?_⟩⟩
    · intro fuel large
      exact head fuel (Nat.le_trans (Nat.le_max_left one two) large)
    · intro target member fuel large
      exact tail target member fuel (Nat.le_trans (Nat.le_max_right one two) large)

section Behind

variable {edge more : Target → Target → Prop} {visited : Option (List Target)}

/-- The visited targets lead to the one at hand. -/
def Behind (edge : Target → Target → Prop) (visited : Option (List Target)) (cur : Target) : Prop :=
  ∀ other ∈ visited.getD [], TransGen edge other cur

theorem Behind.mono (behind : Behind edge visited cur)
    (wider : ∀ a b, edge a b → more a b) : Behind more visited cur :=
  fun other member => TransGen.mono wider _ _ (behind other member)

theorem Behind.unset : Behind edge none cur :=
  fun _ member => absurd member List.not_mem_nil

/-- One step further, the target at hand is one of those behind. -/
theorem Behind.step (behind : Behind edge visited cur)
    (step : edge cur next) : Behind edge (some (cur :: visited.getD [])) next := by
  intro other member
  rcases List.mem_cons.mp member with rfl | earlier
  · exact .single step
  · exact (behind other earlier).tail step

/-- A target that reaches no cycle is not among those behind it. -/
theorem Behind.absent (behind : Behind (Goes rules.dependencies) visited cur)
    (free : ¬ ReachesCycle (Goes rules.dependencies) cur) : cur ∉ visited.getD [] :=
  fun member => free (.of_cycle (behind cur member))

end Behind

section Loop

variable {detect : Target → Option (List Target) → Option (Bool × Option (List Target))}
  {visited : Option (List Target)} {result : Bool × Option (List Target)}

/-- The loop goes on behind neighbors that find nothing; each of them has destroyed the set. -/
theorem detectLoop_append (quiet : ∀ other ∈ front, detect other visited = some (false, none) ∧
      detect other none = some (false, none)) :
    detectLoop detect (front ++ back) visited =
      detectLoop detect back (if front = [] then visited else none) := by
  induction front generalizing visited with
  | nil => rfl
  | cons first rest ih =>
    have passed := (quiet first List.mem_cons_self).1
    have later := @ih none fun other member =>
      ⟨(quiet other (List.mem_cons_of_mem _ member)).2,
        (quiet other (List.mem_cons_of_mem _ member)).2⟩
    rw [ite_self] at later
    rw [List.cons_append, detectLoop, passed, if_neg (List.cons_ne_nil first rest)]
    exact later

/-- A loop that returns has gone over all neighbors in front that can only find nothing. -/
theorem detectLoop_returned
    (quiet : ∀ other ∈ front, ∀ visited' outcome, (visited' = visited ∨ visited' = none) →
      detect other visited' = some outcome → outcome = (false, none))
    (returned : detectLoop detect (front ++ back) visited = some result) :
    detectLoop detect back (if front = [] then visited else none) = some result := by
  -- The induction is on the neighbors in front; behind the first one, no visited set is passed on.
  induction front generalizing visited with
  | nil => exact returned
  | cons first rest ih =>
    rw [List.cons_append, detectLoop] at returned
    cases called : detect first visited with
    | none =>
      rw [called] at returned
      cases returned
    | some outcome =>
      rw [quiet first List.mem_cons_self visited outcome (.inl rfl) called] at called
      rw [called] at returned
      have later := ih (fun other member visited' outcome unset =>
        quiet other (List.mem_cons_of_mem _ member) visited' outcome (.inr (or_self_iff.mp unset)))
        returned
      rw [ite_self] at later
      rw [if_neg (List.cons_ne_nil first rest)]
      exact later

/-- A flag of the loop is that of a neighbor, called with the set or without one. -/
theorem detectLoop_true (clears : ∀ target visited outcome, detect target visited = some outcome →
      outcome.2 = none)
    (found : detectLoop detect list visited = some result) (flag : result.1 = true) :
    ∃ neighbor ∈ list, ∃ visited', (visited' = visited ∨ visited' = none) ∧
      ∃ after, detect neighbor visited' = some (true, after) := by
  induction list generalizing visited with
  | nil =>
    cases found
    cases flag
  | cons first rest ih =>
    rw [detectLoop] at found
    split at found
    · rename_i after called
      exact ⟨first, List.mem_cons_self, visited, .inl rfl, after, called⟩
    · rename_i after called
      have unset : after = none := clears _ _ _ called
      rw [unset] at found
      obtain ⟨neighbor, member, visited', both, flagged⟩ := ih found
      exact ⟨neighbor, List.mem_cons_of_mem _ member, visited', .inr (or_self_iff.mp both), flagged⟩
    · cases found

end Loop

variable [DecidableEq Target] {fuel : Nat} {visited : Option (List Target)}
  {outcome : Bool × Option (List Target)}

/-- Behind every call that returns there is no set. -/
theorem cycleDetect_unvisited (returned : cycleDetect rules fuel cur visited = some outcome) :
    outcome.2 = none := by
  cases fuel with
  | zero => cases returned
  | succ fuel =>
    rw [cycleDetect] at returned
    split at returned
    · split at returned
      · cases returned
        rfl
      · cases returned
    · cases returned
      rfl

/-- A flag is only returned where a cycle can be reached. -/
theorem cycleDetect_sound (behind : Behind (Goes rules.dependencies) visited cur)
    (returned : cycleDetect rules fuel cur visited = some outcome) (flag : outcome.1 = true) :
    ReachesCycle (Goes rules.dependencies) cur := by
  -- The visited targets stay behind the one at hand, so meeting one of them closes a cycle.
  induction fuel generalizing cur visited outcome with
  | zero => cases returned
  | succ fuel ih =>
    rw [cycleDetect] at returned
    split at returned
    · split at returned
      · rename_i found after loop
        cases returned
        obtain ⟨neighbor, member, visited', either, after, called⟩ :=
          detectLoop_true (fun _ _ _ => cycleDetect_unvisited) loop flag
        have step : Goes rules.dependencies cur neighbor := member
        apply ReachesCycle.head step
        rcases either with rfl | rfl
        · exact ih (behind.step step) called rfl
        · exact ih .unset called rfl
      · cases returned
    · rename_i met
      exact .of_cycle (behind cur (not_not.mp met))

/-- With enough fuel the call returns that there is a cycle. -/
def Finds (rules : Rules Target) (cur : Target) (visited : Option (List Target)) : Prop :=
  ∃ enough, ∀ fuel, enough ≤ fuel → cycleDetect rules fuel cur visited = some (true, none)

/-- Where no cycle can be reached, the call returns without a flag. -/
theorem cycleDetect_free [Finite Target] (free : ¬ ReachesCycle (Goes rules.dependencies) cur) :
    ∃ enough, ∀ fuel, enough ≤ fuel → ∀ visited, Behind (Goes rules.dependencies) visited cur →
      cycleDetect rules fuel cur visited = some (false, none) := by
  -- The induction is on the target, with the claim for everything that it depends on.
  induction cur using (ReachesCycle.wellFounded_of_not (Goes rules.dependencies)).induction with
  | _ cur ih =>
    have below : ∀ neighbor ∈ rules.dependencies cur, ∃ enough, ∀ fuel, enough ≤ fuel →
        ∀ visited, Behind (Goes rules.dependencies) visited neighbor →
          cycleDetect rules fuel neighbor visited = some (false, none) := by
      intro neighbor member
      have step : Goes rules.dependencies cur neighbor := member
      exact ih neighbor ⟨free, .single step⟩ fun reaches => free (reaches.head step)
    obtain ⟨enough, all⟩ := exists_bound below
    refine ⟨enough + 1, fun fuel large visited behind => ?_⟩
    obtain ⟨fuel, rfl⟩ : ∃ rest, fuel = rest + 1 := ⟨fuel - 1, by omega⟩
    have loop := @detectLoop_append _ (rules.dependencies cur) [] (cycleDetect rules fuel)
      (some (cur :: visited.getD [])) fun neighbor member =>
        ⟨all neighbor member fuel (by omega) _ (behind.step member),
          all neighbor member fuel (by omega) _ .unset⟩
    rw [List.append_nil, detectLoop] at loop
    rw [cycleDetect, if_pos (behind.absent free), loop]

/-- Meeting a visited target is found at once. -/
theorem finds_met (met : cur ∈ visited.getD []) : Finds rules cur visited := by
  refine ⟨1, fun fuel positive => ?_⟩
  obtain ⟨fuel, rfl⟩ : ∃ rest, fuel = rest + 1 := ⟨fuel - 1, by omega⟩
  rw [cycleDetect, if_neg (not_not.mpr met)]

/-- A call finds what the first neighbor finds that can find anything. -/
theorem Finds.leads [Finite Target] (behind : Behind (Goes rules.dependencies) visited cur)
    (listed : rules.dependencies cur = front ++ next :: back)
    (free : ∀ other ∈ front, ¬ ReachesCycle (Goes rules.dependencies) other)
    (finds : Finds rules next (if front = [] then some (cur :: visited.getD []) else none)) :
    Finds rules cur visited := by
  by_cases met : cur ∈ visited.getD []
  · exact finds_met met
  obtain ⟨one, found⟩ := finds
  obtain ⟨two, quiet⟩ := exists_bound fun other member => cycleDetect_free (free other member)
  refine ⟨max one two + 1, fun fuel large => ?_⟩
  obtain ⟨fuel, rfl⟩ : ∃ rest, fuel = rest + 1 := ⟨fuel - 1, by omega⟩
  have loop := @detectLoop_append _ front (next :: back) (cycleDetect rules fuel)
    (some (cur :: visited.getD [])) fun other member => by
      have step : Goes rules.dependencies cur other := by
        rw [Goes, listed]
        exact List.mem_append_left _ member
      exact ⟨quiet other member fuel (by omega) _ (behind.step step),
        quiet other member fuel (by omega) _ .unset⟩
  rw [detectLoop, found fuel (by omega)] at loop
  rw [cycleDetect, if_pos met, listed, loop]

/-- On a cycle of first neighbors the set is never destroyed, so that the cycle is found. -/
theorem finds_of_first_cycle [Finite Target]
    (cycle : TransGen (GoesFirst rules.dependencies) cur cur)
    (behind : Behind (Goes rules.dependencies) visited cur) : Finds rules cur visited := by
  -- Every call adds a target to the set, so that the targets that are not in it become fewer.
  generalize left : Set.ncard {target | target ∉ visited.getD []} = count
  induction count using Nat.strong_induction_on generalizing cur visited with
  | _ count ih =>
    by_cases met : cur ∈ visited.getD []
    · exact finds_met met
    · obtain ⟨next, first, _⟩ := TransGen.head'_iff.mp cycle
      have step := first.goes
      have onward := first_cycle_next cycle first
      obtain ⟨back, listed⟩ := first
      -- The target at hand was not in the set, and is now.
      have fewer : {target | target ∉ (some (cur :: visited.getD [])).getD []} ⊂
          {target | target ∉ visited.getD []} := by
        constructor
        · exact fun target absent member => absent (List.mem_cons_of_mem _ member)
        · exact fun all => all met List.mem_cons_self
      have smaller := Set.ncard_lt_ncard fewer (Set.toFinite _)
      rw [left] at smaller
      have finds := ih _ smaller onward (behind.step step) rfl
      exact @Finds.leads _ _ _ _ [] back _ _ _ behind listed
        (fun _ member => absurd member List.not_mem_nil) finds

/-- A call that returns from where a cycle can be reached has come to a cycle of first neighbors. -/
theorem first_cycle_of_returned (behind : Behind (GoesFirst rules.dependencies) visited cur)
    (reaches : ReachesCycle (Goes rules.dependencies) cur)
    (returned : cycleDetect rules fuel cur visited = some outcome) :
    ∃ target, ReflTransGen (Leads rules.dependencies) cur target ∧
      TransGen (GoesFirst rules.dependencies) target target := by
  -- The set only ever holds targets that lead here by first neighbors.
  induction fuel generalizing cur visited outcome with
  | zero => cases returned
  | succ fuel ih =>
    by_cases met : cur ∈ visited.getD []
    · exact ⟨cur, .refl, behind cur met⟩
    · obtain ⟨next, leads⟩ := reaches.leads
      have leading := leads
      obtain ⟨front, back, listed, free, good⟩ := leads
      rw [cycleDetect, if_pos met, listed] at returned
      cases loop : detectLoop (cycleDetect rules fuel) (front ++ next :: back)
          (some (cur :: visited.getD [])) with
      | none =>
        rw [loop] at returned
        cases returned
      | some result =>
        -- The neighbors in front have returned without a flag.
        have later := detectLoop_returned (fun other member visited' outcome either called => by
          have step : Goes rules.dependencies cur other := by
            rw [Goes, listed]
            exact List.mem_append_left _ member
          have wide := behind.mono fun _ _ => GoesFirst.goes
          have placed : Behind (Goes rules.dependencies) visited' other := by
            rcases either with rfl | rfl
            · exact wide.step step
            · exact .unset
          have quiet : outcome.1 = false :=
            Bool.eq_false_iff.mpr fun flag => free other member (cycleDetect_sound placed called flag)
          exact Prod.ext quiet (cycleDetect_unvisited called)) loop
        rw [detectLoop] at later
        have placed : Behind (GoesFirst rules.dependencies)
            (if front = [] then some (cur :: visited.getD []) else none) next := by
          split
          · rename_i empty
            rw [empty] at listed
            exact behind.step ⟨back, listed⟩
          · exact .unset
        cases called : cycleDetect rules fuel next
            (if front = [] then some (cur :: visited.getD []) else none) with
        | none =>
          rw [called] at later
          cases later
        | some inner =>
          obtain ⟨target, way, cycle⟩ := ih placed good called
          exact ⟨target, .head leading way, cycle⟩

/-- Ahead of a cycle of first neighbors, on the way that the search takes, the cycle is found. -/
theorem finds_of_leads [Finite Target] {target : Target}
    (way : ReflTransGen (Leads rules.dependencies) cur target)
    (cycle : TransGen (GoesFirst rules.dependencies) target target)
    (behind : Behind (Goes rules.dependencies) visited cur) : Finds rules cur visited := by
  induction way using ReflTransGen.head_induction_on generalizing visited with
  | refl => exact finds_of_first_cycle cycle behind
  | @head cur next leads _ ih =>
    obtain ⟨front, back, listed, free, good⟩ := leads
    have step : Goes rules.dependencies cur next := by
      rw [Goes, listed]
      exact List.mem_append_right _ List.mem_cons_self
    apply Finds.leads behind listed free
    apply ih
    split
    · exact behind.step step
    · exact .unset

/--
On a finite rule graph, `cycle_detect` returns what it should exactly where no cycle can be
reached, or the way that goes on to the first neighbor that reaches a cycle comes to a cycle of
neighbors that are listed first.
-/
theorem decides_cycles_iff [Finite Target] (rules : Rules Target) (cur : Target) :
    DecidesCycles rules cur ↔ (ReachesCycle (Goes rules.dependencies) cur →
      ∃ target, ReflTransGen (Leads rules.dependencies) cur target ∧
        TransGen (GoesFirst rules.dependencies) target target) := by
  constructor
  · intro decides reaches
    obtain ⟨fuel, flag, returned, _⟩ := decides
    exact first_cycle_of_returned .unset reaches returned
  · intro comes
    by_cases reaches : ReachesCycle (Goes rules.dependencies) cur
    · obtain ⟨target, way, cycle⟩ := comes reaches
      obtain ⟨enough, found⟩ := @finds_of_leads _ _ _ _ none _ _ way cycle .unset
      exact ⟨enough, true, found enough (Nat.le_refl _), iff_of_true rfl reaches⟩
    · obtain ⟨enough, quiet⟩ := cycleDetect_free reaches
      exact ⟨enough, false, quiet enough (Nat.le_refl _) none .unset,
        iff_of_false Bool.false_ne_true reaches⟩

/-- Two rules that need each other. -/
def loopRules : Rules (Fin 2) where
  dependencies target := if target = 0 then [1] else [0]
  commands _ := []

/-- Their cycle is found. -/
theorem decides_cycles_sample : DecidesCycles loopRules 0 :=
  (decides_cycles_iff loopRules 0).mpr fun _ =>
    ⟨0, .refl, .tail (.single ⟨[], rfl⟩) ⟨[], rfl⟩⟩

/-- The first rule needs a file and a second rule, which needs the first one. -/
def crossRules : Rules (Fin 3) where
  dependencies target := if target = 0 then [1, 2] else if target = 2 then [0] else []
  commands _ := []

/-- There is a cycle, but the file in front of it destroys the set each time: the call never returns. -/
theorem cross_never_returns : ReachesCycle (Goes crossRules.dependencies) 0 ∧
    (∀ fuel, cycleDetect crossRules fuel 0 none = none) ∧ ¬ DecidesCycles crossRules 0 := by
  have there : Goes crossRules.dependencies 0 2 := List.mem_cons_of_mem _ List.mem_cons_self
  have back : Goes crossRules.dependencies 2 0 := List.mem_cons_self
  have reaches : ReachesCycle (Goes crossRules.dependencies) 0 := .of_cycle (.tail (.single there) back)
  -- The neighbors listed first lead from 2 to 0, and from there to 1, which has none.
  have none_first : Acyclic (GoesFirst crossRules.dependencies) := by
    apply Acyclic.of_rank fun target => if target = 1 then 0 else target.val + 1
    intro a b first
    obtain ⟨rest, listed⟩ := first
    simp only [crossRules] at listed
    split at listed
    · rename_i root
      rw [root, ← (List.cons.inj listed).1]
      decide
    · split at listed
      · rename_i second
        rw [second, ← (List.cons.inj listed).1]
        decide
      · cases listed
  have never : ∀ fuel, cycleDetect crossRules fuel 0 none = none := by
    intro fuel
    apply Option.eq_none_iff_forall_ne_some.mpr
    intro outcome returned
    obtain ⟨target, _, cycle⟩ := first_cycle_of_returned .unset reaches returned
    exact none_first target cycle
  refine ⟨reaches, never, fun decides => ?_⟩
  obtain ⟨fuel, flag, returned, _⟩ := decides
  rw [never fuel] at returned
  cases returned

end SystemProgramming.ParallelMake
