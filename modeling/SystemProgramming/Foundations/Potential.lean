import SystemProgramming.Foundations.Runs
import Mathlib.Algebra.BigOperators.Group.Finset.Basic
import Mathlib.Algebra.GroupWithZero.Nat
import Mathlib.Algebra.Order.BigOperators.Group.Finset

/-! Bounds on the length of runs from a potential, and potentials that add up over parties. -/

namespace Foundations

open Finset

/--
A potential that falls in every step, but for the price that is paid for the step, bounds the length
of a run by where it starts and by what was paid.
-/
theorem Run.length_le_paid {State Action : Type*} {step : State → Action → State → Prop}
    {origin final : State} {trace : List (Transition State Action)} {measure : State → Nat}
    {price : Action → Nat} (run : Run step origin trace final)
    (falls : ∀ before action after, step before action after →
      measure after + 1 ≤ measure before + price action) :
    measure final + trace.length ≤
      measure origin + (trace.map fun taken => price taken.action).sum := by
  induction run with
  | start => simp
  | @next trace before after action _ stepped ih =>
    have last := falls before action after stepped
    simp only [List.length_append, List.length_singleton, List.map_append, List.sum_append,
      List.map_cons, List.map_nil, List.sum_cons, List.sum_nil]
    omega

/-- What is paid for the members of one kind, at the same price for each. -/
theorem sum_price {Paid : Type*} (kind : Paid → Bool) (cost : Nat) (paid : List Paid) :
    (paid.map fun one => if kind one then cost else 0).sum = cost * paid.countP kind := by
  induction paid with
  | nil => rfl
  | cons one paid ih =>
    rw [List.map_cons, List.sum_cons, ih, List.countP_cons, Nat.mul_add, Nat.add_comm]
    split <;> simp

/--
A potential that falls in every step, but for the steps of a kind, which may raise it by a cost,
bounds the length of a run by where it starts and by how many of those steps there are.
-/
theorem Run.length_le {State Action : Type*} {step : State → Action → State → Prop}
    {origin final : State} {trace : List (Transition State Action)} {measure : State → Nat}
    {raises : Action → Bool} {cost : Nat} (run : Run step origin trace final)
    (falls : ∀ before action after, step before action after →
      measure after + 1 ≤ measure before + if raises action then cost else 0) :
    measure final + trace.length ≤
      measure origin + cost * trace.countP fun taken => raises taken.action := by
  rw [← sum_price]
  exact run.length_le_paid falls

variable {Party Place : Type*} [Fintype Party] [DecidableEq Party]

/-- The weights of the places of all parties, added up. -/
def total (weight : Place → Nat) (place : Party → Place) : Nat := ∑ party, weight (place party)

/-- When one party moves, its old weight goes and its new one comes. -/
theorem total_update (weight : Place → Nat) (place : Party → Place) (party : Party)
    (next : Place) : total weight (Function.update place party next) + weight (place party) =
      total weight place + weight next := by
  have others : ∑ other ∈ univ.erase party, weight (Function.update place party next other) =
      ∑ other ∈ univ.erase party, weight (place other) :=
    sum_congr rfl fun other member => by rw [Function.update_of_ne (ne_of_mem_erase member)]
  -- Both sums are split at the party that moves.
  have after := add_sum_erase univ (fun other => weight (Function.update place party next other))
    (mem_univ party)
  have before := add_sum_erase univ (fun other => weight (place other)) (mem_univ party)
  simp only [Function.update_self] at after
  unfold total
  omega

/-- A party that moves to a place of less weight, but for a price, takes from the sum. -/
theorem total_update_le {weight : Place → Nat} {place : Party → Place} {party : Party}
    {next : Place} {price : Nat} (less : weight next + 1 ≤ weight (place party) + price) :
    total weight (Function.update place party next) + 1 ≤ total weight place + price := by
  have moved := total_update weight place party next
  omega

omit [DecidableEq Party] in
/-- When every party moves at a bounded cost, the cost adds up. -/
theorem total_le {weight : Place → Nat} {place next : Party → Place} {cost : Nat}
    (bounded : ∀ party, weight (next party) ≤ weight (place party) + cost) :
    total weight next ≤ total weight place + Fintype.card Party * cost := by
  unfold total
  calc ∑ party, weight (next party)
      ≤ ∑ party, (weight (place party) + cost) := sum_le_sum fun party _ => bounded party
    _ = (∑ party, weight (place party)) + Fintype.card Party * cost := by
      rw [sum_add_distrib, sum_const, card_univ]
      rfl

end Foundations
