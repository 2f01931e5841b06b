import Mathlib.Algebra.BigOperators.Group.Finset.Basic

/-! Loops that repeat a system call until everything is moved, whatever the calls return. -/

namespace Foundations

open Finset

/--
What a call can return: zero, an error because of a signal, any other error, or how many bytes it
moved: one more than it says, but at most as many as it was asked for.
-/
inductive Answer
  | zero
  | interrupted
  | failed
  | moved (more : Nat)
  deriving DecidableEq

namespace Answer

/-- How many bytes are moved, if there are as many. -/
def size : Answer → Nat
  | .moved more => more + 1
  | _ => 0

/-- The call has found the end, or it has failed for another reason than a signal. -/
def Decisive (answer : Answer) : Prop := answer = .zero ∨ answer = .failed

end Answer

/-- What a loop makes of the answers that can decide it. -/
structure Policy where
  /-- What is returned for a zero, by the number of bytes that were moved before. -/
  onZero : Nat → Int
  /-- What is returned for an error; without that, the call is repeated. -/
  onError : Option Int

/-- What a loop has returned, and after how many calls. -/
structure Returned where
  result : Int
  calls : Nat

/-- The same after some calls more, which were made before. -/
def Returned.behind (calls : Nat) (returned : Returned) : Returned :=
  ⟨returned.result, calls + returned.calls⟩

@[simp] theorem Returned.behind_zero (returned : Returned) : returned.behind 0 = returned := by
  simp [Returned.behind]

@[simp] theorem Returned.behind_behind (returned : Returned) (first later : Nat) :
    (returned.behind later).behind first = returned.behind (later + first) := by
  -- The calls are only counted.
  simp only [Returned.behind, Returned.mk.injEq, true_and]
  omega

namespace Policy

/-- What one answer leads to: a result, or how many bytes are moved and how many remain. -/
def takes (policy : Policy) : Answer → Nat → Int → Int ⊕ Nat × Int
  | .zero, all, _ => .inl (policy.onZero all)
  | .interrupted, all, remain => .inr (all, remain)
  | .failed, all, remain =>
    match policy.onError with
    | some result => .inl result
    | none => .inr (all, remain)
  | .moved more, all, remain =>
    .inr (all + min (more + 1) remain.toNat, remain - min (more + 1) remain.toNat)

/--
The loop, where `all` bytes are moved and `remain` are left, for so many turns; it has no result if
it still runs after these.
-/
def run (policy : Policy) : Nat → (Nat → Answer) → Nat → Int → Option Returned
  | 0, _, _, _ => none
  | turns + 1, answers, all, remain =>
    if 0 < remain then
      match policy.takes (answers 0) all remain with
      | .inl result => some ⟨result, 1⟩
      | .inr (all, remain) =>
        (policy.run turns (fun n => answers (n + 1)) all remain).map (.behind 1)
    else some ⟨all, 0⟩

/-- The loop returns, after some number of turns. -/
def Returns (policy : Policy) (answers : Nat → Answer) (remain : Int) (returned : Returned) : Prop :=
  ∃ turns, policy.run turns answers 0 remain = some returned

/-- The loop has this result in the end. -/
def Gives (policy : Policy) (answers : Nat → Answer) (all : Nat) (remain result : Int) : Prop :=
  ∃ turns calls, policy.run turns answers all remain = some ⟨result, calls⟩

end Policy

/-- The first answer that can decide a loop, before everything is moved. -/
structure DecidedAt (answers : Nat → Answer) (remain : Int) (call : Nat) : Prop where
  decisive : (answers call).Decisive
  first : ∀ earlier, earlier < call → ¬ (answers earlier).Decisive
  before : ((∑ earlier ∈ range call, (answers earlier).size : Nat) : Int) < remain

variable {policy : Policy} {turns other call all : Nat} {answer : Answer} {answers : Nat → Answer}
  {remain : Int} {returned again : Returned}

/-- An answer that does not decide the loop moves as many bytes as it says, if they remain. -/
theorem takes_of_not_decisive (open_ended : ¬ answer.Decisive) (enough : answer.size ≤ remain) :
    policy.takes answer all remain = .inr (all + answer.size, remain - answer.size) := by
  -- Such an answer is an interruption or a piece.
  cases answer with
  | zero => exact absurd (.inl rfl) open_ended
  | interrupted => simp [Policy.takes, Answer.size]
  | failed => exact absurd (.inr rfl) open_ended
  | moved more =>
    have piece : min (more + 1) remain.toNat = more + 1 := by
      simp only [Answer.size] at enough
      omega
    rw [Policy.takes, piece]
    rfl

/-- One turn, when something remains. -/
theorem run_succ (more : 0 < remain) :
    policy.run (turns + 1) answers all remain =
      match policy.takes (answers 0) all remain with
      | .inl result => some ⟨result, 1⟩
      | .inr (all, remain) =>
        (policy.run turns (fun n => answers (n + 1)) all remain).map (.behind 1) :=
  if_pos more

/-- Up to the answer that decides it, a loop moves what the answers say. -/
theorem run_before (turns : Nat) (first : ∀ earlier, earlier < call → ¬ (answers earlier).Decisive)
    (before : ((∑ earlier ∈ range call, (answers earlier).size : Nat) : Int) < remain) :
    policy.run (turns + call) answers all remain =
      (policy.run turns (fun n => answers (n + call))
        (all + ∑ earlier ∈ range call, (answers earlier).size)
        (remain - (∑ earlier ∈ range call, (answers earlier).size : Nat))).map (.behind call) := by
  -- The first turn takes the first answer, and the others are the turns of the rest.
  induction call generalizing answers all remain with
  | zero =>
    have same : Returned.behind 0 = id := funext Returned.behind_zero
    simp [same]
  | succ call ih =>
    rw [sum_range_succ'] at before ⊢
    have open_ended := first 0 (Nat.succ_pos call)
    rw [← Nat.add_assoc, run_succ (by omega), takes_of_not_decisive open_ended (by omega)]
    have rest := @ih (all + (answers 0).size) (fun n => answers (n + 1))
      (remain - (answers 0).size) (fun earlier below => first (earlier + 1) (by omega)) (by omega)
    have calls : Returned.behind 1 ∘ Returned.behind call = Returned.behind (call + 1) :=
      funext fun returned => returned.behind_behind 1 call
    have moved : all + (answers 0).size + ∑ earlier ∈ range call, (answers (earlier + 1)).size =
        all + (∑ earlier ∈ range call, (answers (earlier + 1)).size + (answers 0).size) := by
      omega
    have left : remain - (answers 0).size -
          (∑ earlier ∈ range call, (answers (earlier + 1)).size : Nat) =
        remain - (∑ earlier ∈ range call, (answers (earlier + 1)).size + (answers 0).size : Nat) := by
      omega
    simp only [rest, Option.map_map, calls, moved, left, Nat.add_assoc]

/-- A loop that has returned would have done so with more turns. -/
theorem run_add (done : policy.run turns answers all remain = some returned) :
    policy.run (turns + other) answers all remain = some returned := by
  -- Each turn takes the first answer that is left.
  induction turns generalizing answers all remain returned with
  | zero => cases done
  | succ turns ih =>
    rw [Nat.add_right_comm]
    by_cases more : 0 < remain
    · rw [run_succ more] at done ⊢
      cases taken : policy.takes (answers 0) all remain with
      | inl result => rwa [taken] at done
      | inr state =>
        rw [taken] at done
        obtain ⟨later, rest, rfl⟩ := Option.map_eq_some_iff.mp done
        simp only [ih rest, Option.map_some]
    · rwa [Policy.run, if_neg more] at done ⊢

namespace Policy.Returns

/-- A loop returns once. -/
theorem unique (done : policy.Returns answers remain returned)
    (repeated : policy.Returns answers remain again) : returned = again := by
  obtain ⟨turns, done⟩ := done
  obtain ⟨other, repeated⟩ := repeated
  -- With the turns of both, it would return both.
  have longer := @run_add _ _ turns _ _ _ _ repeated
  rw [Nat.add_comm, run_add done] at longer
  exact Option.some.inj longer

/-- A loop that is decided by a zero returns what it makes of that, without another call. -/
theorem of_zero (decided : DecidedAt answers remain call) (zero : answers call = .zero) :
    policy.Returns answers remain
      ⟨policy.onZero (∑ earlier ∈ range call, (answers earlier).size), call + 1⟩ := by
  -- After the calls before it, something remains to be moved.
  have before := decided.before
  refine ⟨1 + call, ?_⟩
  rw [run_before 1 decided.first before, ← Nat.zero_add 1, run_succ (by omega), Nat.zero_add call,
    zero, Policy.takes, Nat.zero_add]
  rfl

/-- A loop that is decided by an error returns, unless it repeats the call. -/
theorem of_failed {result : Int} (decided : DecidedAt answers remain call)
    (failed : answers call = .failed) (reacts : policy.onError = some result) :
    policy.Returns answers remain ⟨result, call + 1⟩ := by
  have before := decided.before
  refine ⟨1 + call, ?_⟩
  rw [run_before 1 decided.first before, ← Nat.zero_add 1, run_succ (by omega), Nat.zero_add call,
    failed, Policy.takes, reacts]
  rfl

end Policy.Returns

namespace Policy.Gives

variable {result : Int} {moved : Nat} {left : Int}

/-- The loop ends when nothing remains. -/
theorem of_nothing (nothing : remain ≤ 0) : policy.Gives answers all remain all :=
  ⟨1, 0, if_neg (Int.not_lt.mpr nothing)⟩

/-- The loop ends with an answer that is a reason to return. -/
theorem of_returned (more : 0 < remain)
    (taken : policy.takes (answers 0) all remain = .inl result) :
    policy.Gives answers all remain result :=
  ⟨1, 1, by rw [← Nat.zero_add 1, run_succ more, taken]⟩

/-- Behind any other answer, the loop goes on with those to the later calls. -/
theorem of_continued (more : 0 < remain)
    (taken : policy.takes (answers 0) all remain = .inr (moved, left))
    (rest : policy.Gives (fun n => answers (n + 1)) moved left result) :
    policy.Gives answers all remain result := by
  obtain ⟨turns, calls, done⟩ := rest
  refine ⟨turns + 1, 1 + calls, ?_⟩
  rw [run_succ more, taken]
  simp only [done, Option.map_some, Returned.behind]

/-- Behind a piece, the loop goes on with what remains. -/
theorem of_moved {extra : Nat} (piece : Nat) (more : 0 < remain) (answered : answers 0 = .moved extra)
    (cut : min (extra + 1) remain.toNat = piece)
    (rest : policy.Gives (fun n => answers (n + 1)) (all + piece) (remain - piece) result) :
    policy.Gives answers all remain result :=
  of_continued more (by rw [answered, Policy.takes, cut]) rest

end Policy.Gives

/-- A loop that repeats calls that fail does not return while they do. -/
theorem run_failing (repeats : policy.onError = none) (more : 0 < remain)
    (failing : ∀ n, answers n = .failed) : policy.run turns answers all remain = none := by
  -- A turn changes nothing but the number of answers that are taken.
  induction turns generalizing answers with
  | zero => rfl
  | succ turns ih =>
    rw [run_succ more, failing, Policy.takes, repeats]
    simp only [ih fun n => failing (n + 1), Option.map_none]

/-- Nor does it return if they fail from some call on, before which something remained. -/
theorem not_returns (repeats : policy.onError = none) (decided : DecidedAt answers remain call)
    (failing : ∀ n, answers (n + call) = .failed) : ¬ policy.Returns answers remain returned := by
  have before := decided.before
  rintro ⟨turns, done⟩
  -- With as many turns more, it would return the same.
  have longer := @run_add _ _ call _ _ _ _ done
  rw [run_before turns decided.first before, run_failing repeats (by omega) failing] at longer
  cases longer

/-- A loop that repeats calls that fail returns no error. -/
theorem run_nonneg (repeats : policy.onError = none) (counts : ∀ all, 0 ≤ policy.onZero all)
    (done : policy.run turns answers all remain = some returned) : 0 ≤ returned.result := by
  induction turns generalizing answers all remain returned with
  | zero => cases done
  | succ turns ih =>
    by_cases more : 0 < remain
    · rw [run_succ more] at done
      cases taken : policy.takes (answers 0) all remain with
      | inl result =>
        rw [taken] at done
        obtain rfl := Option.some.inj done
        -- Of all answers, only a zero ends the loop.
        cases answer : answers 0 with
        | zero =>
          rw [answer, Policy.takes] at taken
          exact Sum.inl.inj taken ▸ counts all
        | failed =>
          rw [answer, Policy.takes, repeats] at taken
          cases taken
        | interrupted =>
          rw [answer, Policy.takes] at taken
          cases taken
        | moved more =>
          rw [answer, Policy.takes] at taken
          cases taken
      | inr state =>
        rw [taken] at done
        obtain ⟨later, rest, rfl⟩ := Option.map_eq_some_iff.mp done
        have nonneg : 0 ≤ later.result := ih rest
        exact nonneg
    · rw [Policy.run, if_neg more] at done
      obtain rfl := Option.some.inj done
      exact Int.natCast_nonneg all

end Foundations
