import Mathlib.Order.Basic

/-! Counting loops with a body that may fail, and the rules that carry an invariant through them. -/

namespace Foundations

variable {State : Type*} {body : Nat → State → Option State}

/-- The body for so many indices, from the first one upwards. -/
def countUp (body : Nat → State → Option State) : Nat → Nat → State → Option State
  | 0, _, st => some st
  | left + 1, i, st => (body i st).bind (countUp body left (i + 1))

/-- The body for so many indices, from the last one downwards. -/
def countDown (body : Nat → State → Option State) : Nat → Nat → State → Option State
  | 0, _, st => some st
  | left + 1, i, st => (body i st).bind (countDown body left (i - 1))

/-- `for (i = first; i < last; i++)`. -/
def forUp (body : Nat → State → Option State) (first last : Nat) (st : State) : Option State :=
  countUp body (last - first) first st

/-- `for (i = last; i > first; i--)`. -/
def forDown (body : Nat → State → Option State) (first last : Nat) (st : State) : Option State :=
  countDown body (last - first) last st

variable {first last : Nat} {st after : State}

/--
A loop upwards that ends does so with the invariant for the index behind the last one, where every
turn that ends brings it to the next index.
-/
theorem forUp_carries (Holds : Nat → State → Prop) (ordered : first ≤ last)
    (initial : Holds first st) (turns : ∀ i st next, first ≤ i → i < last → Holds i st →
      body i st = some next → Holds (i + 1) next)
    (done : forUp body first last st = some after) : Holds last after := by
  obtain ⟨left, rfl⟩ := Nat.exists_eq_add_of_le ordered
  rw [forUp, Nat.add_sub_cancel_left] at done
  clear ordered
  -- The induction is on the indices that are left; each turn moves the first one.
  induction left generalizing first st with
  | zero =>
    obtain rfl := Option.some.inj done
    exact initial
  | succ left ih =>
    obtain ⟨next, turned, rest⟩ := Option.bind_eq_some_iff.mp done
    have behind : first + 1 + left = first + (left + 1) := by omega
    have final := ih (turns first st next (Nat.le_refl _) (by omega) initial turned)
      (fun i st next lower upper => turns i st next (by omega) (by omega)) rest
    rwa [behind] at final

/-- The same for a loop downwards, where every turn brings the invariant to the index below. -/
theorem forDown_carries (Holds : Nat → State → Prop) (ordered : first ≤ last)
    (initial : Holds last st) (turns : ∀ i st next, first ≤ i → i + 1 ≤ last → Holds (i + 1) st →
      body (i + 1) st = some next → Holds i next)
    (done : forDown body first last st = some after) : Holds first after := by
  obtain ⟨left, rfl⟩ := Nat.exists_eq_add_of_le ordered
  rw [forDown, Nat.add_sub_cancel_left] at done
  clear ordered
  -- The induction is on the indices that are left; each turn takes the last one away.
  induction left generalizing st with
  | zero =>
    obtain rfl := Option.some.inj done
    exact initial
  | succ left ih =>
    obtain ⟨next, turned, rest⟩ := Option.bind_eq_some_iff.mp done
    exact ih (turns (first + left) st next (by omega) (by omega) initial turned)
      (fun i st next lower upper => turns i st next lower (by omega)) rest

/-- A loop whose range is empty does nothing. -/
theorem forUp_of_le (empty : last ≤ first) : forUp body first last st = some st := by
  rw [forUp, Nat.sub_eq_zero_of_le empty, countUp]

/-- Nor does a loop downwards. -/
theorem forDown_of_le (empty : last ≤ first) : forDown body first last st = some st := by
  rw [forDown, Nat.sub_eq_zero_of_le empty, countDown]

/-- What every turn keeps, a loop upwards keeps, if it ends. -/
theorem forUp_keeps (Holds : State → Prop) (initial : Holds st)
    (kept : ∀ i st next, Holds st → body i st = some next → Holds next)
    (done : forUp body first last st = some after) : Holds after := by
  rcases Nat.le_total first last with ordered | empty
  · exact forUp_carries (fun _ => Holds) ordered initial
      (fun i st next _ _ holds turned => kept i st next holds turned) done
  · rw [forUp_of_le empty] at done
    exact Option.some.inj done ▸ initial

/-- So does a loop downwards. -/
theorem forDown_keeps (Holds : State → Prop) (initial : Holds st)
    (kept : ∀ i st next, Holds st → body i st = some next → Holds next)
    (done : forDown body first last st = some after) : Holds after := by
  rcases Nat.le_total first last with ordered | empty
  · exact forDown_carries (fun _ => Holds) ordered initial
      (fun i st next _ _ holds turned => kept (i + 1) st next holds turned) done
  · rw [forDown_of_le empty] at done
    exact Option.some.inj done ▸ initial

/--
A loop upwards ends, with the invariant for the index behind the last one, where the body works for
every index and brings the invariant to the next.
-/
theorem forUp_rule (body : Nat → State → Option State) (st : State) (Holds : Nat → State → Prop)
    (ordered : first ≤ last) (initial : Holds first st)
    (works : ∀ i st, first ≤ i → i < last → Holds i st →
      ∃ next, body i st = some next ∧ Holds (i + 1) next) :
    ∃ after, forUp body first last st = some after ∧ Holds last after := by
  obtain ⟨left, rfl⟩ := Nat.exists_eq_add_of_le ordered
  rw [forUp, Nat.add_sub_cancel_left]
  clear ordered
  -- The induction is on the indices that are left; each turn moves the first one.
  induction left generalizing first st with
  | zero => exact ⟨st, rfl, initial⟩
  | succ left ih =>
    obtain ⟨next, done, holds⟩ := works first st (Nat.le_refl _) (by omega) initial
    have behind : first + 1 + left = first + (left + 1) := by omega
    obtain ⟨after, rest, final⟩ := ih next holds fun i st lower upper =>
      works i st (by omega) (by omega)
    rw [behind] at final
    exact ⟨after, by rw [countUp, done, Option.bind_some, rest], final⟩

/-- The same for a loop downwards, where the body brings the invariant to the index below. -/
theorem forDown_rule (body : Nat → State → Option State) (st : State) (Holds : Nat → State → Prop)
    (ordered : first ≤ last) (initial : Holds last st)
    (works : ∀ i st, first ≤ i → i + 1 ≤ last → Holds (i + 1) st →
      ∃ next, body (i + 1) st = some next ∧ Holds i next) :
    ∃ after, forDown body first last st = some after ∧ Holds first after := by
  obtain ⟨left, rfl⟩ := Nat.exists_eq_add_of_le ordered
  rw [forDown, Nat.add_sub_cancel_left]
  clear ordered
  -- The induction is on the indices that are left; each turn takes the last one away.
  induction left generalizing st with
  | zero => exact ⟨st, rfl, initial⟩
  | succ left ih =>
    obtain ⟨next, done, holds⟩ := works (first + left) st (by omega) (by omega) initial
    obtain ⟨after, rest, final⟩ := ih next holds fun i st lower upper =>
      works i st lower (by omega)
    refine ⟨after, ?_, final⟩
    have below : first + (left + 1) - 1 = first + left := by omega
    rw [countDown, below, ← Nat.add_assoc, done, Option.bind_some, rest]

end Foundations
