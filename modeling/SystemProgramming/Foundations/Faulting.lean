import Mathlib.Tactic.Common

/-! Programs over a state that stop at an access they are not allowed. -/

namespace Foundations

/-- Why a program stops: at an address that it may not touch, or because its fuel is used up. -/
inductive Stop
  | fault (address : Nat)
  | fuel
  deriving DecidableEq, Repr

/-- A program that reads and writes a state, or stops. -/
abbrev Faulting (σ : Type) := StateT σ (Except Stop)

namespace Faulting

variable {σ α β : Type} {program other : Faulting σ α} {next : α → Faulting σ β} {s s' : σ} {a : α}
  {stop : Stop} {address : Nat}

/-- Going on only where an access is allowed. -/
def check (address : Nat) (allowed : Bool) : Faulting σ Unit := fun s =>
  if allowed then .ok ((), s) else .error (.fault address)

@[simp] theorem run_check_true : (check address true : Faulting σ Unit).run s = .ok ((), s) := rfl

@[simp] theorem run_check_false :
    (check address false : Faulting σ Unit).run s = .error (.fault address) := rfl

@[simp] theorem run_pure : (pure a : Faulting σ α).run s = .ok (a, s) := rfl

@[simp] theorem run_state : (StateT.get : Faulting σ σ).run s = .ok (s, s) := rfl

@[simp] theorem run_modify {update : σ → σ} :
    (modify update : Faulting σ Unit).run s = .ok ((), update s) := rfl

@[simp] theorem run_modifyGet {update : σ → α × σ} :
    (modifyGet update : Faulting σ α).run s = .ok (update s) := rfl

/-- What comes behind a program runs only if it returns. -/
@[simp] theorem run_bind : (program >>= next).run s =
    match program.run s with
    | .ok (a, s') => (next a).run s'
    | .error stop => .error stop := by
  simp only [StateT.run_bind]
  cases program.run s <;> rfl

/-- What comes behind a program that returns runs on what it returned. -/
theorem run_bind_ok (returns : program.run s = .ok (a, s')) :
    (program >>= next).run s = (next a).run s' := by
  rw [run_bind, returns]

/-- Nothing comes behind a program that stops. -/
theorem run_bind_error (stops : program.run s = .error stop) :
    (program >>= next).run s = .error stop := by
  rw [run_bind, stops]

@[simp] theorem run_ite {condition : Prop} [Decidable condition] :
    (if condition then program else other).run s =
      if condition then program.run s else other.run s := by
  split <;> rfl

/-- What a program does when it returns, the other one does from every related state. -/
def Simulates (related : σ → σ → Prop) (program other : Faulting σ α) : Prop :=
  ∀ s t, related s t → ∀ a s', program.run s = .ok (a, s') →
    ∃ t', other.run t = .ok (a, t') ∧ related s' t'

namespace Simulates

variable {related : σ → σ → Prop} {onward : α → Faulting σ β} {condition : Prop}
  [Decidable condition] {first second : Faulting σ α}

theorem pure (a : α) : Simulates related (pure a) (pure a) := by
  intro s t related a s' returns
  obtain ⟨rfl, rfl⟩ := Prod.mk.inj (Except.ok.inj returns)
  exact ⟨t, rfl, related⟩

/-- Two programs in a row are simulated one after the other. -/
theorem bind (head : Simulates related program other)
    (tail : ∀ a, Simulates related (next a) (onward a)) :
    Simulates related (program >>= next) (other >>= onward) := by
  intro s t holds b s' returns
  rw [run_bind] at returns
  cases ran : program.run s with
  | error stop =>
    rw [ran] at returns
    cases returns
  | ok outcome =>
    rw [ran] at returns
    obtain ⟨t', follows, again⟩ := head s t holds outcome.1 outcome.2 ran
    rw [run_bind_ok follows]
    exact tail outcome.1 outcome.2 t' again b s' returns

/-- What comes behind a look at the state may depend on it as far as the relation carries. -/
theorem state {view other : σ → Faulting σ β}
    (tail : ∀ s t, related s t → Simulates related (view s) (other t)) :
    Simulates related (StateT.get >>= view) (StateT.get >>= other) := by
  intro s t holds b s' returns
  rw [run_bind_ok run_state] at returns ⊢
  exact tail s t holds s t holds b s' returns

/-- A test that reads no state is decided in the same way. -/
theorem ite (yes : Simulates related program other) (no : Simulates related first second) :
    Simulates related (if condition then program else first)
      (if condition then other else second) := by
  split
  · exact yes
  · exact no

end Simulates

end Faulting

end Foundations
