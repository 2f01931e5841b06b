import Mathlib.Data.Finset.Card
import SystemProgramming.Foundations.Cycles

/-! Loops whose turns may end them, the rule for their invariants, and when they end at all. -/

namespace Foundations

open Relation

/-- After a turn, a loop goes on with a state, or it ends with a result. -/
inductive Turn (State Result : Type*) where
  | goesOn (st : State)
  | ends (result : Result)
  deriving DecidableEq, Repr

variable {State Result : Type*}

/-- A loop; undefined where one of its turns is, or where it needs more turns. -/
def loop (turn : State → Option (Turn State Result)) : Nat → State → Option Result
  | 0, _ => none
  | turns + 1, st =>
    match turn st with
    | some (.goesOn next) => loop turn turns next
    | some (.ends result) => some result
    | none => none

/-- One turn of `while (condition) body`. -/
def whileTurn (condition : State → Option Bool) (body : State → Option State) (st : State) :
    Option (Turn State State) :=
  (condition st).bind fun holds => if holds then (body st).map .goesOn else some (.ends st)

/-- `while (condition) body`. -/
def whileLoop (condition : State → Option Bool) (body : State → Option State) (turns : Nat)
    (st : State) : Option State :=
  loop (whileTurn condition body) turns st

variable {turn : State → Option (Turn State Result)} {st next : State} {result : Result}
  {turns more : Nat}

theorem loop_goesOn (goes : turn st = some (.goesOn next)) :
    loop turn (turns + 1) st = loop turn turns next := by
  rw [loop, goes]

theorem loop_ends (stops : turn st = some (.ends result)) :
    loop turn (turns + 1) st = some result := by
  rw [loop, stops]

theorem loop_undefined (undefined : turn st = none) : loop turn turns st = none := by
  cases turns with
  | zero => rfl
  | succ turns => rw [loop, undefined]

/-- A loop that is done has made a turn, which has ended it or led to where it is done from. -/
theorem loop_cases (done : loop turn (turns + 1) st = some result) :
    turn st = some (.ends result) ∨
      ∃ next, turn st = some (.goesOn next) ∧ loop turn turns next = some result := by
  cases taken : turn st with
  | none =>
    rw [loop_undefined taken] at done
    cases done
  | some way =>
    cases way with
    | goesOn next =>
      rw [loop_goesOn taken] at done
      exact .inr ⟨next, rfl, done⟩
    | ends found =>
      rw [loop_ends taken] at done
      obtain rfl := Option.some.inj done
      exact .inl rfl

/-- With more turns a loop ends as it did. -/
theorem loop_mono (done : loop turn turns st = some result) (enough : turns ≤ more) :
    loop turn more st = some result := by
  -- The induction is on the turns that were made.
  induction turns generalizing st more with
  | zero => cases done
  | succ turns ih =>
    obtain ⟨more, rfl⟩ := Nat.exists_eq_add_of_le' (Nat.le_trans (Nat.le_add_left 1 turns) enough)
    rcases loop_cases done with stops | ⟨next, goes, later⟩
    · exact loop_ends stops
    · rw [loop_goesOn goes]
      exact ih later (Nat.le_of_succ_le_succ enough)

section Invariants

/--
A loop ends, and with what is wanted, where every turn from the invariant ends it so, or keeps the
invariant and takes something from a number that the turns exceed at the start.
-/
theorem loop_rule (Holds : State → Prop) (Wanted : Result → Prop) (measure : State → Nat)
    (initial : Holds st) (enough : measure st < turns)
    (works : ∀ st, Holds st →
      (∃ result, turn st = some (.ends result) ∧ Wanted result) ∨
        ∃ next, turn st = some (.goesOn next) ∧ Holds next ∧ measure next < measure st) :
    ∃ result, loop turn turns st = some result ∧ Wanted result := by
  -- The induction is on the turns that may still be made.
  induction turns generalizing st with
  | zero => cases enough
  | succ turns ih =>
    rcases works st initial with ⟨result, stops, wanted⟩ | ⟨next, goes, holds, less⟩
    · exact ⟨result, loop_ends stops, wanted⟩
    · rw [loop_goesOn goes]
      exact ih holds (by omega)

variable {condition : State → Option Bool} {body : State → Option State}

/-- A turn of a `while` loop goes on where its condition holds, and ends elsewhere. -/
theorem whileTurn_goesOn : whileTurn condition body st = some (.goesOn next) ↔
    condition st = some true ∧ body st = some next := by
  rw [whileTurn]
  cases condition st with
  | none => simp
  | some holds => cases holds <;> simp

theorem whileTurn_ends {after : State} : whileTurn condition body st = some (.ends after) ↔
    condition st = some false ∧ st = after := by
  rw [whileTurn]
  cases condition st with
  | none => simp
  | some holds => cases holds <;> simp

/-- A `while` loop ends with its invariant, and without its condition. -/
theorem whileLoop_rule (Holds : State → Prop) (measure : State → Nat) (initial : Holds st)
    (enough : measure st < turns)
    (works : ∀ st, Holds st → condition st = some false ∨
      condition st = some true ∧
        ∃ next, body st = some next ∧ Holds next ∧ measure next < measure st) :
    ∃ after, whileLoop condition body turns st = some after ∧ Holds after ∧
      condition after = some false := by
  refine loop_rule Holds _ measure initial enough fun st holds => ?_
  rcases works st holds with leaves | ⟨stays, next, done, kept, less⟩
  · exact .inl ⟨st, whileTurn_ends.mpr ⟨leaves, rfl⟩, holds, leaves⟩
  · exact .inr ⟨next, whileTurn_goesOn.mpr ⟨stays, done⟩, kept, less⟩

/-- Whatever the turns keep holds where a `while` loop ends, if it does. -/
theorem whileLoop_keeps {after : State} (Holds : State → Prop) (initial : Holds st)
    (kept : ∀ st next, Holds st → condition st = some true → body st = some next → Holds next)
    (done : whileLoop condition body turns st = some after) :
    Holds after ∧ condition after = some false := by
  -- The induction is on the turns that were made.
  induction turns generalizing st with
  | zero => cases done
  | succ turns ih =>
    rcases loop_cases done with stops | ⟨next, goes, later⟩
    · obtain ⟨leaves, rfl⟩ := whileTurn_ends.mp stops
      exact ⟨initial, leaves⟩
    · obtain ⟨stays, turned⟩ := whileTurn_goesOn.mp goes
      exact ih (kept st next initial stays turned) later

end Invariants

section Ending

/-- A turn leads from one state to another. -/
def GoesOn (turn : State → Option (Turn State Result)) (st next : State) : Prop :=
  turn st = some (.goesOn next)

/-- A turn leads to one state only. -/
theorem GoesOn.unique {other : State} (leads : GoesOn turn st next) (leads' : GoesOn turn st other) :
    other = next := by
  have same := leads'.symm.trans leads
  simpa using same

/-- A loop that ends has come to no undefined turn, and to no state twice. -/
theorem defined_of_loop (done : loop turn turns st = some result) :
    (∀ reached, ReflTransGen (GoesOn turn) st reached → (turn reached).isSome) ∧
      ¬ ReachesCycle (GoesOn turn) st := by
  induction turns generalizing st with
  | zero => cases done
  | succ turns ih =>
    rcases loop_cases done with stops | ⟨next, goes, later⟩
    · -- Nothing comes behind a turn that ends the loop.
      have alone (other : State) : ¬ GoesOn turn st other := by
        intro leads
        have same := stops.symm.trans leads
        simp at same
      constructor
      · intro reached way
        rcases ReflTransGen.cases_head way with rfl | ⟨other, leads, _⟩
        · rw [stops, Option.isSome_some]
        · exact absurd leads (alone other)
      · intro reaches
        obtain ⟨other, leads, _⟩ := reaches.next
        exact alone other leads
    · obtain ⟨defined, acyclic⟩ := ih later
      -- The way from here goes over the one state that comes next.
      constructor
      · intro reached way
        rcases ReflTransGen.cases_head way with rfl | ⟨other, leads, rest⟩
        · rw [goes, Option.isSome_some]
        · obtain rfl := GoesOn.unique goes leads
          exact defined reached rest
      · intro reaches
        obtain ⟨other, leads, cyclic⟩ := reaches.next
        obtain rfl := GoesOn.unique goes leads
        exact acyclic cyclic

/-- A loop that comes to finitely many states, and to none twice, ends after as many turns. -/
theorem loop_isSome (states : Finset State)
    (defined : ∀ reached, ReflTransGen (GoesOn turn) st reached →
      reached ∈ states ∧ (turn reached).isSome)
    (acyclic : ¬ ReachesCycle (GoesOn turn) st) : (loop turn states.card st).isSome := by
  classical
  -- The induction is on the number of states; the one where the loop is does not come again.
  induction size : states.card generalizing st states with
  | zero =>
    have member := (defined st .refl).1
    rw [Finset.card_eq_zero.mp size] at member
    simp at member
  | succ count ih =>
    obtain ⟨member, here⟩ := defined st .refl
    obtain ⟨way, taken⟩ := Option.isSome_iff_exists.mp here
    cases way with
    | ends result =>
      rw [loop_ends taken]
      rfl
    | goesOn next =>
      rw [loop_goesOn taken]
      have leads : GoesOn turn st next := taken
      refine ih (states.erase st) ?_ ?_ ?_
      · intro reached way
        obtain ⟨inside, known⟩ := defined reached (.head leads way)
        refine ⟨Finset.mem_erase.mpr ⟨?_, inside⟩, known⟩
        rintro rfl
        exact acyclic (.of_cycle (.head' leads way))
      · exact fun cyclic => acyclic (cyclic.head leads)
      · rw [Finset.card_erase_of_mem member, size, Nat.add_sub_cancel]

section Finite

variable (states : Finset State) (finite : ∀ st, (turn st).isSome → st ∈ states)

include finite

/--
A loop all of whose defined turns are at finitely many states ends exactly if it comes to no
undefined turn and to no state twice.
-/
theorem exists_loop_iff : (∃ turns result, loop turn turns st = some result) ↔
    (∀ reached, ReflTransGen (GoesOn turn) st reached → (turn reached).isSome) ∧
      ¬ ReachesCycle (GoesOn turn) st := by
  constructor
  · rintro ⟨turns, result, done⟩
    exact defined_of_loop done
  · rintro ⟨defined, acyclic⟩
    have ends := loop_isSome states
      (fun reached way => ⟨finite reached (defined reached way), defined reached way⟩) acyclic
    exact ⟨states.card, Option.isSome_iff_exists.mp ends⟩

/-- If it ends at all, then it does within as many turns as there are states. -/
theorem loop_of_card_le (done : loop turn turns st = some result) (enough : states.card ≤ more) :
    loop turn more st = some result := by
  obtain ⟨defined, acyclic⟩ := defined_of_loop done
  have bounded := loop_isSome states
    (fun reached way => ⟨finite reached (defined reached way), defined reached way⟩) acyclic
  obtain ⟨found, ends⟩ := Option.isSome_iff_exists.mp bounded
  -- Both results are those of a loop with enough turns for either.
  have first := loop_mono ends (Nat.le_max_left _ turns)
  have second := loop_mono done (Nat.le_max_right states.card _)
  obtain rfl := Option.some.inj (first.symm.trans second)
  exact loop_mono ends enough

end Finite

end Ending

end Foundations
