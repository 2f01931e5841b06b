import Mathlib.Data.List.Nodup
import Mathlib.Logic.Function.Basic

/-! Handing out work: every item is waiting, held by one worker, or settled, and moves forward. -/

namespace Foundations

/-- Which items are waiting, which worker holds which item, and which items are settled. -/
structure Ledger (Item Worker : Type*) where
  waiting : List Item
  held : Worker → Option Item
  settled : Item → Prop

variable {Item Worker : Type*} {items : List Item}
  {item other : Item} {worker another : Worker} {ledger after : Ledger Item Worker}

namespace Ledger

/-- An item moves from the list to a worker, and from the worker to the settled ones. -/
inductive Move [DecidableEq Item] [DecidableEq Worker] : Ledger Item Worker → Ledger Item Worker → Prop
  | keep {ledger : Ledger Item Worker} : Move ledger ledger
  | take {ledger : Ledger Item Worker} {worker : Worker} {item : Item} :
      ledger.held worker = none → item ∈ ledger.waiting →
      Move ledger
        { ledger with
          waiting := ledger.waiting.erase item
          held := Function.update ledger.held worker (some item) }
  | settle {ledger : Ledger Item Worker} {worker : Worker} {item : Item} :
      ledger.held worker = some item →
      Move ledger
        { ledger with
          held := Function.update ledger.held worker none
          settled := fun other => other = item ∨ ledger.settled other }

/-- Every item is in exactly one of the three places, and at most one worker holds it. -/
structure Sound (items : List Item) (ledger : Ledger Item Worker) : Prop where
  nodup : ledger.waiting.Nodup
  placed : ∀ item, item ∈ items ↔
    item ∈ ledger.waiting ∨ (∃ worker, ledger.held worker = some item) ∨ ledger.settled item
  waiting_free : ∀ item worker, item ∈ ledger.waiting → ledger.held worker ≠ some item
  waiting_open : ∀ item, item ∈ ledger.waiting → ¬ ledger.settled item
  held_open : ∀ item worker, ledger.held worker = some item → ¬ ledger.settled item
  once : ∀ item worker another, ledger.held worker = some item → ledger.held another = some item →
    worker = another

namespace Sound

/-- At the start, all items are waiting. -/
theorem start (nodup : items.Nodup) :
    Sound items (⟨items, fun _ => none, fun _ => False⟩ : Ledger Item Worker) where
  -- No worker holds anything and nothing is settled, so all clauses but the first are empty.
  nodup := nodup
  placed item := by simp
  waiting_free _ _ _ := nofun
  waiting_open _ _ := not_false
  held_open _ _ := nofun
  once _ _ _ := nofun

/-- An item that a worker takes from the list is in no other place. -/
theorem take [DecidableEq Item] [DecidableEq Worker] (sound : Sound items ledger)
    (free : ledger.held worker = none) (member : item ∈ ledger.waiting) :
    Sound items
      { ledger with
        waiting := ledger.waiting.erase item
        held := Function.update ledger.held worker (some item) } := by
  -- The item leaves the list, in which it occurred once.
  have gone : item ∉ ledger.waiting.erase item := sound.nodup.not_mem_erase
  have kept {other : Item} (different : other ≠ item) :
      other ∈ ledger.waiting.erase item ↔ other ∈ ledger.waiting :=
    List.mem_erase_of_ne different
  refine ⟨sound.nodup.erase item, fun other => ?_, fun other another waits => ?_,
    fun other waits => ?_, fun other another holds => ?_, fun other first second one two => ?_⟩
  · rw [sound.placed]
    -- The item is now with the worker; every other item is where it was.
    by_cases same : other = item
    · subst same
      exact ⟨fun _ => .inr (.inl ⟨worker, Function.update_self _ _ _⟩), fun _ => .inl member⟩
    · refine or_congr (kept same).symm (or_congr_left (exists_congr fun another => ?_))
      by_cases own : another = worker
      · subst own
        simp [free, Ne.symm same]
      · simp only [Function.update_of_ne own]
  · -- What still waits is another item, so no worker got it.
    have different : other ≠ item := fun same => gone (same ▸ waits)
    simp only [Function.update_apply]
    split
    · simpa using Ne.symm different
    · exact sound.waiting_free other another ((kept different).mp waits)
  · exact sound.waiting_open other (List.mem_of_mem_erase waits)
  · simp only [Function.update_apply] at holds
    split at holds
    · rw [← Option.some.inj holds]
      exact sound.waiting_open item member
    · exact sound.held_open other another holds
  · simp only [Function.update_apply] at one two
    split at one
    · -- Two workers with one item are one worker, or one took an item that no longer waits.
      rename_i first_own
      split at two
      · rename_i second_own
        rw [first_own, second_own]
      · exact absurd (Option.some.inj one ▸ two) (sound.waiting_free item second member)
    · split at two
      · exact absurd (Option.some.inj two ▸ one) (sound.waiting_free item first member)
      · exact sound.once other first second one two

/-- An item that a worker settles is in no other place. -/
theorem settle [DecidableEq Worker] (sound : Sound items ledger)
    (holds : ledger.held worker = some item) :
    Sound items
      { ledger with
        held := Function.update ledger.held worker none
        settled := fun other => other = item ∨ ledger.settled other } := by
  -- The worker lets go of the one item that it held.
  have others {other : Item} {another : Worker}
      (held : Function.update ledger.held worker none another = some other) :
      ledger.held another = some other ∧ other ≠ item := by
    rw [Function.update_apply] at held
    split at held
    · cases held
    · rename_i different
      refine ⟨held, ?_⟩
      intro same
      subst same
      exact different (sound.once other another worker held holds)
  refine ⟨sound.nodup, fun other => ?_, fun other another waits held => ?_,
    fun other waits => ?_, fun other another held => ?_, fun other first second one two => ?_⟩
  · rw [sound.placed]
    -- The item is now settled; every other item is where it was.
    by_cases same : other = item
    · subst same
      exact ⟨fun _ => .inr (.inr (.inl rfl)), fun _ => .inr (.inl ⟨worker, holds⟩)⟩
    · constructor
      · rintro (waits | ⟨another, held⟩ | done)
        · exact .inl waits
        · have apart : another ≠ worker := by
            intro same
            subst same
            exact same (Option.some.inj (held.symm.trans holds))
          exact .inr (.inl ⟨another, (Function.update_of_ne apart _ _).trans held⟩)
        · exact .inr (.inr (.inr done))
      · rintro (waits | ⟨another, held⟩ | equal | done)
        · exact .inl waits
        · exact .inr (.inl ⟨another, (others held).1⟩)
        · exact absurd equal same
        · exact .inr (.inr done)
  · exact sound.waiting_free other another waits (others held).1
  · rintro (rfl | done)
    · exact sound.waiting_free other worker waits holds
    · exact sound.waiting_open other waits done
  · rintro (equal | done)
    · exact (others held).2 equal
    · exact sound.held_open other another (others held).1 done
  · exact sound.once other first second (others one).1 (others two).1

/-- Moving an item forward keeps every item in exactly one place. -/
theorem move [DecidableEq Item] [DecidableEq Worker] (sound : Sound items ledger)
    (moved : Move ledger after) : Sound items after := by
  cases moved with
  | keep => exact sound
  | take free member => exact sound.take free member
  | settle holds => exact sound.settle holds

end Sound

end Ledger

end Foundations
