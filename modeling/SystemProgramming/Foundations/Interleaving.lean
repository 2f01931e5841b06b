import Mathlib.Data.List.Induction
import Mathlib.Data.List.Basic

/-! Lists that many parties write together, and what each of them has written. -/

namespace Foundations

variable {Party Value Label : Type*} [DecidableEq Party]

/-- What one party has written in a list that is written by many. -/
def writtenBy (party : Party) (entries : List (Party × Value)) : List Value :=
  (entries.filter fun entry => entry.1 = party).map Prod.snd

variable {party other : Party} {entries later : List (Party × Value)} {value : Value}

@[simp] theorem writtenBy_nil : writtenBy party ([] : List (Party × Value)) = [] := rfl

/-- What a party has written in two lists, one after the other. -/
theorem writtenBy_append :
    writtenBy party (entries ++ later) = writtenBy party entries ++ writtenBy party later := by
  simp [writtenBy]

/-- A single entry is that of its party only. -/
theorem writtenBy_single :
    writtenBy party [(other, value)] = if other = party then [value] else [] := by
  by_cases same : other = party <;> simp [writtenBy, same]

/-- Entries of one party are its own only. -/
theorem writtenBy_labelled (values : List Value) :
    writtenBy party (values.map fun value => (other, value)) =
      if other = party then values else [] := by
  induction values with
  | nil => simp
  | cons value rest ih =>
    rw [List.map_cons, ← List.singleton_append, writtenBy_append, writtenBy_single, ih]
    split <;> rfl

/-- Where all values are shown in another way, so are those of a party. -/
theorem writtenBy_map (label : Value → Label) :
    writtenBy party (entries.map (Prod.map id label)) = (writtenBy party entries).map label := by
  induction entries with
  | nil => rfl
  | cons entry rest ih =>
    obtain ⟨writer, value⟩ := entry
    by_cases same : writer = party
    · simpa [writtenBy, same] using ih
    · simpa [writtenBy, same] using ih

/--
Where each party writes what it has for its own list, in the order of that list, the entries of the
common list can be told apart as those of the own lists are.
-/
theorem exists_labelled {label : Value → Label} {source : Party → List Value}
    (shown : List (Party × Label))
    (follows : ∀ party, writtenBy party shown <+: (source party).map label) :
    ∃ entries : List (Party × Value), entries.map (Prod.map id label) = shown ∧
      ∀ party, writtenBy party entries <+: source party := by
  -- From the back, the newest entry is the next one in the list of its party.
  induction shown using List.reverseRecOn with
  | nil => exact ⟨[], rfl, fun _ => List.nil_prefix⟩
  | append_singleton shown last ih =>
    obtain ⟨writer, text⟩ := last
    obtain ⟨entries, labelled, orderly⟩ := ih fun party => by
      refine List.IsPrefix.trans ?_ (follows party)
      rw [writtenBy_append]
      exact List.prefix_append _ _
    obtain ⟨rest, whole⟩ := orderly writer
    -- What the party has left begins with a value that is shown so.
    have next : [text] <+: rest.map label := by
      have here := follows writer
      rw [writtenBy_append, writtenBy_single, if_pos rfl, ← whole, List.map_append,
        ← writtenBy_map, labelled, List.prefix_append_right_inj] at here
      exact here
    obtain _ | ⟨value, left⟩ := rest
    · simp at next
    · simp only [List.map_cons, List.cons_prefix_cons] at next
      refine ⟨entries ++ [(writer, value)], ?_, fun party => ?_⟩
      · rw [List.map_append, labelled, next.1]
        rfl
      · rw [writtenBy_append, writtenBy_single]
        by_cases same : writer = party
        · subst same
          rw [if_pos rfl, ← whole, List.prefix_append_right_inj]
          simp
        · rw [if_neg same, List.append_nil]
          exact orderly party

end Foundations
