import Mathlib.Data.List.Basic

/-! The lives of objects: a history of what is created, read and ended, and when it is sound. -/

namespace Foundations.Lifetimes

/-- What happens to an object; what is ended may be no object at all. -/
inductive Event (Object : Type*) where
  | creates (object : Object)
  | reads (object : Object)
  | ends (target : Option Object)
  deriving DecidableEq, Repr

variable {Object : Type*} {history new rest : List (Event Object)} {event : Event Object}
  {object : Object}

/-- The object was created. -/
def Created (history : List (Event Object)) (object : Object) : Prop :=
  Event.creates object ∈ history

/-- The object was ended. -/
def Ended (history : List (Event Object)) (object : Object) : Prop :=
  Event.ends (some object) ∈ history

/-- The object was created and not ended. -/
def Alive (history : List (Event Object)) (object : Object) : Prop :=
  Created history object ∧ ¬ Ended history object

/-- Only what is alive is ended, and nothing that was ended is read. -/
def Permits (history : List (Event Object)) : Event Object → Prop
  | .creates _ => True
  | .reads object => ¬ Ended history object
  | .ends target => ∃ object, target = some object ∧ Alive history object

/-- Every event was permitted when it happened. -/
def Sound (history : List (Event Object)) : Prop :=
  ∀ earlier event later, history = earlier ++ event :: later → Permits earlier event

/-- Every further event is permitted when it happens. -/
def SoundAfter (history : List (Event Object)) : List (Event Object) → Prop
  | [] => True
  | event :: rest => Permits history event ∧ SoundAfter (history ++ [event]) rest

section Append

@[simp] theorem created_append_iff :
    Created (history ++ new) object ↔ Created history object ∨ Created new object := by
  simp [Created]

@[simp] theorem soundAfter_nil : SoundAfter history [] := trivial

@[simp] theorem soundAfter_cons_iff : SoundAfter history (event :: rest) ↔
    Permits history event ∧ SoundAfter (history ++ [event]) rest := Iff.rfl

/-- Events in two parts are sound if the first part is, and the second is after it. -/
theorem soundAfter_append_iff : SoundAfter history (new ++ rest) ↔
    SoundAfter history new ∧ SoundAfter (history ++ new) rest := by
  induction new generalizing history with
  | nil => simp
  | cons event new ih => simp [ih, and_assoc]

/-- In no events, all are permitted. -/
theorem sound_nil : Sound ([] : List (Event Object)) := by
  intro earlier event later whole
  simp at whole

/-- One more event keeps a history sound exactly if it is permitted. -/
theorem sound_snoc_iff : Sound (history ++ [event]) ↔ Sound history ∧ Permits history event := by
  constructor
  · intro sound
    refine ⟨fun earlier other later whole => ?_, sound history event [] rfl⟩
    refine sound earlier other (later ++ [event]) ?_
    rw [whole, List.append_assoc, List.cons_append]
  · intro ⟨sound, permitted⟩ earlier other later whole
    -- An event of the longer history is its last one or lies in the old history.
    rcases List.eq_nil_or_concat later with rfl | ⟨front, last, rfl⟩
    · obtain ⟨rfl, same⟩ := List.append_inj' whole rfl
      rw [← List.singleton_inj.mp same]
      exact permitted
    · rw [List.concat_eq_append, ← List.cons_append, ← List.append_assoc] at whole
      exact sound earlier other front (List.append_inj' whole rfl).1

/-- A longer history is sound if the old one is and the new events are after it. -/
theorem sound_append_iff : Sound (history ++ new) ↔ Sound history ∧ SoundAfter history new := by
  induction new generalizing history with
  | nil => simp
  | cons event new ih =>
    rw [← List.singleton_append, ← List.append_assoc, ih, sound_snoc_iff, and_assoc]
    rfl

end Append

section Reads

/-- Nothing of the further events reads what was ended before. -/
def ReadsAfter (history : List (Event Object)) : List (Event Object) → Prop
  | [] => True
  | event :: rest =>
    (∀ object, event = .reads object → ¬ Ended history object) ∧
      ReadsAfter (history ++ [event]) rest

@[simp] theorem readsAfter_nil : ReadsAfter history [] := trivial

@[simp] theorem readsAfter_cons_iff : ReadsAfter history (event :: rest) ↔
    (∀ object, event = .reads object → ¬ Ended history object) ∧
      ReadsAfter (history ++ [event]) rest := Iff.rfl

/-- Events in two parts read nothing that was ended if neither of the parts does. -/
theorem readsAfter_append_iff : ReadsAfter history (new ++ rest) ↔
    ReadsAfter history new ∧ ReadsAfter (history ++ new) rest := by
  -- The first events come one by one to the history.
  induction new generalizing history with
  | nil => simp
  | cons event new ih => simp [ih, and_assoc]

end Reads

end Foundations.Lifetimes
