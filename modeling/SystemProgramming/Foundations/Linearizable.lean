import Mathlib.Data.List.Basic
import Mathlib.Data.List.Induction
import Mathlib.Data.List.Nodup

/-!
Objects that are used by many sessions at the same time: what it means that the sessions see them
as if they were used by one after the other, and that it is enough to know the points at which the
operations take effect.
-/

namespace Foundations

/-- An object that answers one operation after the other. -/
structure AtomicObject (State Operation Reply : Type*) where
  initial : State
  apply : State → Operation → State × Reply

/-- What happens in a session: its operation is called, takes effect, and is answered. -/
inductive Moment (Operation Reply : Type*) where
  | call (operation : Operation)
  | effect (operation : Operation) (reply : Reply)
  | answer (reply : Reply)
  deriving DecidableEq, Repr

/-- A turn of a session. -/
structure Mark (Session Operation Reply : Type*) where
  session : Session
  turn : Moment Operation Reply
  deriving DecidableEq, Repr

/-- An operation at its place in a sequential order, with its reply. -/
structure Entry (Session Operation Reply : Type*) where
  session : Session
  operation : Operation
  reply : Reply
  deriving DecidableEq, Repr

variable {State Session Operation Reply : Type*}

/-- The object gives these replies, one after the other, and is in some state afterwards. -/
def AtomicObject.Executes (object : AtomicObject State Operation Reply) :
    State → List (Entry Session Operation Reply) → State → Prop
  | st, [], final => final = st
  | st, entry :: rest, final =>
    (object.apply st entry.operation).2 = entry.reply ∧
      object.Executes (object.apply st entry.operation).1 rest final

/-- The same operation with its reply in another form. -/
def Entry.mapReply {Shown : Type*} (form : Reply → Shown)
    (entry : Entry Session Operation Reply) : Entry Session Operation Shown :=
  ⟨entry.session, entry.operation, form entry.reply⟩

/-- An object that gives its replies in another form. -/
def AtomicObject.mapReply {Shown : Type*} (form : Reply → Shown)
    (object : AtomicObject State Operation Reply) : AtomicObject State Operation Shown where
  initial := object.initial
  apply st operation := ((object.apply st operation).1, form (object.apply st operation).2)

/-- The turns that can be seen from outside. -/
def history (marks : List (Mark Session Operation Reply)) : List (Mark Session Operation Reply) :=
  marks.filter fun mark => match mark.turn with
    | .effect _ _ => false
    | _ => true

/-- The operations in the order in which they take effect. -/
def effects (marks : List (Mark Session Operation Reply)) : List (Entry Session Operation Reply) :=
  marks.filterMap fun mark => match mark.turn with
    | .effect operation reply => some ⟨mark.session, operation, reply⟩
    | _ => none

/-- The turns of a session that has been answered. -/
def turns (session : Session) (operation : Operation) (reply : Reply) :
    List (Mark Session Operation Reply) :=
  [⟨session, .call operation⟩, ⟨session, .effect operation reply⟩, ⟨session, .answer reply⟩]

section Points

variable [DecidableEq Session] {object : AtomicObject State Operation Reply}
  {marks front back : List (Mark Session Operation Reply)} {mark : Mark Session Operation Reply}
  {session : Session} {operation : Operation} {reply : Reply} {st middle final : State}
  {order later : List (Entry Session Operation Reply)} {entry : Entry Session Operation Reply}

/-- The turns of one session. -/
def ofSession (session : Session) (marks : List (Mark Session Operation Reply)) :
    List (Mark Session Operation Reply) :=
  marks.filter fun mark => mark.session = session

/-- Every session takes its turns one after the other. -/
def InTurns (marks : List (Mark Session Operation Reply)) : Prop :=
  ∀ session, ofSession session marks = [] ∨
    ∃ operation reply, ofSession session marks <+: turns session operation reply

omit [DecidableEq Session] in
/-- Operations in order, and more of them behind. -/
theorem AtomicObject.executes_append : object.Executes st (order ++ later) final ↔
    ∃ middle, object.Executes st order middle ∧ object.Executes middle later final := by
  induction order generalizing st with
  | nil => simp [AtomicObject.Executes]
  | cons entry rest ih => simp [AtomicObject.Executes, ih, and_assoc]

omit [DecidableEq Session] in
/-- Replies in another form are given by the object that gives them so. -/
theorem AtomicObject.Executes.mapReply {Shown : Type*} (form : Reply → Shown)
    (executes : object.Executes st order final) :
    (object.mapReply form).Executes st (order.map (Entry.mapReply form)) final := by
  induction order generalizing st with
  | nil => exact executes
  | cons entry rest ih => exact ⟨congrArg form executes.1, ih executes.2⟩

omit [DecidableEq Session] in
theorem effects_append : effects (front ++ back) = effects front ++ effects back :=
  List.filterMap_append

@[simp] theorem mem_ofSession : mark ∈ ofSession session marks ↔
    mark ∈ marks ∧ mark.session = session := by simp [ofSession]

@[simp] theorem ofSession_append :
    ofSession session (front ++ back) = ofSession session front ++ ofSession session back :=
  List.filter_append ..

/-- What has happened so far in a session is the first of its turns, too. -/
theorem InTurns.before (inTurns : InTurns (front ++ back)) : InTurns front := by
  intro session
  rcases inTurns session with none | ⟨operation, reply, some⟩
  · rw [ofSession_append, List.append_eq_nil_iff] at none
    exact .inl none.1
  · rw [ofSession_append] at some
    exact .inr ⟨operation, reply, (List.prefix_append _ _).trans some⟩

/-- A session that has a turn is in one of three stages. -/
theorem InTurns.stages (inTurns : InTurns marks) (member : mark ∈ marks) :
    ∃ operation reply, ofSession mark.session marks = (turns mark.session operation reply).take 1 ∨
      ofSession mark.session marks = (turns mark.session operation reply).take 2 ∨
      ofSession mark.session marks = turns mark.session operation reply := by
  have held : mark ∈ ofSession mark.session marks := mem_ofSession.mpr ⟨member, rfl⟩
  rcases inTurns mark.session with none | ⟨operation, reply, some⟩
  · rw [none] at held
    cases held
  · refine ⟨operation, reply, ?_⟩
    -- The prefixes of a list of three are known.
    have taken := List.prefix_iff_eq_take.mp some
    generalize (ofSession mark.session marks).length = count at taken
    rcases count with _ | _ | _ | count
    · rw [taken] at held
      cases held
    · exact .inl taken
    · exact .inr (.inl taken)
    · exact .inr (.inr (taken.trans (List.take_of_length_le (by simp [turns]))))

end Points

end Foundations
