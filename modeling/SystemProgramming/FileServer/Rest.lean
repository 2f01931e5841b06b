import SystemProgramming.FileServer.Contents
import SystemProgramming.FileServer.Listing

/-! Every connection of the file server ends, with an answer, after three of its events at most. -/

namespace SystemProgramming.FileServer

open Foundations

/-- How many events a connection can still have. -/
def InfoClient.left (info : InfoClient) : Nat :=
  if info.state = 0 then 3 else if info.state = 1 then 2 else 1

/-- The same for a descriptor, which may be free. -/
def Server.left {library : Library} (st : Server library) (fd : Nat) : Nat :=
  (st.clientDictionary fd).elim 0 InfoClient.left

/-- A new connection gets the descriptor. -/
def Event.opens (fd : Nat) : Event → Bool
  | .accept other => other = fd
  | .ready _ _ => false

/-- The event is one of the connection with the descriptor. -/
def Event.serves (fd : Nat) : Event → Bool
  | .accept _ => false
  | .ready other _ => other = fd

/-- An answer begins with a line that tells whether the request was carried out. -/
def Answered (sent : List UInt8) : Prop :=
  okReply <+: sent ∨ ascii ['E', 'R', 'R', 'O', 'R', '\n'] <+: sent

variable {library : Library} {dirTemplate : Path} {before after st final : Server library}
  {event : Event} {outcome : Outcome} {input : Input} {info : InfoClient} {fd : Nat}
  {filename : Name} {writes : List Fragment} {trace : List (Transition (Server library) Action)}

/-- What an event does to its connection, and what it sends. -/
inductive Moved (info : InfoClient) (sent : List UInt8) : Option InfoClient → Prop
  | parsed (next : InfoClient) (header : info.state = 0) (past : next.state ≠ 0)
      (known : next.state = 1 → next.method ≠ none) : Moved info sent (some next)
  | missing (request : info.state = 1) : Moved info sent (some { info with state := -3 })
  | closed (past : info.state ≠ 0)
      (answered : (info.state = 1 → info.method ≠ none) → Answered sent) : Moved info sent none

/-- An event takes from what its connection can still have. -/
theorem Moved.left_lt {sent : List UInt8} {next : Option InfoClient}
    (moved : Moved info sent next) : next.elim 0 InfoClient.left < info.left := by
  cases moved with
  | parsed next header past _ =>
    simp only [Option.elim, InfoClient.left, if_pos header, if_neg past]
    split <;> decide
  | missing request => simp [InfoClient.left, request]
  | closed past _ =>
    simp only [Option.elim, InfoClient.left]
    split
    · decide
    · split <;> decide

/-- Storing a file changes no connection. -/
theorem put_clientDictionary {fragments : List Fragment} {stream : List UInt8} {accepted : Bool}
    {calls : List FileCall}
    (done : put dirTemplate before filename input fragments stream = some (st, accepted, calls)) :
    st.clientDictionary = before.clientDictionary := by
  simp only [put] at done
  split at done
  · cases done
  · split at done <;>
      · cases done
        rfl

/-- What a header does to its connection. -/
theorem moved_of_processHeader (header : info.state = 0)
    (done : processHeader dirTemplate before fd info input = some (after, outcome)) :
    ∃ next, after.clientDictionary = Function.update before.clientDictionary fd next ∧
      Moved info outcome.sent next := by
  have refused : Moved info outcome.sent (some { info with state := -1 }) :=
    .parsed _ header (by decide : (-1 : Int) ≠ 0) fun one => by cases one
  simp only [processHeader] at done
  split at done
  · cases done
  · cases done
    exact ⟨_, rfl, refused⟩
  · -- A request is refused, or its file is stored at once, or it is remembered.
    simp only [parseRequest] at done
    split at done
    · cases done
      exact ⟨_, rfl, refused⟩
    next filename parsed =>
      split at done
      · cases done
      next st accepted calls stored =>
        cases done
        have same := put_clientDictionary stored
        refine ⟨some ⟨if accepted then 1 else -2, some .put, filename⟩, ?_,
          .parsed _ header ?_ ?_⟩
        · rw [Server.setClient, same]
        · show (if accepted then 1 else -2 : Int) ≠ 0
          split <;> decide
        · exact fun _ none => by cases none
    next verb filename _ _ =>
      cases done
      exact ⟨_, rfl, .parsed _ header (by decide : (1 : Int) ≠ 0) fun _ none => by cases none⟩

/-- Without errors, a `GET` that is done was answered. -/
theorem answered_of_processGet (unbroken : Unbroken writes)
    (done : processGet dirTemplate st filename writes = some (true, outcome)) :
    Answered outcome.sent := by
  simp only [processGet] at done
  split at done
  · cases done
  · split at done
    · cases done
    · split at done
      · cases done
      · obtain ⟨_, _, reply⟩ := @writeAllToSocket_eq writes okReply unbroken
        obtain ⟨_, rfl⟩ := Prod.mk.inj (Option.some.inj done)
        rw [reply]
        exact .inl ⟨_, (List.append_assoc _ _ _).symm⟩

/-- Without errors, a request that is done was answered; none changes another connection. -/
theorem moved_of_processMethod {done : Bool} (unbroken : Unbroken writes)
    (carried : processMethod dirTemplate before info writes = some (st, done, outcome)) :
    st.clientDictionary = before.clientDictionary ∧
      (done = true → info.method ≠ none → Answered outcome.sent) := by
  obtain ⟨_, _, reply⟩ := @writeAllToSocket_eq writes okReply unbroken
  simp only [processMethod] at carried
  -- A request is carried out by its verb; three of the answers begin with `OK`.
  split at carried
  · cases carried
    exact ⟨rfl, fun _ _ => .inl ⟨[], by rw [reply, List.append_nil]⟩⟩
  · cases carried
    refine ⟨rfl, fun _ _ => .inl ?_⟩
    rw [writeEach_eq unbroken, List.flatten_cons]
    exact List.prefix_append _ _
  · split at carried
    · cases carried
    · next sent =>
      cases carried
      refine ⟨rfl, ?_⟩
      rintro rfl _
      exact answered_of_processGet unbroken sent
  · simp only [processDelete] at carried
    split at carried
    · cases carried
      exact ⟨rfl, fun never => by cases never⟩
    · split at carried
      · cases carried
        exact ⟨rfl, fun _ _ => .inl ⟨[], by rw [reply, List.append_nil]⟩⟩
      · cases carried
        exact ⟨rfl, fun never => by cases never⟩
  · next method =>
    cases carried
    exact ⟨rfl, fun _ known => absurd method known⟩

/-- What an event does to its connection; the others stay. -/
theorem moved_of_ready (unbroken : Unbroken input.writes)
    (done : runEpoll dirTemplate before (.ready fd input) = some (after, outcome)) :
    ∃ info next, before.clientDictionary fd = some info ∧
      after.clientDictionary = Function.update before.clientDictionary fd next ∧
      Moved info outcome.sent next := by
  simp only [runEpoll] at done
  split at done
  · cases done
  next info found =>
    -- The state says whether the header, the request or the error is next.
    split at done
    next header =>
      obtain ⟨next, same, moved⟩ := moved_of_processHeader header done
      exact ⟨info, next, found, same, moved⟩
    next header =>
      split at done
      next request =>
        split at done
        · cases done
        next carried =>
          cases done
          obtain ⟨same, answered⟩ := moved_of_processMethod unbroken carried
          refine ⟨info, none, found, by rw [Server.close, same], .closed header fun known => ?_⟩
          exact answered rfl (known request)
        next carried =>
          cases done
          obtain ⟨same, -⟩ := moved_of_processMethod unbroken carried
          exact ⟨info, _, found, by rw [Server.setClient, same], .missing request⟩
      next failed =>
        cases done
        refine ⟨info, none, found, rfl, .closed header fun _ => .inr ?_⟩
        show _ <+: writeEach input.writes _
        rw [writeEach_eq unbroken, List.flatten_cons]
        exact List.prefix_append _ _

/-- A connection whose request is read has one to carry out. -/
def Asked (st : Server library) : Prop :=
  ∀ fd info, st.clientDictionary fd = some info → info.state = 1 → info.method ≠ none

/-- What an event does to a descriptor: it is opened, or moved, or left alone. -/
theorem moved_of_runEpoll
    (unbroken : ∀ fd input, event = .ready fd input → Unbroken input.writes)
    (done : runEpoll dirTemplate before event = some (after, outcome)) (fd : Nat) :
    (event.opens fd = true ∧ event.serves fd = false ∧ before.clientDictionary fd = none ∧
        after.clientDictionary fd = some ⟨0, none, []⟩) ∨
      (event.opens fd = false ∧ event.serves fd = true ∧
        ∃ info, before.clientDictionary fd = some info ∧
          Moved info outcome.sent (after.clientDictionary fd)) ∨
      (event.opens fd = false ∧ event.serves fd = false ∧
        after.clientDictionary fd = before.clientDictionary fd) := by
  cases event with
  | accept other =>
    simp only [runEpoll] at done
    split at done
    next free =>
      cases done
      by_cases mine : other = fd
      · subst mine
        exact .inl ⟨by simp [Event.opens], rfl, free, before.setClient_same _ _⟩
      · exact .inr (.inr ⟨by simp [Event.opens, mine], rfl,
          Function.update_of_ne (Ne.symm mine) _ _⟩)
    · cases done
  | ready other input =>
    obtain ⟨info, next, found, same, moved⟩ := moved_of_ready (unbroken other input rfl) done
    rw [same]
    by_cases mine : other = fd
    · subst mine
      rw [Function.update_self]
      exact .inr (.inl ⟨rfl, by simp [Event.serves], info, found, moved⟩)
    · exact .inr (.inr ⟨rfl, by simp [Event.serves, mine],
        Function.update_of_ne (Ne.symm mine) _ _⟩)

/-- Every event keeps the connections asked. -/
theorem Asked.step {action : Action} (asked : Asked before)
    (step : Step library dirTemplate before action after) : Asked after := by
  intro fd info found request
  -- Only reading a header sets the state to 1, and it sets the verb as well.
  rcases moved_of_runEpoll (fun fd input same => (step.unbroken fd input same).2) step.executed fd
    with ⟨_, _, _, opened⟩ | ⟨_, _, old, _, moved⟩ | ⟨_, _, same⟩
  · rw [opened] at found
    obtain rfl := Option.some.inj found
    cases request
  · rw [found] at moved
    cases moved with
    | parsed _ _ _ known => exact known request
    | missing _ => cases request
  · exact asked fd info (same ▸ found) request

/-- An event of a connection takes from what it can still have, and opening one gives it three. -/
theorem Step.left {action : Action} (step : Step library dirTemplate before action after)
    (fd : Nat) : after.left fd + (if action.event.serves fd then 1 else 0) ≤
      before.left fd + 3 * if action.event.opens fd then 1 else 0 := by
  rcases moved_of_runEpoll (fun fd input same => (step.unbroken fd input same).2) step.executed fd
    with ⟨opens, serves, _, opened⟩ | ⟨opens, serves, info, found, moved⟩ | ⟨opens, serves, same⟩
  · rw [opens, serves, Server.left, opened]
    exact Nat.le_add_left _ _
  · have less := moved.left_lt
    rw [opens, serves, Server.left, Server.left, found]
    exact less
  · rw [opens, serves, Server.left, Server.left, same]
    exact Nat.le_refl _

end SystemProgramming.FileServer
