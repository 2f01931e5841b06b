import SystemProgramming.Chatroom.Messages
import SystemProgramming.FileServer.Socket
import SystemProgramming.Foundations.SystemCalls

/-!
How the helpers that move whole messages end when the other side disconnects or a call fails: those
of the chat room, and those of the file server that were written after them.
-/

namespace SystemProgramming

open Foundations

namespace FileServer

/-- `read_all_from_socket` leaves its loop at a zero with what it has read, and at an error with -1. -/
def readAllPolicy : Policy := ⟨fun allRead => allRead, some (-1)⟩

/-- `write_all_to_socket`. -/
def writeAllPolicy : Policy := ⟨fun allWritten => allWritten, some (-1)⟩

end FileServer

namespace Chatroom

/-- `read_all_from_socket` returns 0 at a zero, and has no branch for errors but `EINTR`. -/
def readAllPolicy : Policy := ⟨fun _ => 0, none⟩

/-- `write_all_to_socket`. -/
def writeAllPolicy : Policy := ⟨fun _ => 0, none⟩

end Chatroom

section Answers

/-- What a call returns that has bytes to move. -/
def answerTo : Fragment → Answer
  | .interrupted => .interrupted
  | .failed => .failed
  | .moves more => .moved more

/-- How much of a stream a call takes. -/
def taken (stream : List UInt8) (remainByte : Nat) : Fragment → Nat
  | .moves more => (stream.take (min (more + 1) remainByte)).length
  | _ => 0

/-- What the calls of a loop return that reads a stream in fragments, and then as it can. -/
def readAnswers : List Fragment → List UInt8 → Nat → Nat → Answer
  | [], stream, _, 0 => if stream = [] then .zero else .moved (stream.length - 1)
  | [], _, _, _ + 1 => .zero
  | .moves more :: _, stream, _, 0 =>
    if stream = [] then .zero else .moved (min more (stream.length - 1))
  | fragment :: _, _, _, 0 => answerTo fragment
  | fragment :: fragments, stream, remainByte, call + 1 =>
    readAnswers fragments (stream.drop (taken stream remainByte fragment))
      (remainByte - taken stream remainByte fragment) call

/-- What the calls of a loop return that writes so many bytes in fragments, and then all at once. -/
def writeAnswers : List Fragment → Nat → Nat → Answer
  | [], size, _ => .moved size
  | fragment :: _, _, 0 => answerTo fragment
  | _ :: fragments, size, call + 1 => writeAnswers fragments size call

end Answers

variable {fragments : List Fragment} {stream buffer : List UInt8} {remainByte : Int}
  {allWritten all : Nat}

/-- A call that has bytes to read gets none of them only where the stream has ended. -/
theorem piece_eq_nil_iff {extra wanted : Nat} (more : 0 < wanted) :
    stream.take (min (extra + 1) wanted) = [] ↔ stream = [] := by
  have some_wanted : min (extra + 1) wanted ≠ 0 := by omega
  rw [List.take_eq_nil_iff, or_iff_right some_wanted]

namespace Chatroom

/-- Without fragments, the loop takes what it can at once, and finds the end if that is not enough. -/
theorem readLoop_nil_gives :
    readAllPolicy.Gives (readAnswers [] stream remainByte.toNat) buffer.length remainByte
      (readLoop [] stream buffer remainByte).returned := by
  unfold readLoop
  split
  next short =>
    by_cases ended : stream = []
    · exact .of_returned (by omega) (by simp [readAnswers, ended, Policy.takes, readAllPolicy])
    · -- The first call takes the rest of the stream, and the second one finds its end.
      have some_left := List.length_pos_of_ne_nil ended
      exact .of_moved stream.length (by omega) (if_neg ended) (by omega)
        (.of_returned (by omega) rfl)
  next enough =>
    by_cases more : 0 < remainByte
    · have ended : stream ≠ [] := by
        rintro rfl
        simp only [List.length_nil] at enough
        omega
      have some_left := List.length_pos_of_ne_nil ended
      have piece : (stream.take remainByte.toNat).length = remainByte.toNat := by
        rw [List.length_take]
        omega
      have all := @List.length_append _ buffer (stream.take remainByte.toNat)
      rw [piece] at all
      simp only [all]
      exact .of_moved remainByte.toNat more (if_neg ended) (by omega) (.of_nothing (by omega))
    · have none : remainByte.toNat = 0 := by omega
      simp only [none, List.take_zero, List.append_nil]
      exact .of_nothing (Int.not_lt.mp more)

/-- The loop over the bytes of a stream returns what the loop over the answers does. -/
theorem readLoop_gives :
    readAllPolicy.Gives (readAnswers fragments stream remainByte.toNat) buffer.length remainByte
      (readLoop fragments stream buffer remainByte).returned := by
  -- A fragment is one answer, and those behind it are the answers to the later calls.
  induction fragments generalizing stream buffer remainByte with
  | nil => exact readLoop_nil_gives
  | cons fragment fragments ih =>
    unfold readLoop
    split
    next more =>
      cases fragment with
      | interrupted => exact .of_continued more rfl ih
      | failed => exact .of_continued more rfl ih
      | moves extra =>
        dsimp only
        split
        next empty =>
          have ended : stream = [] := (piece_eq_nil_iff (by omega)).mp empty
          exact .of_returned more (by simp [readAnswers, ended, Policy.takes, readAllPolicy])
        next some_ =>
          have ended : stream ≠ [] := mt (piece_eq_nil_iff (by omega)).mpr some_
          have some_left := List.length_pos_of_ne_nil ended
          -- What this call leaves is read by the later ones.
          have rest := @ih (stream.drop (stream.take (min (extra + 1) remainByte.toNat)).length)
            (buffer ++ stream.take (min (extra + 1) remainByte.toNat))
            (remainByte - (stream.take (min (extra + 1) remainByte.toNat)).length)
          rw [List.length_append, Int.toNat_sub'] at rest
          refine .of_moved (stream.take (min (extra + 1) remainByte.toNat)).length more
            (if_neg ended) ?_ rest
          rw [List.length_take]
          omega
    next enough =>
      exact .of_nothing (Int.not_lt.mp enough)

/-- So does the loop that writes a buffer. -/
theorem writeLoop_gives (enough : allWritten + remainByte ≤ buffer.length) :
    writeAllPolicy.Gives (writeAnswers fragments buffer.length) allWritten remainByte
      (writeLoop fragments buffer allWritten remainByte).returned := by
  induction fragments generalizing allWritten remainByte with
  | nil =>
    have rest : ((buffer.drop allWritten).take remainByte.toNat).length = remainByte.toNat := by
      rw [List.length_take, List.length_drop]
      omega
    simp only [writeLoop, rest]
    by_cases more : 0 < remainByte
    · exact .of_moved remainByte.toNat more rfl (by omega) (.of_nothing (by omega))
    · rw [Int.toNat_of_nonpos (Int.not_lt.mp more)]
      exact .of_nothing (Int.not_lt.mp more)
  | cons fragment fragments ih =>
    unfold writeLoop
    split
    next more =>
      cases fragment with
      | interrupted => exact .of_continued more rfl (ih enough)
      | failed => exact .of_continued more rfl (ih enough)
      | moves extra =>
        have piece : ((buffer.drop allWritten).take (min (extra + 1) remainByte.toNat)).length =
            min (extra + 1) remainByte.toNat := by
          rw [List.length_take, List.length_drop]
          omega
        dsimp only
        split
        next empty =>
          -- There is something to write.
          rw [empty, List.length_nil] at piece
          omega
        next some_ =>
          rw [piece]
          exact .of_moved _ more rfl rfl (ih (by omega))
    next enough => exact .of_nothing (Int.not_lt.mp enough)

end Chatroom

namespace FileServer

/-- What a helper returns to its caller, when it has moved so many bytes before. -/
def result (all : Nat) : Option Nat → Int
  | none => -1
  | some moved => (all + moved : Nat)

/-- What a helper returns behind a piece. -/
theorem result_map (all piece : Nat) (returned : Option Nat) :
    result all (returned.map (piece + ·)) = result (all + piece) returned := by
  cases returned with
  | none => rfl
  | some moved => simp [result, Nat.add_assoc]

/-- The loop over the bytes of a stream returns what the loop over the answers does. -/
theorem readAllFromSocket_gives {remainByte : Nat} :
    readAllPolicy.Gives (readAnswers fragments stream remainByte) all remainByte
      (result all (readAllFromSocket fragments stream remainByte).returned) := by
  induction fragments generalizing stream all remainByte with
  | nil =>
    by_cases ended : stream = []
    · by_cases more : 0 < remainByte
      · exact .of_returned (by omega)
          (by simp [readAnswers, ended, Policy.takes, readAllPolicy, result, readAllFromSocket])
      · rw [ended, readAllFromSocket, List.take_nil]
        exact .of_nothing (by omega)
    · have some_left := List.length_pos_of_ne_nil ended
      rw [readAllFromSocket, List.length_take]
      by_cases more : 0 < remainByte
      · -- The first call takes what there is, and another one would find the end.
        refine .of_moved (min remainByte stream.length) (by omega) (if_neg ended) (by omega) ?_
        by_cases short : stream.length < remainByte
        · exact .of_returned (by omega) rfl
        · exact .of_nothing (by omega)
      · rw [Nat.eq_zero_of_not_pos more, Nat.zero_min]
        exact .of_nothing (by omega)
  | cons fragment fragments ih =>
    unfold readAllFromSocket
    split
    next done => exact .of_nothing (by omega)
    next more =>
      cases fragment with
      | interrupted => exact .of_continued (by omega) rfl ih
      | failed => exact .of_returned (by omega) rfl
      | moves extra =>
        dsimp only
        split
        next empty =>
          have ended : stream = [] := (piece_eq_nil_iff (by omega)).mp empty
          exact .of_returned (by omega) (by simp [readAnswers, ended, Policy.takes, readAllPolicy, result])
        next some_ =>
          have ended : stream ≠ [] := mt (piece_eq_nil_iff (by omega)).mpr some_
          have some_left := List.length_pos_of_ne_nil ended
          have within : (stream.take (min (extra + 1) remainByte)).length ≤ remainByte := by
            rw [List.length_take]
            omega
          -- What this call leaves is read by the later ones.
          rw [result_map]
          refine .of_moved (stream.take (min (extra + 1) remainByte)).length (by omega)
            (if_neg ended) ?_ ?_
          · rw [List.length_take]
            omega
          · rw [← Int.ofNat_sub within]
            exact ih

/-- So does the loop that writes a buffer. -/
theorem writeAllToSocket_gives {size : Nat} (enough : buffer.length ≤ size) :
    writeAllPolicy.Gives (writeAnswers fragments size) all buffer.length
      (result all (writeAllToSocket fragments buffer).returned) := by
  -- The induction is on what the calls of `write` return.
  induction fragments generalizing all buffer with
  | nil =>
    by_cases empty : buffer = []
    · rw [empty]
      exact .of_nothing (by simp)
    · have more := List.length_pos_of_ne_nil empty
      exact .of_moved buffer.length (by omega) rfl (by omega) (.of_nothing (by omega))
  | cons fragment fragments ih =>
    unfold writeAllToSocket
    split
    next done =>
      rw [done]
      exact .of_nothing (by simp)
    next some_ =>
      have more := List.length_pos_of_ne_nil some_
      cases fragment with
      | interrupted => exact .of_continued (by omega) rfl (ih enough)
      | failed => exact .of_returned (by omega) rfl
      | moves extra =>
        have rest := @ih (buffer.drop (extra + 1)) (all + (buffer.take (extra + 1)).length)
          (by rw [List.length_drop]; omega)
        have left : ((buffer.drop (extra + 1)).length : Int) =
            buffer.length - (buffer.take (extra + 1)).length := by
          rw [List.length_drop, List.length_take]
          omega
        rw [left] at rest
        dsimp only
        rw [result_map]
        refine .of_moved (buffer.take (extra + 1)).length (by omega) rfl ?_ rest
        rw [List.length_take]
        omega

end FileServer

namespace Chatroom

/--
At the answer that decides it, a helper returns 0 for a zero and -1 for an error, without another
call; and it returns -1 where its sibling does.
-/
structure EndsRight (policy sibling : Policy) (answers : Nat → Answer) (remainByte : Int)
    (call : Nat) : Prop where
  returns : ∃ returned, policy.Returns answers remainByte returned ∧
    returned.result = (if answers call = .zero then 0 else -1) ∧ returned.calls ≤ call + 1
  agrees : (∃ calls, policy.Returns answers remainByte ⟨-1, calls⟩) ↔
    ∃ calls, sibling.Returns answers remainByte ⟨-1, calls⟩

variable {policy sibling : Policy} {answers : Nat → Answer} {count call : Nat}

/-- A loop with nothing to move returns at once. -/
theorem returns_of_nothing (nothing : remainByte ≤ 0) : policy.Returns answers remainByte ⟨0, 0⟩ :=
  ⟨1, if_neg (Int.not_lt.mpr nothing)⟩

/-- Where a zero decides it, a loop returns what it makes of zeros, or it had nothing to move. -/
theorem returns_of_zero (sized : count < 2 ^ 64) (decided : DecidedAt answers count call)
    (zero : answers call = .zero) (counts : ∀ all, 0 ≤ policy.onZero all) :
    ∃ returned, policy.Returns answers (asSsize count) returned ∧ 0 ≤ returned.result ∧
      returned.calls ≤ call + 1 ∧ (returned.result = 0 ∨ ∃ all, returned.result = policy.onZero all) := by
  by_cases small : count < 2 ^ 63
  · rw [asSsize_of_lt small]
    exact ⟨_, .of_zero decided zero, counts _, Nat.le_refl _, .inr ⟨_, rfl⟩⟩
  · -- As an `ssize_t`, such a count is negative.
    have nothing : asSsize count ≤ 0 := by
      rw [asSsize, if_neg small]
      omega
    exact ⟨_, returns_of_nothing nothing, Int.le_refl _, Nat.zero_le _, .inl rfl⟩

/-- A loop that returns a number of bytes does not return -1. -/
theorem not_refused {returned : Returned} (done : policy.Returns answers remainByte returned)
    (bound : 0 ≤ returned.result) : ¬ ∃ calls, policy.Returns answers remainByte ⟨-1, calls⟩ := by
  rintro ⟨calls, refused⟩
  have same : returned.result = -1 := congrArg Returned.result (done.unique refused)
  omega

/-- A helper that repeats calls that fail ends right exactly if a zero decides it. -/
theorem endsRight_iff_zero (repeats : policy.onError = none) (ends : ∀ all, policy.onZero all = 0)
    (counts : ∀ all, 0 ≤ sibling.onZero all) (sized : count < 2 ^ 64)
    (decided : DecidedAt answers count call) :
    EndsRight policy sibling answers (asSsize count) call ↔ answers call = .zero := by
  have nonneg : ∀ all, 0 ≤ policy.onZero all := fun all => by rw [ends]
  constructor
  · rintro ⟨⟨returned, ⟨turns, done⟩, result, -⟩, -⟩
    -- The helper never returns -1.
    by_contra failed
    have bound := run_nonneg repeats nonneg done
    rw [result, if_neg failed] at bound
    omega
  · intro zero
    obtain ⟨returned, done, bound, few, value⟩ := returns_of_zero sized decided zero nonneg
    obtain ⟨other, sibling_done, sibling_bound, -⟩ := returns_of_zero sized decided zero counts
    refine ⟨⟨returned, done, ?_, few⟩,
      iff_of_false (not_refused done bound) (not_refused sibling_done sibling_bound)⟩
    rw [if_pos zero]
    rcases value with value | ⟨all, value⟩
    · exact value
    · rw [value, ends]

/--
Where an end or an error decides them, both helpers of the chat room end right exactly if it is the
end; at an error, they go on.
-/
theorem endsRight_iff (sized : count < 2 ^ 64) (decided : DecidedAt answers count call) :
    (EndsRight readAllPolicy FileServer.readAllPolicy answers (asSsize count) call ↔
        answers call = .zero) ∧
      (EndsRight writeAllPolicy FileServer.writeAllPolicy answers (asSsize count) call ↔
        answers call = .zero) :=
  -- The siblings count what they have moved.
  ⟨endsRight_iff_zero rfl (fun _ => rfl) Int.natCast_nonneg sized decided,
    endsRight_iff_zero rfl (fun _ => rfl) Int.natCast_nonneg sized decided⟩

/-- Two bytes, and then the end. -/
def closing (call : Nat) : Answer := if call = 0 then .moved 1 else .zero

/-- The other side disconnects after two bytes of a size. -/
theorem endsRight_iff_closing :
    EndsRight readAllPolicy FileServer.readAllPolicy closing (asSsize messageSizeDigits) 1 := by
  have decided : DecidedAt closing messageSizeDigits 1 := by
    refine ⟨.inl rfl, fun earlier below => ?_, by decide⟩
    obtain rfl : earlier = 0 := by omega
    rintro (zero | failed)
    · cases zero
    · cases failed
  exact (endsRight_iff (by decide) decided).1.mpr rfl

/-- The connection is broken: every call fails, the helper calls on forever, and its sibling does not. -/
theorem broken_never_returns :
    (∀ returned, ¬ readAllPolicy.Returns (fun _ => .failed) (asSsize messageSizeDigits) returned) ∧
      (∀ returned, ¬ writeAllPolicy.Returns (fun _ => .failed) (asSsize messageSizeDigits) returned) ∧
      FileServer.readAllPolicy.Returns (fun _ => .failed) (asSsize messageSizeDigits) ⟨-1, 1⟩ ∧
      ¬ EndsRight readAllPolicy FileServer.readAllPolicy (fun _ => .failed)
        (asSsize messageSizeDigits) 0 := by
  have decided : DecidedAt (fun _ => .failed) (asSsize messageSizeDigits) 0 :=
    ⟨.inr rfl, fun _ below => absurd below (Nat.not_lt_zero _), by decide⟩
  have never : ∀ returned,
      ¬ readAllPolicy.Returns (fun _ => .failed) (asSsize messageSizeDigits) returned :=
    fun _ => not_returns rfl decided fun _ => rfl
  refine ⟨never, fun _ => not_returns rfl decided fun _ => rfl, .of_failed decided rfl rfl, ?_⟩
  rintro ⟨⟨returned, done, -⟩, -⟩
  exact never returned done

end Chatroom

end SystemProgramming
