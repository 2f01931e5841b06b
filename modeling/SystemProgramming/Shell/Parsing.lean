import Mathlib.Data.List.TakeWhile
import SystemProgramming.Foundations.Buffers
import SystemProgramming.Shell.ShortCircuit

/-! How a line is cut up: the parts around its operator, its words, and the buffers for both. -/

namespace SystemProgramming.Shell

open Foundations.Strings

section Operators

variable {line front rest : Line} {operator other : Operator} {place : Nat}

/-- The line contains one operator, and no other one before or behind it. -/
def OneOperator (operator : Operator) (line : Line) : Prop :=
  ∃ front rest, Simple front ∧ Simple rest ∧ line = front ++ operator.symbol ++ rest

/-- An operator of other characters does not lie across the one that stands there. -/
theorem not_infix_apart (simple : Simple front) (simple' : Simple rest)
    (apart : ∀ character ∈ operator.symbol, character ∉ other.symbol) :
    ¬ other.symbol <:+: front ++ operator.symbol ++ rest := by
  have nonempty := symbol_nonempty other
  -- Each character of the operator separates what is before it from what is behind it.
  have single : ∀ {front rest : Line} {character : Char}, character ∈ operator.symbol →
      ¬ other.symbol <:+: front → ¬ other.symbol <:+: rest →
      ¬ other.symbol <:+: front ++ character :: rest := by
    intro front rest character member before behind across
    rcases (infix_around_iff (apart character member) nonempty).mp across with left | right
    · exact before left
    · exact behind right
  have empty : ¬ other.symbol <:+: [] := fun inside => nonempty (List.infix_nil.mp inside)
  rw [List.append_assoc]
  cases operator with
  | and => exact single (by decide) (simple other) (@single [] rest '&' (by decide) empty (simple' other))
  | or => exact single (by decide) (simple other) (@single [] rest '|' (by decide) empty (simple' other))
  | append =>
    exact single (by decide) (simple other) (@single [] rest '>' (by decide) empty (simple' other))
  | sequence => exact single (by decide) (simple other) (simple' other)
  | write => exact single (by decide) (simple other) (simple' other)
  | read => exact single (by decide) (simple other) (simple' other)

/-- A single `>` is no `>>`. -/
theorem not_infix_append (simple : Simple front) (simple' : Simple rest) :
    ¬ Operator.append.symbol <:+: front ++ Operator.write.symbol ++ rest := by
  intro inside
  have absent : ∀ {part : Line}, Simple part → part.count '>' = 0 := by
    intro part simple
    refine List.count_eq_zero.mpr fun member => simple .write ?_
    obtain ⟨before, behind, rfl⟩ := List.append_of_mem member
    exact ⟨before, behind, by simp [Operator.symbol]⟩
  -- There would be two of these characters in the line.
  have twice := inside.sublist.count_le '>'
  rw [List.count_append, List.count_append, absent simple, absent simple'] at twice
  exact absurd twice (by decide)

/-- A line with one operator is decided as a line with that operator. -/
theorem OneOperator.found (only : OneOperator operator line) :
    ∃ place, findOperator line = some (operator, place) := by
  obtain ⟨front, rest, simple, simple', rfl⟩ := only
  have absent (other : Operator) (apart : ∀ character ∈ operator.symbol, character ∉ other.symbol) :
      strstr (front ++ operator.symbol ++ rest) other.symbol = none :=
    strstr_eq_none_iff.mpr (not_infix_apart simple simple' apart)
  have there : ∃ place, strstr (front ++ operator.symbol ++ rest) operator.symbol = some place := by
    rw [← Option.ne_none_iff_exists', Ne, strstr_eq_none_iff, not_not]
    exact ⟨front, rest, rfl⟩
  obtain ⟨place, here⟩ := there
  refine ⟨place, ?_⟩
  -- The operators that are looked for earlier are not there.
  cases operator with
  | and => simp only [findOperator, here]
  | or =>
    have no_and := absent .and (by simp [Operator.symbol])
    simp only [findOperator, no_and, here]
  | sequence =>
    have no_and := absent .and (by simp [Operator.symbol])
    have no_or := absent .or (by simp [Operator.symbol])
    simp only [findOperator, no_and, no_or, here]
  | append =>
    have no_and := absent .and (by simp [Operator.symbol])
    have no_or := absent .or (by simp [Operator.symbol])
    have no_sequence := absent .sequence (by simp [Operator.symbol])
    simp only [findOperator, no_and, no_or, no_sequence, here]
  | write =>
    have no_and := absent .and (by simp [Operator.symbol])
    have no_or := absent .or (by simp [Operator.symbol])
    have no_sequence := absent .sequence (by simp [Operator.symbol])
    have no_append := strstr_eq_none_iff.mpr (not_infix_append simple simple')
    simp only [findOperator, no_and, no_or, no_sequence, no_append, here]
  | read =>
    have no_and := absent .and (by simp [Operator.symbol])
    have no_or := absent .or (by simp [Operator.symbol])
    have no_sequence := absent .sequence (by simp [Operator.symbol])
    have no_append := absent .append (by simp [Operator.symbol])
    have no_write := absent .write (by simp [Operator.symbol])
    simp only [findOperator, no_and, no_or, no_sequence, no_append, no_write, here]

/-- The operator that is found stands where it is found. -/
theorem strstr_of_found (found : findOperator line = some (operator, place)) :
    strstr line operator.symbol = some place := by
  rw [findOperator] at found
  split at found <;> simp_all

/-- So the line is what is before it, it, and what is behind it. -/
theorem line_of_found (found : findOperator line = some (operator, place)) :
    line = line.take place ++ operator.symbol ++ line.drop (place + operator.symbol.length) := by
  obtain ⟨_, _, starts, _⟩ := strstr_eq_some (strstr_of_found found)
  obtain ⟨behind, same⟩ := starts
  rw [List.append_assoc, ← List.drop_drop, ← same, List.drop_left, same, List.take_append_drop]

/-- An operator is found exactly if the line contains one. -/
theorem findOperator_isSome_iff :
    (findOperator line).isSome ↔ ∃ operator : Operator, operator.symbol <:+: line := by
  constructor
  · intro some_operator
    obtain ⟨⟨operator, place⟩, found⟩ := Option.isSome_iff_exists.mp some_operator
    exact ⟨operator, _, _, (line_of_found found).symm⟩
  · rintro ⟨operator, inside⟩
    by_contra nothing
    rw [Option.not_isSome_iff_eq_none, findOperator] at nothing
    have missing : strstr line operator.symbol = none := by
      split at nothing <;> cases operator <;> simp_all
    exact strstr_eq_none_iff.mp missing inside

/-- What `symbolic_dicide` is for: its operator, and the parts of the line on both sides of that. -/
def Splits (operator : Operator) (line : Line) (st : State) : Prop :=
  ∃ first second after, symbolicDicide line st = .ok (some operator, after) ∧
    after.firstCommand = some first ∧ after.secondCommand = some second ∧
    line = first ++ operator.symbol ++ second

/-- Two characters are left out for every operator. -/
theorem splits_iff_of_found (found : findOperator line = some (operator, place)) (st : State) :
    Splits operator line st ↔ operator.symbol.length = 2 := by
  have whole := line_of_found found
  have length := congrArg List.length whole
  simp only [List.length_append, List.length_take, List.length_drop] at length
  constructor
  · rintro ⟨first, second, after, decided, held, held', same⟩
    rw [symbolicDicide, found] at decided
    dsimp only at decided
    split at decided
    · cases decided
    · rename_i long
      obtain ⟨_, rfl⟩ := Prod.mk.inj (Except.ok.inj decided)
      obtain rfl := Option.some.inj held
      obtain rfl := Option.some.inj held'
      -- The lengths of the parts and of the operator add up to that of the line.
      have sum := congrArg List.length same
      simp only [List.length_append, List.length_take, List.length_drop] at sum
      omega
  · intro two
    rw [two] at whole length
    have long : ¬ line.length < place + 2 := by omega
    refine ⟨line.take place, line.drop (place + 2), { st with
      firstCommand := some (line.take place), secondCommand := some (line.drop (place + 2)) },
      ?_, rfl, rfl, whole⟩
    rw [symbolicDicide, found]
    exact if_neg long

/-- A line with one operator is split rightly exactly if the operator has two characters. -/
theorem splits_iff (only : OneOperator operator line) (st : State) :
    Splits operator line st ↔ operator = .and ∨ operator = .or ∨ operator = .append := by
  obtain ⟨place, found⟩ := only.found
  rw [splits_iff_of_found found]
  cases operator <;> decide

/-- `a&&b` is split rightly. -/
theorem splits_iff_and : Splits .and ['a', '&', '&', 'b'] (sampleState []) := by
  have only : OneOperator .and ['a', '&', '&', 'b'] :=
    ⟨['a'], ['b'], by intro operator; cases operator <;> decide,
      by intro operator; cases operator <;> decide, rfl⟩
  exact (splits_iff only _).mpr (.inl rfl)

/-- Of `a;b`, the second command is lost. -/
theorem sequence_loses_character : ¬ ∀ (operator : Operator) (line : Line) (st : State),
    OneOperator operator line → Splits operator line st := by
  intro claim
  obtain ⟨first, second, after, decided, held, held', whole⟩ :=
    claim .sequence ['a', ';', 'b'] (sampleState []) ⟨['a'], ['b'],
      by intro operator; cases operator <;> decide, by intro operator; cases operator <;> decide, rfl⟩
  obtain ⟨_, rfl⟩ := Prod.mk.inj (Except.ok.inj
    ((show symbolicDicide ['a', ';', 'b'] (sampleState []) = .ok (some .sequence,
      { sampleState [] with firstCommand := some ['a'], secondCommand := some [] }) from
        by decide).symm.trans decided))
  obtain rfl := Option.some.inj held
  obtain rfl := Option.some.inj held'
  exact absurd whole (by decide)

end Operators

section Memory

variable {line : Line} {operator : Operator} {place : Nat}

/-- The bytes of a line, without the zero byte behind them. -/
def bytes (line : Line) : List UInt8 := line.map Char.toUInt8

/-- What `symbolic_dicide` computes and allocates, with all that is stored in its buffers. -/
structure Division where
  operator : Operator
  lenFirst : UInt64
  lenSecond : UInt64
  first : Buffer
  second : Buffer

/-- `symbolic_dicide`, with its lengths and its buffers. -/
def divide (line : Line) : Option Division :=
  (findOperator line).map fun found =>
    let len := UInt64.ofNat line.length
    let lenFirst := UInt64.ofNat found.2
    let lenSecond := len - lenFirst - 2
    { operator := found.1
      lenFirst := lenFirst
      lenSecond := lenSecond
      first := ((Buffer.malloc lenFirst.toNat).strncpy 0 (bytes line) (lenFirst + 1).toNat).store
        lenFirst.toNat 0
      second := ((Buffer.malloc lenSecond.toNat).strncpy 0 (bytes (line.drop (found.2 + 2)))
        (lenSecond + 1).toNat).store lenSecond.toNat 0 }

/-- The length of the second command does not underflow, and all stores are inside. -/
structure Division.Safe (division : Division) (line : Line) : Prop where
  underflow : division.lenFirst.toNat + 2 ≤ line.length
  first : division.first.Within
  second : division.second.Within

/-- The zero byte that is stored behind all bytes that were asked for is outside. -/
theorem not_within_terminated {size count : Nat} (source : List UInt8) :
    ¬ (((Buffer.malloc size).strncpy 0 source count).store size 0).Within := by
  rw [Buffer.within_store_iff, Buffer.requested_strncpy]
  rintro ⟨_, inside⟩
  exact Nat.lt_irrefl size inside

/-- With that byte, such a buffer holds as many characters as were asked for. -/
theorem text_terminated {size : Nat} {source : List UInt8} (enough : size ≤ source.length)
    (plain : 0 ∉ source) :
    text (((Buffer.malloc size).strncpy 0 source (size + 1)).store size 0).bytes =
      some (source.take size) := by
  have new : (Buffer.malloc size).bytes = [] ++ List.replicate size none := rfl
  have copied := Buffer.bytes_write
    (source.take (size + 1) ++ List.replicate (size + 1 - source.length) 0) new
  rw [List.length_nil, List.nil_append] at copied
  -- What was copied starts with the characters that are kept.
  obtain ⟨behind, more⟩ : source.take size <+: source.take (size + 1) :=
    List.take_prefix_take_left (Nat.le_succ size)
  have front : ((source.take size).map some).length = size := by
    rw [List.length_map, List.length_take_of_le enough]
  rw [← more, List.append_assoc, List.map_append, List.append_assoc] at copied
  have stored := @put_behind ((source.take size).map some) ((behind ++ List.replicate
    (size + 1 - source.length) 0).map some ++ List.drop (source.take size ++ (behind ++
      List.replicate (size + 1 - source.length) 0)).length (List.replicate size none)) 0
  rw [front] at stored
  rw [Buffer.store, Buffer.strncpy, ← more, List.append_assoc, copied, stored]
  exact text_append fun zero => plain (List.mem_of_mem_take zero)

/-- Neither of the two buffers has room for its zero byte. -/
theorem divide_outside (found : findOperator line = some (operator, place)) :
    ∃ division, divide line = some division ∧ division.operator = operator ∧
      ¬ division.first.Within ∧ ¬ division.second.Within := by
  rw [divide, found]
  exact ⟨_, rfl, rfl, not_within_terminated _, not_within_terminated _⟩

/-- The length of the second command underflows if a single character stands at the end. -/
theorem underflows_iff (found : findOperator line = some (operator, place))
    (small : line.length < 18446744073709551616) :
    (∃ division, divide line = some division ∧ line.length < division.lenFirst.toNat + 2) ↔
      operator.symbol.length = 1 ∧ place + 1 = line.length := by
  have length := congrArg List.length (line_of_found found)
  simp only [List.length_append, List.length_take, List.length_drop] at length
  have sizes : operator.symbol.length = 1 ∨ operator.symbol.length = 2 := by cases operator <;> decide
  have within : place + operator.symbol.length ≤ line.length := by omega
  have exact_place : (UInt64.ofNat place).toNat = place :=
    UInt64.toNat_ofNat_of_lt' (by simp only [UInt64.size]; omega)
  rw [divide, found]
  simp only [Option.map_some, Option.some.injEq, exists_eq_left', exact_place]
  omega

/-- Where nothing underflows, the buffers hold the two parts of the line. -/
theorem divide_text (found : findOperator line = some (operator, place))
    (small : line.length < 18446744073709551616) (plain : 0 ∉ bytes line)
    (long : place + 2 ≤ line.length) (st : State) :
    ∃ division after, divide line = some division ∧
      symbolicDicide line st = .ok (some operator, after) ∧
      text division.first.bytes = after.firstCommand.map bytes ∧
      text division.second.bytes = after.secondCommand.map bytes := by
  have within : place < 18446744073709551616 := by omega
  -- No size wraps, as the operator lies in the line.
  have first_size : (UInt64.ofNat place).toNat = place := UInt64.toNat_ofNat_of_lt' within
  have first_count : (UInt64.ofNat place + 1).toNat = place + 1 := by
    rw [UInt64.toNat_add, first_size]
    exact Nat.mod_eq_of_lt (by rw [UInt64.toNat_one]; omega)
  have second_size : (UInt64.ofNat line.length - UInt64.ofNat place - 2).toNat =
      line.length - (place + 2) := by
    have two : (2 : UInt64).toNat = 2 := rfl
    rw [UInt64.toNat_sub, UInt64.toNat_sub, first_size, UInt64.toNat_ofNat_of_lt' small, two]
    omega
  have second_count : (UInt64.ofNat line.length - UInt64.ofNat place - 2 + 1).toNat =
      line.length - (place + 2) + 1 := by
    rw [UInt64.toNat_add, second_size]
    exact Nat.mod_eq_of_lt (by rw [UInt64.toNat_one]; omega)
  have plain' : 0 ∉ bytes (line.drop (place + 2)) := by
    rw [bytes, List.map_drop]
    exact fun zero => plain (List.mem_of_mem_drop zero)
  rw [divide, symbolicDicide, found]
  refine ⟨_, _, rfl, if_neg (by omega), ?_, ?_⟩
  · dsimp only
    rw [first_size, first_count, text_terminated _ plain, bytes, ← List.map_take]
    · rfl
    · rw [bytes, List.length_map]
      omega
  · dsimp only
    rw [second_size, second_count, text_terminated _ plain', List.take_of_length_le]
    · rfl
    · rw [bytes, List.length_map, List.length_drop]
    · rw [bytes, List.length_map, List.length_drop]

/-- No line with an operator is divided within the buffers. -/
theorem division_never_safe (contains : ∃ operator : Operator, operator.symbol <:+: line) :
    ∃ division, divide line = some division ∧ ¬ division.Safe line := by
  obtain ⟨⟨operator, place⟩, found⟩ :=
    Option.isSome_iff_exists.mp (findOperator_isSome_iff.mpr contains)
  obtain ⟨division, divided, _, outside, _⟩ := divide_outside found
  exact ⟨division, divided, fun safe => outside safe.first⟩

/-- So neither is `a;b`. -/
theorem division_never_safe_sequence :
    ∃ division, divide ['a', ';', 'b'] = some division ∧ ¬ division.Safe ['a', ';', 'b'] :=
  division_never_safe ⟨.sequence, by decide⟩

/-- Nor is `a&&b`: one byte is asked for, and two are stored. -/
theorem first_command_overflows : ¬ ∀ line : Line,
    (∃ operator : Operator, operator.symbol <:+: line) →
    ∀ division, divide line = some division → division.Safe line := by
  intro claim
  obtain ⟨division, divided, _, outside, _⟩ :=
    @divide_outside ['a', '&', '&', 'b'] .and 1 (by decide)
  exact outside (claim _ ⟨.and, by decide⟩ division divided).first

end Memory

section Tokens

variable {line rest token : Line} {fuel : Nat}

/-- The maximal parts of a line without a space, in order. -/
def pieces (line : Line) : List Line := (line.splitOn ' ').filter (· ≠ [])

/-- The argument array of `read_args`: how many elements it has, and what is stored where. -/
structure Arguments where
  requested : Nat
  stores : List (Int × Option Line)
  argc : Int
  deriving DecidableEq, Repr

/-- `count++`, for an `int`. -/
def increment (count : Int) : Int := (count + 1).bmod 4294967296

/-- The loop of `read_args`, with what it has stored. -/
def storeTokens : Nat → Line → Int → List (Int × Option Line) → List (Int × Option Line) × Int
  | 0, _, count, stores => (stores, count)
  | fuel + 1, line, count, stores =>
    match strtok line with
    | none => (stores, count)
    | some (token, rest) =>
      storeTokens fuel rest (increment count)
        (stores ++ [(count, some (if token.getLast? = some '\n' then token.dropLast else token))])

/-- `read_args`, with its array; `none` is `NULL`. -/
def readArguments (line : Line) : Arguments :=
  let read := storeTokens line.length line 0 []
  { requested := line.length, stores := read.1 ++ [(read.2, none)], argc := read.2 }

/-- The array holds the parts of the line in order and then `NULL`, and nothing is outside of it. -/
structure Arguments.Tokenises (arguments : Arguments) (line : Line) : Prop where
  elements : arguments.stores =
    (pieces line).zipIdx.map (fun piece => ((piece.2 : Int), some piece.1)) ++
      [(((pieces line).length : Int), none)]
  argc : arguments.argc = (pieces line).length
  inside : ∀ stored ∈ arguments.stores, 0 ≤ stored.1 ∧ stored.1 < arguments.requested

theorem pieces_space (rest : Line) : pieces (' ' :: rest) = pieces rest := by
  have cut := List.splitOn_append_cons_self_of_not_mem (show ' ' ∉ ([] : Line) by simp) rest
  rw [List.nil_append] at cut
  rw [pieces, cut, List.filter_cons_of_neg (by simp)]
  rfl

theorem pieces_skip (line : Line) : pieces (line.dropWhile (· = ' ')) = pieces line := by
  induction line with
  | nil => rfl
  | cons character line ih =>
    by_cases space : character = ' '
    · subst space
      rw [pieces_space, List.dropWhile_cons_of_pos (by simp), ih]
    · rw [List.dropWhile_cons_of_neg (by simp [space])]

/-- A word and the space behind it are cut off. -/
theorem pieces_word (nonempty : token ≠ []) (unspaced : ' ' ∉ token) :
    pieces token = [token] ∧ ∀ rest, pieces (token ++ ' ' :: rest) = token :: pieces rest := by
  constructor
  · rw [pieces, List.splitOn_eq_singleton unspaced]
    exact List.filter_cons_of_pos (by simpa using nonempty)
  · intro rest
    rw [pieces, List.splitOn_append_cons_self_of_not_mem unspaced]
    exact List.filter_cons_of_pos (by simpa using nonempty)

/-- What `strtok` takes from a line is its first piece. -/
theorem strtok_eq_some (cut : strtok line = some (token, rest)) :
    pieces line = token :: pieces rest ∧ token ⊆ line ∧ rest ⊆ line ∧
      (rest = [] ∧ 1 ≤ line.length ∨ rest.length + 2 ≤ line.length) := by
  rw [strtok] at cut
  split at cut
  · cases cut
  · rename_i nonempty
    obtain ⟨rfl, rfl⟩ := Prod.mk.inj (Option.some.inj cut)
    rw [← pieces_skip]
    have part : line.dropWhile (· = ' ') ⊆ line := (List.dropWhile_sublist _).subset
    have shorter : (line.dropWhile (· = ' ')).length ≤ line.length :=
      (List.dropWhile_sublist _).length_le
    have starts := List.head_dropWhile_not (· = ' ') nonempty
    generalize line.dropWhile (· = ' ') = start at *
    have whole : start.takeWhile (· ≠ ' ') ++ start.dropWhile (· ≠ ' ') = start :=
      List.takeWhile_append_dropWhile
    have unspaced : ' ' ∉ start.takeWhile (· ≠ ' ') :=
      fun member => by simpa using List.mem_takeWhile_imp member
    have word : start.takeWhile (· ≠ ' ') ≠ [] := by
      cases start with
      | nil => exact absurd rfl nonempty
      | cons character start =>
        have other : character ≠ ' ' := of_decide_eq_false starts
        rw [List.takeWhile_cons_of_pos (by simpa using other)]
        exact List.cons_ne_nil _ _
    have some_character := List.length_pos_of_ne_nil word
    obtain ⟨alone, followed⟩ := pieces_word word unspaced
    have lengths := congrArg List.length whole
    rw [List.length_append] at lengths
    suffices first : pieces start = start.takeWhile (· ≠ ' ') ::
        pieces ((start.dropWhile (· ≠ ' ')).drop 1) ∧
        ((start.dropWhile (· ≠ ' ')).drop 1 = [] ∧ 1 ≤ line.length ∨
          ((start.dropWhile (· ≠ ' ')).drop 1).length + 2 ≤ line.length) from
      ⟨first.1, fun _ member => part ((List.takeWhile_sublist _).subset member),
        fun _ member => part ((List.dropWhile_sublist _).subset (List.mem_of_mem_drop member)),
        first.2⟩
    -- Behind the word, the line ends, or there is a space.
    cases behind : start.dropWhile (· ≠ ' ') with
    | nil =>
      rw [behind, List.append_nil] at whole
      rw [behind, List.length_nil] at lengths
      rw [whole] at alone some_character ⊢
      exact ⟨alone, .inl ⟨rfl, by omega⟩⟩
    | cons space more =>
      have ended := List.head?_dropWhile_not (· ≠ ' ') start
      rw [behind] at ended
      obtain rfl : space = ' ' := by simpa using ended
      rw [behind] at whole lengths
      rw [List.length_cons] at lengths
      refine ⟨?_, .inr ?_⟩
      · conv => lhs; rw [← whole]
        exact followed more
      · show more.length + 2 ≤ line.length
        omega

/-- Where `strtok` finds nothing, there are only spaces. -/
theorem strtok_eq_none (missing : strtok line = none) : pieces line = [] := by
  rw [strtok] at missing
  split at missing
  · rename_i empty
    rw [← pieces_skip, empty]
    rfl
  · cases missing

/-- The words of a line without a line break are its pieces. -/
theorem readWords_eq (enough : line.length ≤ fuel) (plain : '\n' ∉ line) :
    readWords fuel line = pieces line := by
  induction fuel generalizing line with
  | zero =>
    rw [List.length_eq_zero_iff.mp (Nat.le_zero.mp enough)]
    rfl
  | succ fuel ih =>
    rw [readWords]
    cases cut : strtok line with
    | none => exact (strtok_eq_none cut).symm
    | some found =>
      obtain ⟨token, rest⟩ := found
      obtain ⟨first, part, part', shorter⟩ := strtok_eq_some cut
      have unbroken : token.getLast? ≠ some '\n' :=
        fun last => plain (part (List.mem_of_getLast? last))
      have later := @ih rest (by rcases shorter with ⟨rfl, _⟩ | shorter; exacts [Nat.zero_le _, by omega])
        (fun broken => plain (part' broken))
      show (if token.getLast? = some '\n' then _ else token) :: readWords fuel rest = _
      rw [if_neg unbroken, later, first]

/-- Every piece but the last one is followed by a space. -/
theorem length_pieces_le (line : Line) : 2 * (pieces line).length ≤ line.length + 1 := by
  induction length : line.length using Nat.strongRecOn generalizing line with
  | ind size ih =>
    subst length
    cases cut : strtok line with
    | none => simp [strtok_eq_none cut]
    | some found =>
      obtain ⟨token, rest⟩ := found
      obtain ⟨first, _, _, shorter⟩ := strtok_eq_some cut
      rw [first, List.length_cons]
      rcases shorter with ⟨rfl, some_character⟩ | shorter
      · rw [show pieces [] = [] from rfl, List.length_nil]
        omega
      · have less := ih rest.length (by omega) rest rfl
        omega

/-- The indices of the array are those of the words, as an `int` can hold them. -/
theorem storeTokens_eq (fuel start : Nat) (line : Line) (stores : List (Int × Option Line)) :
    storeTokens fuel line ((start : Int).bmod 4294967296) stores =
      (stores ++ ((readWords fuel line).zipIdx start).map
        (fun word => ((word.2 : Int).bmod 4294967296, some word.1)),
      ((start + (readWords fuel line).length : Nat) : Int).bmod 4294967296) := by
  -- The induction is on the calls of `strtok`; each word goes to the next index.
  induction fuel generalizing line start stores with
  | zero => simp [storeTokens, readWords]
  | succ fuel ih =>
    rw [storeTokens, readWords]
    cases strtok line with
    | none => simp
    | some found =>
      have next : increment ((start : Int).bmod 4294967296) =
          ((start + 1 : Nat) : Int).bmod 4294967296 := by
        rw [increment, Int.bmod_add_bmod]
        rfl
      have total : ∀ words : List Line, start + 1 + words.length = start + (words.length + 1) := by
        intro words
        omega
      dsimp only
      rw [next, ih, List.zipIdx_cons, List.map_cons, List.length_cons, List.append_assoc, total]
      rfl

/-- A line is tokenised rightly if it has two characters or is a space, and not too many words. -/
theorem tokenises_iff (plain : '\n' ∉ line) :
    (readArguments line).Tokenises line ↔
      (2 ≤ line.length ∨ line = [' ']) ∧ (pieces line).length < 2147483648 := by
  have read : readArguments line =
      { requested := line.length
        stores := (pieces line).zipIdx.map
            (fun piece => ((piece.2 : Int).bmod 4294967296, some piece.1)) ++
          [(((pieces line).length : Int).bmod 4294967296, none)]
        argc := ((pieces line).length : Int).bmod 4294967296 } := by
    have stored := storeTokens_eq line.length 0 line []
    rw [readWords_eq (Nat.le_refl _) plain, Nat.zero_add, List.nil_append] at stored
    rw [readArguments, show (0 : Int) = ((0 : Nat) : Int).bmod 4294967296 from rfl, stored]
  have enough := length_pieces_le line
  rw [read]
  constructor
  · rintro ⟨_, argc, inside⟩
    have few : (pieces line).length < 2147483648 := by
      have bound := @Int.bmod_lt ((pieces line).length : Int) 4294967296 (by decide)
      dsimp only at argc
      omega
    refine ⟨?_, few⟩
    dsimp only at argc inside
    have last := (inside _ (List.mem_append_right _ (List.mem_singleton_self _))).2
    rw [argc] at last
    -- A single character that is no space would be a word.
    by_contra short
    rw [not_or] at short
    obtain ⟨character, rfl⟩ : ∃ character, line = [character] :=
      List.length_eq_one_iff.mp (by omega)
    have other : character ≠ ' ' := fun space => short.2 (by rw [space])
    have word := (pieces_word (List.cons_ne_nil character [])
      (fun space => other (List.mem_singleton.mp space).symm)).1
    rw [word] at last
    exact absurd last (by simp)
  · rintro ⟨short, few⟩
    have exact_index : ∀ i : Nat, i ≤ (pieces line).length → (i : Int).bmod 4294967296 = i :=
      fun i below => Int.bmod_eq_of_le (by omega) (by omega)
    have below : ∀ piece ∈ (pieces line).zipIdx, piece.2 < (pieces line).length := by
      intro piece member
      obtain ⟨_, bound, _⟩ := List.mem_zipIdx member
      omega
    have room : (pieces line).length < line.length := by
      rcases short with long | rfl
      · omega
      · rw [pieces_space, show pieces [] = [] from rfl]
        exact Nat.zero_lt_one
    have last := exact_index (pieces line).length (Nat.le_refl _)
    rw [last]
    refine ⟨?_, rfl, ?_⟩
    · dsimp only
      rw [List.map_congr_left fun piece member =>
        by rw [exact_index _ (Nat.le_of_lt (below piece member))]]
    · intro stored member
      rw [List.mem_append, List.mem_map, List.mem_singleton] at member
      dsimp only
      rcases member with ⟨piece, member, rfl⟩ | rfl
      · have inside := below piece member
        rw [exact_index _ (Nat.le_of_lt inside)]
        omega
      · dsimp only
        omega

/-- The words of `ls -l` are read rightly. -/
theorem tokenises_iff_ls : (readArguments ['l', 's', ' ', '-', 'l']).Tokenises
    ['l', 's', ' ', '-', 'l'] := by
  have enough := length_pieces_le ['l', 's', ' ', '-', 'l']
  refine (tokenises_iff (by decide)).mpr ⟨.inl (by decide), ?_⟩
  rw [List.length_cons] at enough
  simp only [List.length_cons, List.length_nil] at enough
  omega

/-- For an empty line, `NULL` is stored in an array without elements. -/
theorem empty_line_overflows : ¬ ∀ line : Line, '\n' ∉ line →
    (readArguments line).Tokenises line := by
  intro claim
  have inside := (claim [] (by simp)).inside (0, none) (by decide)
  exact absurd inside.2 (by decide)

end Tokens

end SystemProgramming.Shell
