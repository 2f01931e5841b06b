import Mathlib.Data.List.TakeWhile
import SystemProgramming.Shell.ShortCircuit

/-! `!prefix`: the latest entry of the history that starts with a text. -/

namespace SystemProgramming.Shell

section Search

variable {text line : Line} {history : List Line} {count idx : Nat}

/-- The latest of so many indices at which something holds, if there is one. -/
def Latest (Holds : Nat → Prop) (count : Nat) : Option Nat → Prop
  | some idx => idx < count ∧ Holds idx ∧ ∀ later, idx < later → later < count → ¬ Holds later
  | none => ∀ idx, idx < count → ¬ Holds idx

/-- There is only one such answer. -/
theorem Latest.unique {Holds : Nat → Prop} {one other : Option Nat} (latest : Latest Holds count one)
    (latest' : Latest Holds count other) : one = other := by
  cases one with
  | none =>
    cases other with
    | none => rfl
    | some idx => exact absurd latest'.2.1 (latest idx latest'.1)
  | some idx =>
    cases other with
    | none => exact absurd latest.2.1 (latest' idx latest.1)
    | some idx' =>
      -- Neither of the two indices is behind the other.
      rcases Nat.lt_trichotomy idx idx' with less | rfl | more
      · exact absurd latest'.2.1 (latest.2.2 idx' less latest'.1)
      · rfl
      · exact absurd latest.2.1 (latest'.2.2 idx more latest.1)

/-- Where the same answer is right for a search in the first indices and for one in all of them. -/
theorem latest_agrees_iff {Holds Spurious : Nat → Prop} {all : Nat} {found : Option Nat}
    (within : count ≤ all) (weaker : ∀ idx, Holds idx → Spurious idx)
    (searched : Latest Spurious count found) :
    Latest Holds all found ↔ (∀ idx, idx < all → Holds idx → idx < count) ∧
      ∀ idx, idx < count → Spurious idx → ¬ Holds idx →
        ∃ later, idx < later ∧ later < count ∧ Holds later := by
  cases found with
  | none =>
    constructor
    · intro latest
      exact ⟨fun idx below holds => absurd holds (latest idx below),
        fun idx below spurious => absurd spurious (searched idx below)⟩
    · rintro ⟨reached, _⟩ idx below holds
      exact searched idx (reached idx below holds) (weaker idx holds)
  | some found =>
    obtain ⟨below, spurious, last⟩ := searched
    constructor
    · rintro ⟨_, holds, latest⟩
      constructor
      · intro idx inside holds'
        by_contra outside
        exact latest idx (by omega) inside holds'
      · intro idx inside spurious' other
        refine ⟨found, ?_, below, holds⟩
        -- What is behind the answer does not even seem to be right.
        rcases Nat.lt_trichotomy idx found with less | rfl | more
        · exact less
        · exact absurd holds other
        · exact absurd spurious' (last idx more inside)
    · rintro ⟨reached, overtaken⟩
      have holds : Holds found := by
        by_contra other
        obtain ⟨later, behind, inside, holds⟩ := overtaken found below spurious other
        exact last later behind inside (weaker later holds)
      refine ⟨by omega, holds, fun later behind inside holds' => ?_⟩
      exact last later behind (reached later inside holds') (weaker later holds')

/-- The search compares with what an entry is without its spaces. -/
theorem startsWith_iff : startsWith text line ↔ text <+: line.filter (· ≠ ' ') := by
  induction text generalizing line with
  | nil => simp [startsWith]
  | cons character text ih =>
    have skipped : line.filter (· ≠ ' ') = (line.dropWhile (· = ' ')).filter (· ≠ ' ') := by
      induction line with
      | nil => rfl
      | cons first line ih =>
        by_cases space : first = ' '
        · simpa [space] using ih
        · simp [space]
    rw [startsWith, skipped]
    cases behind : line.dropWhile (· = ' ') with
    | nil => simp
    | cons first rest =>
      have ended := List.head?_dropWhile_not (· = ' ') line
      rw [behind] at ended
      have other : first ≠ ' ' := by simpa using ended
      rw [List.filter_cons_of_pos (by simpa using other), List.cons_prefix_cons, ← ih]
      simp

/-- The loop goes through the indices from the last one downwards. -/
theorem latestSimilar_latest (text : Line) (history : List Line) (count : Nat) :
    Latest (fun idx => text <+: (history.getD idx []).filter (· ≠ ' ')) count
      (latestSimilar text history count) := by
  -- The induction is on the entries that are still to be looked at.
  induction count with
  | zero => exact fun idx below => absurd below (Nat.not_lt_zero idx)
  | succ count ih =>
    rw [latestSimilar]
    split
    · rename_i here
      exact ⟨Nat.lt_succ_self count, startsWith_iff.mp here, fun later behind below =>
        absurd behind (by omega)⟩
    · rename_i elsewhere
      rw [startsWith_iff] at elsewhere
      cases found : latestSimilar text history count with
      | none =>
        rw [found] at ih
        intro idx below
        rcases Nat.lt_succ_iff_lt_or_eq.mp below with less | rfl
        · exact ih idx less
        · exact elsewhere
      | some idx =>
        rw [found] at ih
        refine ⟨Nat.lt_succ_of_lt ih.1, ih.2.1, fun later behind below => ?_⟩
        rcases Nat.lt_succ_iff_lt_or_eq.mp below with less | rfl
        · exact ih.2.2 later behind less
        · exact elsewhere

/-- A text without spaces at the start of an entry is there without the spaces of that, too. -/
theorem prefix_unspaced (unspaced : ' ' ∉ text) (starts : text <+: line) :
    text <+: line.filter (· ≠ ' ') := by
  have kept : text.filter (· ≠ ' ') = text := by
    refine List.filter_eq_self.mpr fun character member => ?_
    exact decide_eq_true fun space => unspaced (space ▸ member)
  rw [← kept]
  exact starts.filter _

end Search

section Recall

variable {text : Line} {history : List Line} {st : State} {again : Exec} {choice other : Option Nat}

/-- The index of the last entry, converted to an `int`. -/
def lastIndex (history : List Line) : Int := ((history.length : Int) - 1).bmod 4294967296

/-- `handle_latest_similar_command`, with the index of its loop as an `int`. -/
def handleLatestSimilar (again : Exec) (name : Line) (st : State) : Except Stop (Int × State) :=
  let idx := lastIndex st.history
  if name.tail = [] then
    -- A negative number is a large `size_t`, and no index of the vector.
    if idx < 0 then .error (.crashes st) else reexecute again idx.toNat st
  else
    match latestSimilar name.tail st.history (idx + 1).toNat with
    | some idx => reexecute again idx st
    | none => .ok (1, { st.note .noHistoryMatch with addHistory := false })

/-- An entry is run again, or it is reported that there is none. -/
def recalled (again : Exec) (st : State) : Option Nat → Except Stop (Int × State)
  | some idx => reexecute again idx st
  | none => .ok (1, { st.note .noHistoryMatch with addHistory := false })

/-- `!prefix` runs the latest entry that starts with the prefix, whatever it means to run one. -/
def Recalls (text : Line) (st : State) : Prop :=
  ∀ again, ∃ choice,
    Latest (fun idx => text <+: st.history.getD idx []) st.history.length choice ∧
      handleLatestSimilar again ('!' :: text) st = recalled again st choice

/--
There is an entry if none is asked for in particular; the search starts from an entry that is late
enough; and an entry that only seems to start with the text, because its spaces are skipped, comes
before one that does.
-/
structure Findable (text : Line) (history : List Line) : Prop where
  some_entry : text = [] → history ≠ []
  reached : ∀ idx, idx < history.length → text <+: history.getD idx [] →
    (idx : Int) ≤ lastIndex history
  spaced : ∀ idx : Nat, (idx : Int) ≤ lastIndex history →
    text <+: (history.getD idx []).filter (· ≠ ' ') → ¬ text <+: history.getD idx [] →
    ∃ later, idx < later ∧ (later : Int) ≤ lastIndex history ∧ text <+: history.getD later []

theorem lastIndex_lt (history : List Line) : lastIndex history < history.length := by
  rw [lastIndex, Int.bmod_def]
  split <;> omega

/-- As long as the history has no more entries than an `int` can count, the conversion is harmless. -/
theorem lastIndex_eq (few : history.length ≤ 2147483648) :
    lastIndex history = (history.length : Int) - 1 :=
  Int.bmod_eq_of_le (by omega) (by omega)

/-- Then the search is that of `handleLatestSimilarCommand`. -/
theorem handleLatestSimilar_eq (again : Exec) (name : Line)
    (few : st.history.length ≤ 2147483648) :
    handleLatestSimilar again name st = handleLatestSimilarCommand again name st := by
  rw [handleLatestSimilar, handleLatestSimilarCommand, lastIndex_eq few]
  have count : ((st.history.length : Int) - 1 + 1).toNat = st.history.length := by omega
  rw [count]
  by_cases bare : name.tail = []
  · rw [if_pos bare, if_pos bare]
    by_cases empty : (st.history.length : Int) - 1 < 0
    · -- There is no entry, so that none can be read.
      have none : st.history[st.history.length - 1]? = none := List.getElem?_eq_none (by omega)
      rw [if_pos empty, reexecute, State.get, State.string, none]
      rfl
    · have last : ((st.history.length : Int) - 1).toNat = st.history.length - 1 := by omega
      rw [if_neg empty, last]
  · exact (if_neg bare).trans (if_neg bare).symm

/-- A run that tells where the entry lies. -/
def locates : Exec
  | .entry idx, st => .ok ((idx : Int) + 2, st)
  | _, st => .ok (0, st)

/-- What it tells of a choice. -/
def located : Option Nat → Int
  | some idx => (idx : Int) + 2
  | none => 1

theorem recall_locates (inside : ∀ idx, choice = some idx → idx < st.history.length) :
    ∃ after, recalled locates st choice = .ok (located choice, after) := by
  cases choice with
  | none => exact ⟨_, rfl⟩
  | some idx =>
    obtain ⟨command, there⟩ : ∃ command, st.history[idx]? = some command :=
      ⟨_, List.getElem?_eq_getElem (inside idx rfl)⟩
    refine ⟨{ st.note (.command command) with addHistory := false }, ?_⟩
    rw [recalled, reexecute, State.get, State.string, there]
    rfl

/-- Different choices can be told apart. -/
theorem recall_injective (inside : ∀ idx, choice = some idx → idx < st.history.length)
    (inside' : ∀ idx, other = some idx → idx < st.history.length)
    (same : recalled locates st choice = recalled locates st other) : choice = other := by
  obtain ⟨after, told⟩ := recall_locates inside
  obtain ⟨after', told'⟩ := recall_locates inside'
  rw [told, told'] at same
  have code : located choice = located other := (Prod.mk.inj (Except.ok.inj same)).1
  cases choice <;> cases other <;> simp only [located] at code ⊢ <;> first | omega | (congr 1; omega)

/-- The entries that are compared, from the last one downwards. -/
theorem searched_iff {idx : Nat} : idx < (lastIndex history + 1).toNat ↔
    (idx : Int) ≤ lastIndex history := by
  omega

/-- With a text, the choice is what the loop finds. -/
theorem handleLatestSimilar_text (nonempty : text ≠ []) (again : Exec) (st : State) :
    handleLatestSimilar again ('!' :: text) st =
      recalled again st (latestSimilar text st.history (lastIndex st.history + 1).toNat) := by
  rw [handleLatestSimilar]
  show (if text = [] then _ else _) = _
  rw [if_neg nonempty]
  cases found : latestSimilar text st.history (lastIndex st.history + 1).toNat with
  | none =>
    show (match latestSimilar text st.history (lastIndex st.history + 1).toNat with
      | some idx => _ | none => _) = _
    rw [found]
    rfl
  | some idx =>
    show (match latestSimilar text st.history (lastIndex st.history + 1).toNat with
      | some idx => _ | none => _) = _
    rw [found]
    rfl

theorem Latest.inside {Holds : Nat → Prop} {count : Nat} (latest : Latest Holds count choice) :
    ∀ idx, choice = some idx → idx < count := by
  rintro idx rfl
  exact latest.1

/-- With a text, the search is right if what is not searched does not matter. -/
theorem recalls_text_iff (nonempty : text ≠ []) (unspaced : ' ' ∉ text) :
    Recalls text st ↔ Findable text st.history := by
  have below := lastIndex_lt st.history
  have searched := latestSimilar_latest text st.history (lastIndex st.history + 1).toNat
  have agrees := @latest_agrees_iff _ (fun idx => text <+: st.history.getD idx []) _
    st.history.length _ (by omega) (fun idx => prefix_unspaced unspaced) searched
  simp only [searched_iff] at agrees
  constructor
  · intro recalls
    obtain ⟨choice, latest, same⟩ := recalls locates
    rw [handleLatestSimilar_text nonempty] at same
    have found := recall_injective (fun idx found => Nat.lt_of_lt_of_le (searched.inside idx found)
      (by omega)) latest.inside same
    rw [← found] at latest
    obtain ⟨reached, spaced⟩ := agrees.mp latest
    exact ⟨fun empty => absurd empty nonempty, reached, spaced⟩
  · intro findable again
    exact ⟨_, agrees.mpr ⟨findable.reached, findable.spaced⟩, handleLatestSimilar_text nonempty _ _⟩

/-- The latest entry of all is the last one. -/
theorem latest_last (some_entry : history ≠ []) :
    Latest (fun idx => [] <+: history.getD idx []) history.length (some (history.length - 1)) := by
  have positive := List.length_pos_of_ne_nil some_entry
  exact ⟨by omega, List.nil_prefix, fun later behind below => absurd behind (by omega)⟩

/-- Without a text, the last entry has to be there, and its index to be an `int`. -/
theorem recalls_bare_iff : Recalls [] st ↔ Findable [] st.history := by
  have below := lastIndex_lt st.history
  constructor
  · intro recalls
    obtain ⟨choice, latest, same⟩ := recalls locates
    obtain ⟨after, told⟩ := recall_locates latest.inside
    change (if lastIndex st.history < 0 then _ else _) = _ at same
    split at same
    · rw [told] at same
      cases same
    · rename_i positive
      have some_entry : st.history ≠ [] := fun empty => positive (by rw [empty]; decide)
      -- Two indices that recall the same are the same.
      have last := latest.unique (latest_last some_entry)
      have found : some (lastIndex st.history).toNat = choice := by
        refine @recall_injective st _ _ (fun idx found => ?_) latest.inside same
        rw [← Option.some.inj found]
        omega
      rw [last] at found
      have index := Option.some.inj found
      exact ⟨fun _ => some_entry, fun idx inside _ => by omega,
        fun idx _ _ other => absurd List.nil_prefix other⟩
  · intro findable again
    have some_entry := findable.some_entry rfl
    have positive := List.length_pos_of_ne_nil some_entry
    have reached := findable.reached (st.history.length - 1) (by omega) List.nil_prefix
    have index : (lastIndex st.history).toNat = st.history.length - 1 := by omega
    refine ⟨_, latest_last some_entry, ?_⟩
    show (if lastIndex st.history < 0 then _ else _) = _
    rw [if_neg (by omega), index]
    rfl

/-- `!prefix` does what it is for exactly if what it looks for is findable. -/
theorem recalls_iff (unspaced : ' ' ∉ text) : Recalls text st ↔ Findable text st.history := by
  by_cases bare : text = []
  · subst bare
    exact recalls_bare_iff
  · exact recalls_text_iff bare unspaced

/-- `!l` finds the `ls` that was entered before `pwd`. -/
theorem recalls_iff_ls :
    Recalls ['l'] { sampleState [] with history := [['l', 's'], ['p', 'w', 'd']] } := by
  refine (recalls_iff (by decide)).mpr ⟨by decide, fun idx inside _ => ?_, fun idx => ?_⟩
  · rw [lastIndex_eq (by decide)]
    exact Int.le_sub_one_of_lt (Int.ofNat_lt.mpr inside)
  · intro reached starts other
    rw [lastIndex_eq (by decide)] at reached
    -- Of the two entries, one starts with the text, and one not even without its spaces.
    rcases idx with _ | _ | idx
    · exact absurd (by decide) other
    · exact absurd starts (by decide)
    · simp only [List.length_cons, List.length_nil] at reached
      omega

/-- Without any history, `!` reads an entry that is not there. -/
theorem empty_history_crashes : ¬ ∀ (text : Line) (st : State), ' ' ∉ text → Recalls text st := by
  intro claim
  obtain ⟨choice, latest, same⟩ := claim [] (sampleState []) (by simp) locates
  cases choice with
  | none => cases same
  | some idx => exact absurd latest.1 (Nat.not_lt_zero idx)

end Recall

end SystemProgramming.Shell
