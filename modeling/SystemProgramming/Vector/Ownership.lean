import SystemProgramming.Vector.Contents

/-! What the constructors made and the destructor got: which elements a vector owns, and when. -/

namespace SystemProgramming.Vector

open Foundations Foundations.Lifetimes

variable {Value : Type*} {callbacks : Callbacks Value} {st st' next : State Value} {i j n : Nat}
  {object : Object Value} {element : Element Value} {value : Value} {inside within : Nat → Prop}
  {Allows Permitted : Prop}

/-- The slot holds an element that is alive. -/
def State.AliveAt (st : State Value) (i : Nat) : Prop :=
  ∃ element, st.slotAt i = some element ∧ Alive st.lives element

/-- The given slots hold elements that are alive; no two slots share one, and serials are not reused. -/
structure Held (inside : Nat → Prop) (st : State Value) : Prop where
  created : ∀ i element, st.slotAt i = some element → Created st.lives element
  distinct : ∀ i j element, st.slotAt i = some element → st.slotAt j = some element → i = j
  numbered : ∀ element, Created st.lives element → element.serial < st.made
  ended : ∀ element, Ended st.lives element → Created st.lives element
  held : ∀ i, inside i → st.AliveAt i

/-- Every element that is alive is in one of the given slots. -/
def Covered (inside : Nat → Prop) (st : State Value) : Prop :=
  ∀ element, Alive st.lives element → ∃ i, inside i ∧ st.slotAt i = some element

/-- What happened in between was permitted exactly under a condition. -/
def Adds (st next : State Value) (Allows : Prop) : Prop :=
  ∃ new, next.lives = st.lives ++ new ∧ (SoundAfter st.lives new ↔ Allows)

/-- From the given slots to others: what happened was permitted exactly under a condition. -/
structure Moves (inside : Nat → Prop) (st : State Value) (Allows : Prop) (within : Nat → Prop)
    (next : State Value) : Prop where
  held : Held within next
  covered : Covered inside st → Covered within next
  adds : Adds st next Allows

section Composition

/-- Two moves are permitted where both are. -/
theorem Moves.trans {middle : Nat → Prop} (first : Moves inside st Allows middle st')
    (second : Moves middle st' Permitted within next) :
    Moves inside st (Allows ∧ Permitted) within next := by
  obtain ⟨new, grown, sound⟩ := first.adds
  obtain ⟨more, further, soundToo⟩ := second.adds
  refine ⟨second.held, fun covered => second.covered (first.covered covered), new ++ more, ?_, ?_⟩
  · rw [further, grown, List.append_assoc]
  · rw [soundAfter_append_iff, sound, ← grown, soundToo]

/-- The condition of a move, said in another way. -/
theorem Moves.congr (moves : Moves inside st Allows within next) (same : Allows ↔ Permitted) :
    Moves inside st Permitted within next := by
  obtain ⟨new, grown, sound⟩ := moves.adds
  exact ⟨moves.held, moves.covered, new, grown, sound.trans same⟩

/-- The slots of a move, said in another way. -/
theorem Moves.of_iff {others : Nat → Prop} (moves : Moves inside st Allows within next)
    (same : ∀ i, others i ↔ within i) : Moves inside st Allows others next := by
  obtain rfl : others = within := funext fun i => propext (same i)
  exact moves

/-- Nothing happened, and the slots hold what they did. -/
theorem Held.moves (held : Held inside st) (next : State Value) (slots : next.slotAt = st.slotAt)
    (lives : next.lives = st.lives) (made : next.made = st.made) :
    Moves inside st True inside next := by
  refine ⟨⟨?_, ?_, ?_, ?_, ?_⟩, ?_, [], by rw [lives, List.append_nil], by simp⟩
  · rw [slots, lives]
    exact held.created
  · rw [slots]
    exact held.distinct
  · rw [lives, made]
    exact held.numbered
  · rw [lives]
    exact held.ended
  · intro i member
    rw [State.AliveAt, slots, lives]
    exact held.held i member
  · intro covered
    rw [Covered, slots, lives]
    exact covered

/-- Fewer slots hold elements that are alive. -/
theorem Held.mono (held : Held inside st) (fewer : ∀ i, within i → inside i) : Held within st :=
  ⟨held.created, held.distinct, held.numbered, held.ended, fun i member =>
    held.held i (fewer i member)⟩

end Composition

section Primitives

/-- The destructor call of a slot. -/
theorem lives_of_destroyAt (done : st.destroyAt i = some next) :
    next.lives = st.lives ++ [.ends (st.slotAt i)] ∧ next.made = st.made := by
  rw [State.destroyAt, Option.map_eq_some_iff] at done
  obtain ⟨slot, found, rfl⟩ := done
  rw [State.slotAt, found]
  exact ⟨rfl, rfl⟩

/-- The constructor call for a slot. -/
theorem lives_of_construct (done : st.construct i value object.reads = some next) :
    next.lives = st.lives ++ (object.reads ++ [.creates ⟨st.made, value⟩]) ∧
      next.made = st.made + 1 := by
  rw [State.construct] at done
  split at done
  · obtain rfl := Option.some.inj done
    exact ⟨rfl, rfl⟩
  · cases done

@[simp] theorem not_created_reads : ¬ Created object.reads element := by
  cases object <;> simp [Object.reads, Created]

@[simp] theorem not_ended_reads : ¬ Ended object.reads element := by
  cases object <;> simp [Object.reads, Ended]

/-- Reading is permitted for what was not ended. -/
theorem soundAfter_reads_iff {history : List (Event (Element Value))} :
    SoundAfter history object.reads ↔
      ∀ element, object = .stored element → ¬ Ended history element := by
  cases object with
  | foreign value => simp [Object.reads]
  | stored element => simp [Object.reads, Permits]

/-- Destroying the element of a slot is permitted if it is alive, and takes the slot away. -/
theorem Held.destroyAt (held : Held inside st) (done : st.destroyAt i = some next) :
    Moves inside st (st.AliveAt i) (fun j => inside j ∧ j ≠ i) next := by
  obtain ⟨_, slots⟩ := destroyAt_kept done
  obtain ⟨lives, made⟩ := lives_of_destroyAt done
  have created (element : Element Value) :
      Created next.lives element ↔ Created st.lives element := by
    rw [lives]
    simp [Created]
  have ended (element : Element Value) :
      Ended next.lives element ↔ Ended st.lives element ∨ st.slotAt i = some element := by
    rw [lives]
    simp [Ended, eq_comm]
  refine ⟨⟨?_, ?_, ?_, ?_, ?_⟩, ?_, [.ends (st.slotAt i)], lives, ?_⟩
  · intro j element holds
    exact (created element).mpr (held.created j element (slots ▸ holds))
  · rw [slots]
    exact held.distinct
  · intro element made_it
    rw [made]
    exact held.numbered element ((created element).mp made_it)
  · intro element gone
    rw [created]
    rcases (ended element).mp gone with before | now
    · exact held.ended element before
    · exact held.created i element now
  · rintro j ⟨member, apart⟩
    obtain ⟨element, holds, alive, running⟩ := held.held j member
    refine ⟨element, slots ▸ holds, (created element).mpr alive, fun gone => ?_⟩
    -- No two slots share an element, so that of the other slot goes on.
    rcases (ended element).mp gone with before | now
    · exact running before
    · exact apart (held.distinct j i element holds now)
  · rintro covered element ⟨alive, running⟩
    rw [ended, not_or] at running
    obtain ⟨j, member, holds⟩ := covered element ⟨(created element).mp alive, running.1⟩
    refine ⟨j, ⟨member, fun same => ?_⟩, slots ▸ holds⟩
    exact running.2 (same ▸ holds)
  · simp [Permits, State.AliveAt]

/-- A new element is alive in its slot; reading its original is permitted if that was not ended. -/
theorem Held.construct (held : Held inside st) (object : Object Value) (empty : ¬ inside i)
    (done : st.construct i value object.reads = some next) :
    Moves inside st (∀ element, object = .stored element → ¬ Ended st.lives element)
      (fun j => inside j ∨ j = i) next := by
  obtain ⟨_, slots⟩ := construct_kept done
  obtain ⟨lives, made⟩ := lives_of_construct done
  have created (element : Element Value) :
      Created next.lives element ↔ Created st.lives element ∨ element = ⟨st.made, value⟩ := by
    rw [lives]
    cases object <;> simp [Created, Object.reads]
  have ended (element : Element Value) : Ended next.lives element ↔ Ended st.lives element := by
    rw [lives]
    cases object <;> simp [Ended, Object.reads]
  -- The serial of the new element is larger than all before.
  have fresh : ¬ Created st.lives (⟨st.made, value⟩ : Element Value) := fun old =>
    Nat.lt_irrefl _ (held.numbered _ old)
  have slot (j : Nat) (element : Element Value) (holds : next.slotAt j = some element) :
      (j = i ∧ element = ⟨st.made, value⟩) ∨ (j ≠ i ∧ st.slotAt j = some element) := by
    rw [slots, Function.update_apply] at holds
    split at holds
    · rename_i same
      exact .inl ⟨same, (Option.some.inj holds).symm⟩
    · rename_i apart
      exact .inr ⟨apart, holds⟩
  refine ⟨⟨?_, ?_, ?_, ?_, ?_⟩, ?_, object.reads ++ [.creates ⟨st.made, value⟩], lives, ?_⟩
  · intro j element holds
    rw [created]
    rcases slot j element holds with ⟨_, new⟩ | ⟨_, old⟩
    · exact .inr new
    · exact .inl (held.created j element old)
  · intro j k element one two
    rcases slot j element one with ⟨atJ, newJ⟩ | ⟨_, oldJ⟩ <;>
      rcases slot k element two with ⟨atK, newK⟩ | ⟨_, oldK⟩
    · rw [atJ, atK]
    · exact absurd (newJ ▸ held.created k element oldK) fresh
    · exact absurd (newK ▸ held.created j element oldJ) fresh
    · exact held.distinct j k element oldJ oldK
  · intro element made_it
    rw [made]
    rcases (created element).mp made_it with old | rfl
    · exact Nat.lt_succ_of_lt (held.numbered element old)
    · exact Nat.lt_succ_self _
  · intro element gone
    exact (created element).mpr (.inl (held.ended element ((ended element).mp gone)))
  · intro j member
    by_cases same : j = i
    · refine ⟨⟨st.made, value⟩, ?_, (created _).mpr (.inr rfl), fun gone => ?_⟩
      · rw [slots, same, Function.update_self]
      · exact fresh (held.ended _ ((ended _).mp gone))
    · obtain ⟨element, holds, alive, running⟩ := held.held j (member.resolve_right same)
      refine ⟨element, ?_, (created _).mpr (.inl alive), fun gone => running ((ended _).mp gone)⟩
      rw [slots, Function.update_of_ne same, holds]
  · rintro covered element ⟨alive, running⟩
    rcases (created element).mp alive with old | rfl
    · -- The slot that is written was not one of those that cover what is alive.
      obtain ⟨j, member, holds⟩ := covered element ⟨old, fun gone => running ((ended _).mpr gone)⟩
      refine ⟨j, .inl member, ?_⟩
      rw [slots, Function.update_of_ne, holds]
      exact fun same => empty (same ▸ member)
    · exact ⟨i, .inr rfl, by rw [slots, Function.update_self]⟩
  · rw [soundAfter_append_iff, soundAfter_reads_iff]
    simp [Permits]

/-- Replacing the element of a slot by a copy of another that is alive. -/
theorem Held.replaceSlot (held : Held inside st) (apart : j ≠ i) (source : inside j)
    (done : st.replaceSlot callbacks i j = some next) :
    Moves inside st (st.AliveAt i) (fun k => inside k ∨ k = i) next := by
  obtain ⟨middle, destroyed, copied⟩ := Option.bind_eq_some_iff.mp done
  have first := held.destroyAt destroyed
  obtain ⟨element, holds, _, running⟩ := first.held.held j ⟨source, apart⟩
  rw [copySlot_eq holds] at copied
  have second := first.held.construct _ (fun both => both.2 rfl) copied
  refine ((first.trans second).congr ?_).of_iff fun k => ?_
  · -- The original is alive, since it is in another slot.
    refine and_iff_left fun other same => ?_
    obtain rfl := Object.stored.inj same
    exact running
  · by_cases same : k = i <;> simp [same]

/-- What is ended in a turn of a shifting loop is what was in the slot. -/
theorem ended_replaceSlot (done : st.replaceSlot callbacks i j = some next) :
    Ended next.lives element ↔ Ended st.lives element ∨ st.slotAt i = some element := by
  obtain ⟨middle, destroyed, copied⟩ := Option.bind_eq_some_iff.mp done
  obtain ⟨source, holds⟩ := slotAt_of_copySlot copied
  rw [copySlot_eq holds] at copied
  rw [(lives_of_construct copied).1, (lives_of_destroyAt destroyed).1]
  simp [Ended, Object.reads, eq_comm]

/-- A turn of a shifting loop writes its slot only. -/
theorem slotAt_replaceSlot (done : st.replaceSlot callbacks i j = some next) {k : Nat}
    (apart : k ≠ i) : next.slotAt k = st.slotAt k := by
  obtain ⟨middle, destroyed, copied⟩ := Option.bind_eq_some_iff.mp done
  obtain ⟨source, holds⟩ := slotAt_of_copySlot copied
  rw [copySlot_eq holds] at copied
  rw [(construct_kept copied).2, Function.update_of_ne apart, (destroyAt_kept destroyed).2]

end Primitives

section Operations

/-- A loop that destroys some of the slots with elements that are alive. -/
theorem Held.destroys {first last : Nat} (held : Held inside st) (ordered : first ≤ last)
    (members : ∀ i, first ≤ i → i < last → inside i)
    (done : forUp State.destroyAt first last st = some next) :
    Moves inside st True (fun j => inside j ∧ ¬ (first ≤ j ∧ j < last)) next := by
  refine forUp_carries (fun i now => Moves inside st True
    (fun j => inside j ∧ ¬ (first ≤ j ∧ j < i)) now) ordered ?_ ?_ done
  · refine (held.moves _ rfl rfl rfl).of_iff fun j => and_iff_left ?_
    omega
  · intro i now next lower below moves turned
    have alive : now.AliveAt i := moves.held.held i ⟨members i lower below, by omega⟩
    refine ((moves.trans (moves.held.destroyAt turned)).congr ?_).of_iff fun j => ?_
    · exact iff_of_true ⟨trivial, alive⟩ trivial
    · rw [and_assoc]
      refine and_congr_right fun _ => ?_
      omega

/-- A loop that fills the slots behind those that hold elements. -/
theorem Held.defaults {first last : Nat} (held : Held (· < first) st) (ordered : first ≤ last)
    (done : forUp (State.defaultAt callbacks) first last st = some next) :
    Moves (· < first) st True (· < last) next := by
  refine forUp_carries (fun i now => Moves (· < first) st True (· < i) now) ordered
    (held.moves _ rfl rfl rfl) ?_ done
  intro i now next _ _ moves turned
  -- A default is made of nothing, so nothing is read.
  have more := moves.held.construct (.foreign callbacks.defaultConstructor)
    (Nat.lt_irrefl i) turned
  refine ((moves.trans more).congr ?_).of_iff fun j => ?_
  · exact iff_of_true ⟨trivial, fun _ same => by cases same⟩ trivial
  · omega

/-- A vector that has grown holds the same elements. -/
theorem Held.grown {m : Nat} (held : Held inside st) (grown : Grown m st next) :
    Moves inside st True inside next :=
  held.moves next grown.slots grown.lives grown.made

/-- `vector_erase` destroys and copies elements that are alive. -/
theorem Held.erase {position : Nat} (held : Held (· < st.size) st)
    (done : vectorErase callbacks position st = some next) :
    Moves (· < st.size) st True (· < next.size) next := by
  rw [vectorErase] at done
  split at done
  · cases done
  · rename_i outside
    obtain ⟨shifted, looped, destroyed⟩ := Option.bind_eq_some_iff.mp done
    have size : shifted.size = st.size - 1 := forUp_keeps (fun now => now.size = st.size - 1)
      rfl (fun _ _ _ same turned => (replaceSlot_kept turned).size.trans same) looped
    -- Every turn leaves an element that is alive in its slot.
    have loop : Moves (· < st.size) st True (· < st.size) shifted := by
      have shorter := held.moves { st with size := st.size - 1 } rfl rfl rfl
      refine forUp_carries (fun _ now => Moves (· < st.size) st True (· < st.size) now)
        (show position ≤ st.size - 1 by omega) shorter ?_ looped
      intro i now next lower below moves turned
      have alive := moves.held.held i (show i < st.size by omega)
      have turn := moves.held.replaceSlot (show i + 1 ≠ i by omega)
        (show i + 1 < st.size by omega) turned
      refine ((moves.trans turn).congr (iff_of_true ⟨trivial, alive⟩ trivial)).of_iff fun k => ?_
      omega
    rw [size] at destroyed
    have last := loop.held.destroyAt destroyed
    have alive := loop.held.held (st.size - 1) (by omega)
    refine ((loop.trans last).congr (iff_of_true ⟨trivial, alive⟩ trivial)).of_iff fun k => ?_
    rw [(destroyAt_kept destroyed).1.size, size]
    omega

/-- `vector_pop_back` destroys the last element. -/
theorem Held.popBack (held : Held (· < st.size) st) (done : vectorPopBack st = some next) :
    Moves (· < st.size) st True (· < next.size) next := by
  rw [vectorPopBack] at done
  split at done
  · cases done
  · rename_i occupied
    have shorter : Moves (· < st.size) st True (· < st.size) { st with size := st.size - 1 } :=
      held.moves _ rfl rfl rfl
    have last := shorter.held.destroyAt done
    have alive := shorter.held.held (st.size - 1) (by omega)
    refine ((shorter.trans last).congr (iff_of_true ⟨trivial, alive⟩ trivial)).of_iff fun k => ?_
    rw [(destroyAt_kept done).1.size]
    show k < st.size - 1 ↔ _
    omega

/-- `vector_clear` destroys all elements. -/
theorem Held.clear (held : Held (· < st.size) st) (done : vectorClear st = some next) :
    Moves (· < st.size) st True (· < next.size) next := by
  obtain ⟨emptied, looped, rfl⟩ := Option.map_eq_some_iff.mp done
  have loop := held.destroys (Nat.zero_le _) (fun _ _ below => below) looped
  have cut := loop.held.moves { emptied with size := 0 } rfl rfl rfl
  refine ((loop.trans cut).congr (and_self_iff)).of_iff fun k => ?_
  show k < 0 ↔ _
  omega

/-- `vector_set` reads its argument after it has destroyed the element at the position. -/
theorem Held.set {position : Nat} (held : Held (· < st.size) st)
    (valid : object.Valid st) (done : vectorSet callbacks position object st = some next) :
    Moves (· < st.size) st
      (∀ element, object = .stored element → st.slotAt position ≠ some element)
      (· < next.size) next := by
  rw [vectorSet] at done
  split at done
  · cases done
  · rename_i outside
    obtain ⟨emptied, destroyed, copied⟩ := Option.bind_eq_some_iff.mp done
    have first := held.destroyAt destroyed
    have second := first.held.construct _ (fun both => both.2 rfl) copied
    have size : next.size = st.size :=
      (construct_kept copied).1.size.trans (destroyAt_kept destroyed).1.size
    refine ((first.trans second).congr ?_).of_iff fun k => ?_
    · rw [and_iff_right (held.held position (by omega)), (lives_of_destroyAt destroyed).1]
      refine forall₂_congr fun element same => ?_
      subst same
      -- The argument was alive, so it is ended now only if it is what the slot held.
      have running := valid.2
      simp only [Ended, List.mem_append, List.mem_singleton, Event.ends.injEq] at running ⊢
      rw [or_iff_right running, eq_comm]
    · rw [size]
      omega

/-- `vector_push_back` reads its argument. -/
theorem Held.pushBack (held : Held (· < st.size) st) (valid : object.Valid st)
    (allocated : st.array.length = st.capacity)
    (done : vectorPushBack callbacks object st = some next)
    (given : next.array.length = next.capacity) :
    Moves (· < st.size) st True (· < next.size) next := by
  obtain ⟨larger, enlarged, copied⟩ := Option.bind_eq_some_iff.mp done
  have kept := (construct_kept copied).1
  obtain ⟨grown, size⟩ := enlarge_grown allocated enlarged (kept.allocated given)
  rw [size, Nat.add_sub_cancel] at copied
  have first := held.grown grown
  have second := first.held.construct object (Nat.lt_irrefl st.size) copied
  refine ((first.trans second).congr ?_).of_iff fun k => ?_
  · rw [grown.lives]
    refine iff_of_true ⟨trivial, fun element same => ?_⟩ trivial
    subst same
    exact valid.2
  · rw [kept.size, size]
    omega

/-- The argument of `vector_insert` is none of the elements that it destroys before it reads it. -/
def Spared (st : State Value) (position : Nat) (object : Object Value) : Prop :=
  ∀ element, object = .stored element →
    ∀ i, position ≤ i → i ≤ st.size → st.slotAt i ≠ some element

/-- The shifting loop of `vector_insert`, before its turn for an index, in a vector of `n` elements. -/
structure Shifting (larger : State Value) (n i : Nat) (now : State Value) : Prop where
  -- Only the first turn destroys what the slot behind the last element holds.
  moves : Moves (· < n) larger (i < n → larger.AliveAt n) (fun j => j < n ∨ (i < n ∧ j = n)) now
  same : ∀ j, j ≤ i → now.slotAt j = larger.slotAt j
  ended : ∀ element, Ended now.lives element ↔
    Ended larger.lives element ∨ ∃ j, i < j ∧ j ≤ n ∧ larger.slotAt j = some element

/-- Whether a slot holds what is alive depends on the slot and on what was created and ended. -/
theorem aliveAt_congr {larger now : State Value} (slot : now.slotAt i = larger.slotAt i)
    (created : ∀ element, now.slotAt i = some element → Created now.lives element)
    (before : ∀ element, larger.slotAt i = some element → Created larger.lives element)
    (ended : ∀ element, Ended now.lives element ↔ Ended larger.lives element) :
    now.AliveAt i ↔ larger.AliveAt i := by
  rw [State.AliveAt, State.AliveAt]
  refine exists_congr fun element => ?_
  constructor
  · intro ⟨holds, _, running⟩
    have there := slot ▸ holds
    exact ⟨there, before element there, fun gone => running ((ended element).mpr gone)⟩
  · intro ⟨holds, _, running⟩
    have there := slot.trans holds
    exact ⟨there, created element there, fun gone => running ((ended element).mp gone)⟩

/-- Before its first turn, the loop has done nothing. -/
theorem Held.shifting {larger : State Value} (held : Held (· < n) larger) :
    Shifting larger n n larger := by
  refine ⟨?_, fun _ _ => rfl, fun element => ?_⟩
  · refine ((held.moves _ rfl rfl rfl).congr ?_).of_iff fun j => ?_
    · exact iff_of_true trivial fun below => absurd below (Nat.lt_irrefl _)
    · omega
  · refine (or_iff_left ?_).symm
    rintro ⟨j, above, upto, _⟩
    omega

/-- A turn of the loop goes on to the index below. -/
theorem Shifting.turn {larger now : State Value} (held : Held (· < n) larger) (below : i + 1 ≤ n)
    (shifting : Shifting larger n (i + 1) now)
    (turned : now.replaceSlot callbacks (i + 1) i = some next) : Shifting larger n i next := by
  obtain ⟨moves, same, ended⟩ := shifting
  have turn := moves.held.replaceSlot (by omega) (.inl (by omega)) turned
  refine ⟨((moves.trans turn).congr ?_).of_iff fun j => ?_, fun j upto => ?_, fun element => ?_⟩
  · rcases Nat.lt_or_ge (i + 1) n with inner | first
    · -- The slot of a later turn holds an element of the vector.
      rw [and_iff_left (moves.held.held (i + 1) (.inl inner))]
      exact ⟨fun allowed _ => allowed inner, fun allowed _ => allowed (by omega)⟩
    · obtain rfl : n = i + 1 := by omega
      -- Nothing was ended before the first turn.
      have none (element : Element Value) :
          Ended now.lives element ↔ Ended larger.lives element := by
        rw [ended]
        refine or_iff_left ?_
        rintro ⟨j, above, upto, _⟩
        omega
      rw [aliveAt_congr (same (i + 1) (Nat.le_refl _)) (moves.held.created _) (held.created _) none]
      exact ⟨fun allowed _ => allowed.2, fun allowed => ⟨fun _ => allowed (by omega),
        allowed (by omega)⟩⟩
  · omega
  · rw [slotAt_replaceSlot turned (by omega), same j (by omega)]
  · rw [ended_replaceSlot turned, ended, same (i + 1) (Nat.le_refl _), or_assoc]
    refine or_congr_right ⟨?_, ?_⟩
    · rintro (⟨j, above, upto, holds⟩ | holds)
      · exact ⟨j, by omega, upto, holds⟩
      · exact ⟨i + 1, by omega, below, holds⟩
    · rintro ⟨j, above, upto, holds⟩
      by_cases here : j = i + 1
      · exact .inr (here ▸ holds)
      · exact .inl ⟨j, by omega, upto, holds⟩

/-- `vector_insert`, with the states between its parts. -/
structure Inserting (callbacks : Callbacks Value) (position : Nat) (object : Object Value)
    (st larger shifted emptied next : State Value) : Prop where
  within : position ≤ st.size
  grown : Grown (st.size + 1) st larger
  looped : forDown (fun i => State.replaceSlot callbacks i (i - 1)) position st.size larger =
    some shifted
  shifting : Shifting larger st.size position shifted
  destroyed : shifted.destroyAt position = some emptied
  copied : emptied.copyTo callbacks position object = some next
  size : next.size = st.size + 1

/-- An insertion that returns consists of these parts. -/
theorem Held.inserting {position : Nat} (held : Held (· < st.size) st)
    (allocated : st.array.length = st.capacity)
    (done : vectorInsert callbacks position object st = some next)
    (given : next.array.length = next.capacity) :
    ∃ larger shifted emptied, Inserting callbacks position object st larger shifted emptied next := by
  rw [vectorInsert] at done
  split at done
  · cases done
  · rename_i outside
    obtain ⟨larger, enlarged, rest⟩ := Option.bind_eq_some_iff.mp done
    obtain ⟨shifted, looped, rest⟩ := Option.bind_eq_some_iff.mp rest
    obtain ⟨emptied, destroyed, copied⟩ := Option.bind_eq_some_iff.mp rest
    have kept : Kept larger next := inserting_kept looped destroyed copied
    obtain ⟨grown, size⟩ := enlarge_grown allocated enlarged (kept.allocated given)
    have first := held.grown grown
    rw [size, Nat.add_sub_cancel] at looped
    -- The loop, down to the position.
    have shifting : Shifting larger st.size position shifted :=
      forDown_carries (Shifting larger st.size) (by omega) first.held.shifting
        (fun i now after _ below shifting turned => shifting.turn first.held below turned) looped
    exact ⟨larger, shifted, emptied, by omega, grown, looped, shifting, destroyed, copied,
      kept.size.trans size⟩

section Inserting

variable {position : Nat} {larger shifted emptied : State Value}
  (inserting : Inserting callbacks position object st larger shifted emptied next)

include inserting

/-- Before it copies its argument, `vector_insert` ends all elements from the position on. -/
theorem Inserting.ended_iff : Ended emptied.lives element ↔ Ended st.lives element ∨
    ∃ i, position ≤ i ∧ i ≤ st.size ∧ st.slotAt i = some element := by
  obtain ⟨within, grown, -, shifting, destroyed, -, -⟩ := inserting
  have last : Ended emptied.lives element ↔ Ended shifted.lives element ∨
      shifted.slotAt position = some element := by
    rw [(lives_of_destroyAt destroyed).1]
    simp [Ended, eq_comm]
  rw [last, shifting.ended, grown.lives, shifting.same position (Nat.le_refl _), grown.slots, or_assoc]
  refine or_congr_right ⟨?_, ?_⟩
  · rintro (⟨i, above, upto, holds⟩ | holds)
    · exact ⟨i, by omega, upto, holds⟩
    · exact ⟨position, Nat.le_refl _, within, holds⟩
  · rintro ⟨i, lower, upper, holds⟩
    rcases Nat.lt_or_eq_of_le lower with above | rfl
    · exact .inl ⟨i, above, upper, holds⟩
    · exact .inr holds

/-- So its argument goes on until it is copied exactly if it is spared. -/
theorem Inserting.spared_iff (valid : object.Valid st) :
    (∀ element, object = .stored element → ¬ Ended emptied.lives element) ↔
      Spared st position object := by
  rw [Spared]
  refine forall₂_congr fun element same => ?_
  subst same
  have running : ¬ Ended st.lives element := valid.2
  rw [inserting.ended_iff, or_iff_right running]
  simp only [not_exists, not_and]

/-- The slot behind the last element is destroyed by the loop, or at the position. -/
theorem Inserting.alive_iff (held : Held (· < st.size) st) :
    ((position < st.size → larger.AliveAt st.size) ∧ shifted.AliveAt position) ↔
      st.AliveAt st.size := by
  obtain ⟨within, grown, -, shifting, -, -, -⟩ := inserting
  have slot : larger.AliveAt st.size ↔ st.AliveAt st.size := by
    rw [State.AliveAt, State.AliveAt, grown.slots, grown.lives]
  rcases Nat.lt_or_ge position st.size with inner | last
  · rw [and_iff_left (shifting.moves.held.held position (.inl inner)), slot]
    exact ⟨fun allowed => allowed inner, fun allowed _ => allowed⟩
  · obtain rfl : position = st.size := by omega
    have none (element : Element Value) :
        Ended shifted.lives element ↔ Ended larger.lives element := by
      rw [shifting.ended]
      refine or_iff_left ?_
      rintro ⟨j, above, upto, _⟩
      omega
    rw [aliveAt_congr (shifting.same _ (Nat.le_refl _)) (shifting.moves.held.created _)
      ((held.grown grown).held.created _) none, slot]
    exact and_iff_right fun below => absurd below (Nat.lt_irrefl _)

end Inserting

/--
`vector_insert` destroys what is in the slot behind the last element, whatever that is, and reads its
argument only after it has destroyed all elements from the position on.
-/
theorem Held.insert {position : Nat} (held : Held (· < st.size) st) (valid : object.Valid st)
    (allocated : st.array.length = st.capacity)
    (done : vectorInsert callbacks position object st = some next)
    (given : next.array.length = next.capacity) :
    Moves (· < st.size) st (st.AliveAt st.size ∧ Spared st position object) (· < next.size) next := by
  obtain ⟨larger, shifted, emptied, inserting⟩ := held.inserting allocated done given
  have within := inserting.within
  have first := held.grown inserting.grown
  have loop := inserting.shifting.moves
  have second := loop.held.destroyAt inserting.destroyed
  have third := second.held.construct object (fun both => both.2 rfl) inserting.copied
  refine ((first.trans ((loop.trans second).trans third)).congr ?_).of_iff fun k => ?_
  · rw [and_iff_right trivial]
    exact and_congr (inserting.alive_iff held) (inserting.spared_iff valid)
  · rw [inserting.size]
    omega

/-- `vector_resize` to the present size or a larger one makes defaults only. -/
theorem Held.resize (held : Held (· < st.size) st) (allocated : st.array.length = st.capacity)
    (more : st.size ≤ n) (done : vectorResize callbacks n st = some next)
    (given : next.array.length = next.capacity) :
    Moves (· < st.size) st True (· < next.size) next := by
  rcases Nat.lt_or_eq_of_le more with larger | rfl
  · rw [vectorResize_larger larger] at done
    obtain ⟨roomy, reserved, filled⟩ := Option.bind_eq_some_iff.mp done
    obtain ⟨full, looped, rfl⟩ := Option.map_eq_some_iff.mp filled
    have kept : Kept roomy full := defaults_kept looped
    obtain ⟨grown, size⟩ := vectorReserve_grown allocated reserved (kept.allocated given)
    have first := held.grown grown
    have second := first.held.defaults more looped
    have third := second.held.moves { full with size := n } rfl rfl rfl
    exact ((first.trans second).trans third).congr (by simp)
  · rw [vectorResize, if_pos (Nat.le_refl _), forUp_of_le (by omega)] at done
    obtain rfl := Option.some.inj done
    exact held.moves _ rfl rfl rfl

/-- `vector_resize` to a smaller size destroys the elements behind the one at the new size. -/
theorem Held.shrink (held : Held (· < st.size) st) (less : n < st.size)
    (done : vectorResize callbacks n st = some next) :
    next.size = n ∧ Moves (· < st.size) st True (· < n + 1) next := by
  rw [vectorResize, if_pos (Nat.le_of_lt less)] at done
  obtain ⟨emptied, looped, rfl⟩ := Option.map_eq_some_iff.mp done
  have first := held.destroys less (fun _ _ below => below) looped
  have second := first.held.moves { emptied with size := n } rfl rfl rfl
  refine ⟨rfl, ((first.trans second).congr and_self_iff).of_iff fun k => ?_⟩
  omega

/-- The element at the new size is alive, and the vector does not store it any more. -/
theorem Held.shrink_leaks (held : Held (· < st.size) st) (less : n < st.size)
    (done : vectorResize callbacks n st = some next) : ¬ Covered (· < next.size) next := by
  obtain ⟨size, moves⟩ := held.shrink less done
  intro covered
  obtain ⟨element, holds, alive⟩ := moves.held.held n (Nat.lt_succ_self n)
  obtain ⟨i, below, there⟩ := covered element alive
  have same := moves.held.distinct i n element there holds
  omega

/-- A call that does not destroy what is not alive, nor reads its argument after destroying it. -/
def Operation.Spares (st : State Value) : Operation (Object Value) → Prop
  | insert position object => st.AliveAt st.size ∧ Spared st position object
  | set position object =>
    ∀ element, object = .stored element → st.slotAt position ≠ some element
  | pushBack _ | popBack | erase _ | resize _ | reserve _ | clear => True

/-- A call that does not resize the vector to a smaller size. -/
def Operation.Steady (st : State Value) (operation : Operation (Object Value)) : Prop :=
  ∀ n, operation = .resize n → st.size ≤ n

variable {operation : Operation (Object Value)}

/-- What a call does that does not shrink the vector. -/
theorem Held.steady (held : Held (· < st.size) st) (allocated : st.array.length = st.capacity)
    (step : Step callbacks st operation next) (steady : operation.Steady st) :
    Moves (· < st.size) st (operation.Spares st) (· < next.size) next := by
  obtain ⟨valid, returns, given⟩ := step
  cases operation with
  | pushBack element => exact held.pushBack (valid element rfl) allocated returns given
  | popBack => exact held.popBack returns
  | insert position element => exact held.insert (valid element rfl) allocated returns given
  | erase position => exact held.erase returns
  | set position element => exact held.set (valid element rfl) returns
  | resize n => exact held.resize allocated (steady n rfl) returns given
  | reserve n =>
    obtain ⟨grown, size⟩ := vectorReserve_grown allocated returns given
    refine (held.grown grown).of_iff fun k => ?_
    rw [size]
  | clear => exact held.clear returns

/-- Every call keeps the elements of the vector alive, and its events are permitted if it spares. -/
theorem Held.step (held : Held (· < st.size) st) (allocated : st.array.length = st.capacity)
    (step : Step callbacks st operation next) :
    Held (· < next.size) next ∧ Adds st next (operation.Spares st) := by
  by_cases steady : operation.Steady st
  · have moves := held.steady allocated step steady
    exact ⟨moves.held, moves.adds⟩
  · -- Only a resize to a smaller size is not steady.
    simp only [Operation.Steady, not_forall, Nat.not_le] at steady
    obtain ⟨n, rfl, less⟩ := steady
    obtain ⟨size, moves⟩ := held.shrink less step.returns
    refine ⟨moves.held.mono fun i below => ?_, moves.adds⟩
    omega

end Operations

section Runs

variable {trace : List (Transition (State Value) (Operation (Object Value)))} {final : State Value}
  {operation : Operation (Object Value)}

/-- Exactly the elements that are stored in `array[0..size)` are alive. -/
def Balanced (st : State Value) : Prop :=
  ∀ element, Alive st.lives element ↔ ∃ i, i < st.size ∧ st.slotAt i = some element

/-- The elements in the vector are alive, so that only the others have to be looked at. -/
theorem Held.balanced_iff (held : Held (· < st.size) st) :
    Balanced st ↔ Covered (· < st.size) st := by
  refine ⟨fun balanced element => (balanced element).mp, fun covered element =>
    ⟨covered element, ?_⟩⟩
  rintro ⟨i, below, holds⟩
  obtain ⟨other, there, alive⟩ := held.held i below
  rw [Option.some.inj (holds.symm.trans there)]
  exact alive

/-- A new vector has no elements. -/
theorem vectorCreate_held : Held (· < (vectorCreate : State Value).size) (vectorCreate : State Value) := by
  have empty (i : Nat) : (vectorCreate : State Value).slotAt i = none := by
    rw [State.slotAt, vectorCreate, List.getElem?_replicate]
    split <;> rfl
  refine ⟨fun i element holds => ?_, fun i j element holds => ?_, ?_, ?_, ?_⟩
  · rw [empty] at holds
    cases holds
  · rw [empty] at holds
    cases holds
  · simp [vectorCreate, Created]
  · simp [vectorCreate, Ended]
  · intro i below
    exact absurd below (Nat.not_lt_zero i)

/-- The elements in the vector are alive, and all slots are there. -/
structure Owned (st : State Value) : Prop where
  held : Held (· < st.size) st
  allocated : st.array.length = st.capacity

/-- Every step keeps it so. -/
theorem Owned.step (owned : Owned st) (step : Step callbacks st operation next) : Owned next :=
  ⟨(owned.held.step owned.allocated step).1, step.allocated⟩

/-- So does every run. -/
theorem owned_of_run (run : Run (Step callbacks) vectorCreate trace final) : Owned final :=
  run.invariant ⟨vectorCreate_held, vectorCreate_refines.allocated⟩
    fun _ _ _ owned stepped => owned.step stepped

/-- What the calls of a run did was permitted exactly if all of them spare. -/
theorem sound_of_run (run : Run (Step callbacks) vectorCreate trace final) :
    Sound final.lives ↔ ∀ taken ∈ trace, taken.action.Spares taken.before := by
  induction run with
  | start => exact iff_of_true sound_nil (by simp)
  | @next trace before after operation earlier stepped ih =>
    have owned := owned_of_run earlier
    obtain ⟨new, grown, sound⟩ := (owned.held.step owned.allocated stepped).2
    rw [grown, sound_append_iff, ih, sound]
    simp [or_imp, forall_and]

/-- A vector has no more elements than slots, as each of them is in one. -/
theorem Held.size_le (held : Held (· < st.size) st) : st.size ≤ st.array.length := by
  by_contra outside
  obtain ⟨element, holds, _⟩ := held.held (st.size - 1) (by omega)
  have below := lt_of_slotAt holds
  omega

/-- `vector_destroy` returns and destroys exactly the elements in the vector. -/
theorem Held.vectorDestroy (held : Held (· < st.size) st) :
    ∃ ended, vectorDestroy st = some ended ∧ Moves (· < st.size) st True (fun _ => False) ended := by
  obtain ⟨emptied, looped, _⟩ := destroys_values st (Nat.zero_le st.size) held.size_le
  have loop := held.destroys (Nat.zero_le _) (fun _ _ below => below) looped
  have none : Moves (· < st.size) st True (fun _ => False) emptied := by
    exact loop.of_iff fun k =>
      ⟨False.elim, fun ⟨below, outside⟩ => outside ⟨Nat.zero_le k, below⟩⟩
  refine ⟨{ emptied with array := [] }, by rw [Vector.vectorDestroy, looped]; rfl, ?_, ?_, none.adds⟩
  · refine ⟨fun i element holds => ?_, fun i j element holds => ?_, none.held.numbered,
      none.held.ended, fun _ => False.elim⟩
    · simp [State.slotAt] at holds
    · simp [State.slotAt] at holds
  · intro covered element alive
    obtain ⟨_, never, _⟩ := none.covered covered element alive
    exact never.elim

/--
Up to and including `vector_destroy`, the destructor gets only elements that were made and not
destroyed before, and none that was destroyed is copied, exactly if every `vector_insert` finds an
element that is alive behind the last one, where a `vector_resize` to a smaller size can have left
it, and neither `vector_insert` nor `vector_set` is given one of the elements that it destroys before
it copies its argument.
-/
theorem destroys_alive_iff (run : Run (Step callbacks) vectorCreate trace final) :
    ∃ ended, vectorDestroy final = some ended ∧
      (Sound ended.lives ↔ ∀ taken ∈ trace, taken.action.Spares taken.before) := by
  obtain ⟨ended, done, moves⟩ := (owned_of_run run).held.vectorDestroy
  obtain ⟨new, grown, sound⟩ := moves.adds
  refine ⟨ended, done, ?_⟩
  rw [grown, sound_append_iff, sound, and_iff_left trivial]
  exact sound_of_run run

end Runs

/-- A call with an object of the caller, or without one, is a step if it returns. -/
theorem step_of_returns {Value : Type*} {callbacks : Callbacks Value} {st st' : State Value}
    {operation : Operation (Object Value)}
    (foreign : ∀ element, operation.argument ≠ some (.stored element))
    (returns : execute callbacks operation st = some st')
    (allocated : st'.array.length = st'.capacity) : Step callbacks st operation st' where
  valid object given := by
    cases object with
    | foreign value => trivial
    | stored element => exact absurd given (foreign element)
  returns := returns
  allocated := allocated

def sampleTwo : State Nat where
  array := some ⟨0, 5⟩ :: some ⟨1, 6⟩ :: List.replicate 6 none
  size := 2
  capacity := 8
  made := 2
  lives := [.creates ⟨0, 5⟩, .creates ⟨1, 6⟩]

def sampleShrunk : State Nat :=
  { sampleTwo with size := 0, lives := sampleTwo.lives ++ [.ends (some ⟨1, 6⟩)] }

def sampleReused : State Nat where
  array := some ⟨2, 7⟩ :: some ⟨1, 6⟩ :: List.replicate 6 none
  size := 1
  capacity := 8
  made := 3
  lives := sampleShrunk.lives ++ [.ends (some ⟨0, 5⟩), .creates ⟨2, 7⟩]

/-- Two elements, all of which a resize takes away. -/
theorem shrinking_run : Run (Step sampleCallbacks) vectorCreate
    [⟨vectorCreate, .pushBack (.foreign 5), samplePushed⟩,
      ⟨samplePushed, .pushBack (.foreign 6), sampleTwo⟩, ⟨sampleTwo, .resize 0, sampleShrunk⟩]
    sampleShrunk := by
  have first : Step sampleCallbacks vectorCreate (.pushBack (.foreign 5)) samplePushed :=
    step_of_returns (by simp [Operation.argument]) rfl rfl
  have second : Step sampleCallbacks samplePushed (.pushBack (.foreign 6)) sampleTwo :=
    step_of_returns (by simp [Operation.argument]) rfl rfl
  have resize : Step sampleCallbacks sampleTwo (.resize 0) sampleShrunk :=
    step_of_returns (by simp [Operation.argument]) rfl rfl
  exact ((Run.start.next first).next second).next resize

/-- An insertion that finds the element which the resize left behind destroys it once. -/
theorem destroys_alive_iff_leftover :
    ∃ ended, vectorDestroy sampleReused = some ended ∧ Sound ended.lives := by
  have insert : Step sampleCallbacks sampleShrunk (.insert 0 (.foreign 7)) sampleReused :=
    step_of_returns (by simp [Operation.argument]) rfl rfl
  obtain ⟨ended, done, sound⟩ := destroys_alive_iff (shrinking_run.next insert)
  refine ⟨ended, done, sound.mpr ?_⟩
  have left : sampleShrunk.AliveAt sampleShrunk.size :=
    ⟨⟨0, 5⟩, rfl, by rw [Created]; decide, by rw [Ended]; decide⟩
  simp [Operation.Spares, Spared, left]

/-- An insertion into a vector of one element destroys what the allocation left in the next slot. -/
theorem garbage_destroyed : ¬ ∀ trace final, Run (Step sampleCallbacks) vectorCreate trace final →
    ∃ ended, vectorDestroy final = some ended ∧ Sound ended.lives := by
  intro claim
  obtain ⟨ended, done, sound⟩ := claim _ _ (sample_run.mono fun _ _ _ stepped => stepped.toStep)
  obtain rfl := Option.some.inj (done.symm.trans rfl)
  obtain ⟨element, same, _⟩ := sound [.creates ⟨0, 5⟩] (.ends none) _ rfl
  cases same

section Leaks

variable {trace : List (Transition (State Value) (Operation (Object Value)))} {final : State Value}

/--
In every state exactly the elements stored in the vector are alive, and `vector_destroy` leaves none
alive, exactly if no `vector_resize` makes the vector smaller.
-/
theorem nothing_leaked_iff (run : Run (Step callbacks) vectorCreate trace final) :
    ((∀ taken ∈ trace, Balanced taken.after) ∧ ∃ ended, vectorDestroy final = some ended ∧
      ∀ element, Created ended.lives element → Ended ended.lives element) ↔
    ∀ taken ∈ trace, ∀ n, taken.action = .resize n → taken.before.size ≤ n := by
  have start : Balanced (vectorCreate : State Value) := by
    rw [vectorCreate_held.balanced_iff]
    intro element ⟨made, _⟩
    cases made
  have steps : (∀ taken ∈ trace, Balanced taken.after) ↔
      ∀ taken ∈ trace, taken.action.Steady taken.before := by
    refine @Run.all_good_iff _ _ _ _ _ _ Owned Balanced (fun st operation => operation.Steady st) run
      ⟨vectorCreate_held, vectorCreate_refines.allocated⟩
      (fun _ _ _ owned stepped => owned.step stepped) start ?_
    intro before operation after owned balanced stepped
    rw [(owned.step stepped).held.balanced_iff]
    constructor
    · -- A smaller size leaves an element alive behind the end.
      intro covered n same
      subst same
      by_contra less
      exact owned.held.shrink_leaks (by omega) stepped.returns covered
    · intro steady
      have moves := owned.held.steady owned.allocated stepped steady
      exact moves.covered (owned.held.balanced_iff.mp balanced)
  refine Iff.trans ⟨And.left, fun balanced => ⟨balanced, ?_⟩⟩ steps
  -- The last state is balanced too, so that the destroyed elements are all that were left.
  have last : Balanced final := by
    cases run with
    | start => exact start
    | @next _ before _ operation => exact balanced ⟨before, operation, final⟩ (by simp)
  have held := (owned_of_run run).held
  obtain ⟨ended, done, moves⟩ := held.vectorDestroy
  refine ⟨ended, done, fun element made => ?_⟩
  by_contra running
  obtain ⟨_, never, _⟩ := moves.covered (held.balanced_iff.mp last) element ⟨made, running⟩
  exact never

end Leaks

/-- Nothing is leaked when a 7 is inserted before a 5. -/
theorem nothing_leaked_iff_sample : ∃ ended, vectorDestroy sampleInserted = some ended ∧
    ∀ element, Created ended.lives element → Ended ended.lives element := by
  have run := sample_run.mono fun _ _ _ stepped => stepped.toStep
  exact ((nothing_leaked_iff run).mpr (by simp)).2

/-- A resize of two elements to none destroys only one of them, and the other is leaked. -/
theorem resize_leaks : ¬ ∀ trace final, Run (Step sampleCallbacks) vectorCreate trace final →
    (∀ taken ∈ trace, Balanced taken.after) ∧ ∃ ended, vectorDestroy final = some ended ∧
      ∀ element, Created ended.lives element → Ended ended.lives element := by
  intro claim
  obtain ⟨_, ended, done, gone⟩ := claim _ _ shrinking_run
  obtain rfl := Option.some.inj (done.symm.trans rfl)
  have left := gone ⟨0, 5⟩ (by rw [Created]; decide)
  rw [Ended] at left
  exact absurd left (by decide)

end SystemProgramming.Vector
