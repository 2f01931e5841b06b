import Mathlib.Data.Fintype.Card
import Mathlib.Data.List.DropRight
import Mathlib.Data.List.Nodup
import SystemProgramming.Foundations.Runs
import SystemProgramming.Shell.Shell

/-! The table of processes that `ps` prints, and how it is refreshed. -/

namespace SystemProgramming.Shell

open Foundations

section Table

/-- What `/proc` tells of a process. -/
structure Stat where
  state : Char
  utime : UInt64
  stime : UInt64
  nthreads : Int
  starttime : UInt64
  vsize : UInt64
  deriving DecidableEq, Repr

/-- The processes whose stat file can be opened. -/
abbrev Snapshot := BitVec 32 → Option Stat

/-- An entry of the table. -/
structure ProcessInfo where
  pid : BitVec 32
  nthreads : Int
  vsize : UInt64
  state : Char
  startStr : Line
  timeStr : Line
  command : Line
  deriving DecidableEq, Repr

/-- The ticks of a second, what is read of the time of the boot, and how times are printed. -/
structure Host where
  sysconf : UInt64
  rootTime : UInt64
  executionTimeToString : Nat → Nat → Line

variable (host : Host)

/-- The command without the spaces at its end; its last index is an `int`. -/
def trimmed (commandLine : Line) : Line :=
  let count := (((commandLine.length : Int) - 1).bmod 4294967296 + 1).toNat
  let command := (commandLine.take count).rdropWhile (· = ' ')
  if command.length < count then command else commandLine

/-- A number of seconds, as minutes and seconds. -/
def Host.timeString (seconds : UInt64) : Line :=
  host.executionTimeToString (seconds / 60).toNat (seconds % 60).toNat

/-- The entry that `write_information` stores. -/
def Host.information (pid : BitVec 32) (stat : Stat) (commandLine : Line) : ProcessInfo :=
  let started := stat.starttime / host.sysconf + host.rootTime
  let min := started / 60
  { pid := pid
    nthreads := stat.nthreads
    vsize := stat.vsize / 1024
    state := stat.state
    startStr := host.executionTimeToString ((min / 60) % 24).toNat (min % 60).toNat
    timeStr := host.timeString ((stat.utime + stat.stime) / host.sysconf)
    command := trimmed commandLine }

/-- `write_information`; an entry with the same pid is written over. -/
def writeInformation (snapshot : Snapshot) (pid : BitVec 32) (commandLine : Line)
    (table : List ProcessInfo) : List ProcessInfo :=
  if pid = 0 then table
  else
    match snapshot pid with
    | none => table
    | some stat =>
      match table.findIdx? (·.pid = pid) with
      | some j => table.set j (host.information pid stat commandLine)
      | none => table ++ [host.information pid stat commandLine]

/-- What `rewrite_information` makes of an entry. -/
def Host.rewritten (info : ProcessInfo) (stat : Stat) : ProcessInfo :=
  { info with
    nthreads := stat.nthreads
    vsize := stat.vsize / 1024
    state := stat.state
    timeStr := host.timeString ((stat.utime + stat.stime) / 1000000) }

/-- The loop of `rewrite_information`; every turn erases an entry or goes on to the next one. -/
def rewriteFrom (snapshot : Snapshot) : Nat → UInt64 → List ProcessInfo → List ProcessInfo
  | 0, _, table => table
  | turns + 1, i, table =>
    match table[i.toNat]? with
    | none => table
    | some info =>
      match snapshot info.pid with
      -- The index is decremented, below zero for the first entry, and then incremented again.
      | none => rewriteFrom snapshot turns (i - 1 + 1) (table.eraseIdx i.toNat)
      | some stat =>
        if stat.state = 'X' then rewriteFrom snapshot turns (i - 1 + 1) (table.eraseIdx i.toNat)
        else rewriteFrom snapshot turns (i + 1) (table.set i.toNat (host.rewritten info stat))

/-- `rewrite_information`. -/
def rewriteInformation (snapshot : Snapshot) (table : List ProcessInfo) : List ProcessInfo :=
  rewriteFrom host snapshot (table.length + 1) 0 table

/-- The calls that change the table. -/
inductive TableCall where
  | write (snapshot : Snapshot) (pid : BitVec 32) (commandLine : Line)
  | rewrite (snapshot : Snapshot)

/-- A call, for any answers of the system. -/
def TableStep (table : List ProcessInfo) : TableCall → List ProcessInfo → Prop
  | .write snapshot pid commandLine, after =>
    after = writeInformation host snapshot pid commandLine table
  | .rewrite snapshot, after => after = rewriteInformation host snapshot table

/-- An entry after a refresh, with the fields that `write_information` would store. -/
def Host.refreshed (snapshot : Snapshot) (info : ProcessInfo) : Option ProcessInfo :=
  (snapshot info.pid).bind fun stat =>
    if stat.state = 'X' then none
    else
      let stored := host.information info.pid stat info.command
      some { info with
        nthreads := stored.nthreads
        vsize := stored.vsize
        state := stored.state
        timeStr := stored.timeStr }

/-- The table is refreshed: the entries that are left, in order, and each pid once. -/
structure Refreshed (snapshot : Snapshot) (table after : List ProcessInfo) : Prop where
  entries : after = table.filterMap (host.refreshed snapshot)
  pids : (after.map (·.pid)).Nodup

end Table

section Loop

variable {host : Host} {snapshot : Snapshot} {table front rest : List ProcessInfo} {turns : Nat}
  {i : UInt64}

/-- An entry after `rewrite_information`, if it is kept. -/
def Host.kept (host : Host) (snapshot : Snapshot) (info : ProcessInfo) : Option ProcessInfo :=
  (snapshot info.pid).bind fun stat =>
    if stat.state = 'X' then none else some (host.rewritten info stat)

/-- The loop rewrites or erases the entries that are left, one after the other. -/
theorem rewriteFrom_eq (index : i.toNat = front.length) (enough : rest.length < turns)
    (small : front.length + rest.length < 18446744073709551616) :
    rewriteFrom host snapshot turns i (front ++ rest) =
      front ++ rest.filterMap (host.kept snapshot) := by
  induction rest generalizing front turns i with
  | nil =>
    cases turns with
    | zero => simp [rewriteFrom]
    | succ turns =>
      have ended : (front ++ [])[i.toNat]? = none := List.getElem?_eq_none (by simp [index])
      rw [rewriteFrom, ended, List.filterMap_nil]
  | cons info rest ih =>
    rw [List.length_cons] at enough small
    obtain ⟨left, rfl⟩ := Nat.exists_eq_succ_of_ne_zero (Nat.ne_zero_of_lt enough)
    have here : (front ++ info :: rest)[i.toNat]? = some info := by
      rw [index, List.getElem?_append_right (Nat.le_refl _), Nat.sub_self]
      rfl
    -- An entry that is erased makes room for the next one at the same index.
    have erased : rewriteFrom host snapshot left (i - 1 + 1)
        ((front ++ info :: rest).eraseIdx i.toNat) =
          front ++ rest.filterMap (host.kept snapshot) := by
      have same : i - 1 + 1 = i := by
        rw [← UInt64.toNat_inj, UInt64.toNat_add, UInt64.toNat_sub]
        have bound := i.toNat_lt
        have one : (1 : UInt64).toNat = 1 := rfl
        omega
      have removed : (front ++ info :: rest).eraseIdx i.toNat = front ++ rest := by
        rw [index, List.eraseIdx_append_of_length_le (Nat.le_refl _), Nat.sub_self]
        rfl
      rw [same, removed]
      exact ih index (by omega) (by omega)
    rw [rewriteFrom, here]
    dsimp only
    cases answer : snapshot info.pid with
    | none =>
      rw [List.filterMap_cons_none (by rw [Host.kept, answer]; rfl)]
      exact erased
    | some stat =>
      dsimp only
      by_cases gone : stat.state = 'X'
      · rw [if_pos gone, List.filterMap_cons_none (by rw [Host.kept, answer]; exact if_pos gone)]
        exact erased
      · have next : (i + 1).toNat = (front ++ [host.rewritten info stat]).length := by
          rw [UInt64.toNat_add, index, List.length_append, List.length_singleton]
          exact Nat.mod_eq_of_lt (by rw [UInt64.toNat_one]; omega)
        have stored : (front ++ info :: rest).set i.toNat (host.rewritten info stat) =
            (front ++ [host.rewritten info stat]) ++ rest := by
          rw [index, List.set_append_right _ _ (Nat.le_refl _), Nat.sub_self, List.append_assoc]
          rfl
        have later := @ih (front ++ [host.rewritten info stat]) left (i + 1) next (by omega)
          (by rw [List.length_append, List.length_singleton]; omega)
        rw [if_neg gone, stored, later, List.append_assoc,
          List.filterMap_cons_some (by rw [Host.kept, answer]; exact if_neg gone)]
        rfl

/-- Each process has one entry. -/
def Distinct (table : List ProcessInfo) : Prop := (table.map (·.pid)).Nodup

/-- So there are no more entries than pids. -/
theorem Distinct.length_le (distinct : Distinct table) : table.length ≤ 4294967296 := by
  have numbers : (table.map fun info => info.pid.toFin).Nodup := by
    have injective : Function.Injective (BitVec.toFin : BitVec 32 → Fin (2 ^ 32)) :=
      fun one other same => BitVec.eq_of_toFin_eq same
    have mapped := List.Nodup.map injective distinct
    rwa [List.map_map] at mapped
  have few := numbers.length_le_card
  rw [List.length_map, Fintype.card_fin] at few
  exact few

/-- So the loop refreshes the whole table. -/
theorem rewriteInformation_eq (distinct : Distinct table) :
    rewriteInformation host snapshot table = table.filterMap (host.kept snapshot) := by
  have few := distinct.length_le
  exact @rewriteFrom_eq host snapshot [] table (table.length + 1) 0 rfl (Nat.lt_succ_self _)
    (by rw [List.length_nil]; omega)

/-- What keeps the pids of the entries that are left, leaves them distinct. -/
theorem distinct_filterMap {keep : ProcessInfo → Option ProcessInfo} (distinct : Distinct table)
    (pids : ∀ info kept, keep info = some kept → kept.pid = info.pid) :
    Distinct (table.filterMap keep) := by
  refine List.Nodup.sublist ?_ distinct
  induction table with
  | nil => simp
  | cons info table ih =>
    have later := ih (List.nodup_cons.mp distinct).2
    cases kept : keep info with
    | none =>
      rw [List.filterMap_cons_none kept]
      exact later.cons _
    | some other =>
      rw [List.filterMap_cons_some kept, List.map_cons, List.map_cons, pids info other kept]
      exact later.cons_cons _

theorem pid_kept {info kept : ProcessInfo} (found : host.kept snapshot info = some kept) :
    kept.pid = info.pid := by
  obtain ⟨stat, _, same⟩ := Option.bind_eq_some_iff.mp found
  split at same
  · cases same
  · rw [← Option.some.inj same]
    rfl

/-- `write_information` keeps the pids apart. -/
theorem distinct_writeInformation (distinct : Distinct table) (pid : BitVec 32) (line : Line) :
    Distinct (writeInformation host snapshot pid line table) := by
  rw [writeInformation]
  split
  · exact distinct
  · split
    · exact distinct
    · rename_i stat _
      split
      · -- The entry that is written over had the same pid.
        rename_i j found
        obtain ⟨inside, same, _⟩ := List.findIdx?_eq_some_iff_getElem.mp found
        have inside' : j < (table.map (·.pid)).length := by rwa [List.length_map]
        have there : (table.map (·.pid))[j] = pid := by simpa using same
        have unchanged := List.set_getElem_self inside'
        rw [there] at unchanged
        have pids : (table.set j (host.information pid stat line)).map (·.pid) =
            table.map (·.pid) := by
          rw [List.map_set]
          exact unchanged
        rw [Distinct, pids]
        exact distinct
      · rename_i missing
        rw [List.findIdx?_eq_none_iff] at missing
        rw [Distinct, List.map_append, List.nodup_append]
        refine ⟨distinct, by simp, fun other member new fresh same => ?_⟩
        obtain ⟨info, held, rfl⟩ := List.mem_map.mp member
        obtain rfl : new = pid := by simpa [Host.information] using fresh
        exact absurd same (by simpa using missing info held)

/-- Every table that the calls build has one entry for each process. -/
theorem distinct_of_run {trace : List (Transition (List ProcessInfo) TableCall)}
    (run : Run (TableStep host) [] trace table) : Distinct table := by
  refine run.invariant (by simp [Distinct]) fun before call after distinct stepped => ?_
  cases call with
  | write snapshot pid line =>
    rw [show after = _ from stepped]
    exact distinct_writeInformation distinct pid line
  | rewrite snapshot =>
    rw [show after = _ from stepped, rewriteInformation_eq distinct]
    exact distinct_filterMap distinct fun info kept => pid_kept

end Loop

section Refresh

variable {host : Host} {snapshot : Snapshot} {table : List ProcessInfo} {info : ProcessInfo}
  {stat : Stat}

/-- The processor time is the same number of seconds in ticks of the system and of `clock`. -/
def Host.SameSeconds (host : Host) (stat : Stat) : Prop :=
  (stat.utime + stat.stime) / host.sysconf = (stat.utime + stat.stime) / 1000000

instance : Decidable (host.SameSeconds stat) :=
  inferInstanceAs (Decidable ((stat.utime + stat.stime) / host.sysconf = _))

/-- The time of a process is below one second, where the ticks are long enough. -/
theorem sameSeconds_iff (positive : 0 < host.sysconf) (long : host.sysconf.toNat ≤ 500000) :
    host.SameSeconds stat ↔ stat.utime + stat.stime < host.sysconf := by
  have ticks : (1000000 : UInt64).toNat = 1000000 := rfl
  rw [Host.SameSeconds, ← UInt64.toNat_inj, UInt64.toNat_div, UInt64.toNat_div, ticks,
    UInt64.lt_iff_toNat_lt]
  rw [UInt64.lt_iff_toNat_lt] at positive
  generalize (stat.utime + stat.stime).toNat = used
  generalize host.sysconf.toNat = sysconf at *
  constructor
  · intro same
    by_contra long_enough
    have one : 1 ≤ used / sysconf := (Nat.one_le_div_iff positive).mpr (Nat.le_of_not_lt long_enough)
    -- A million ticks are at least two seconds of the system.
    have half : used / 1000000 ≤ used / (sysconf * 2) := Nat.div_le_div_left (by omega) (by omega)
    rw [← Nat.div_div_eq_div_mul] at half
    omega
  · intro short
    rw [Nat.div_eq_of_lt short, Nat.div_eq_of_lt (by omega)]

/-- Different numbers of seconds are printed differently. -/
def Host.Injective (host : Host) : Prop :=
  ∀ minutes seconds minutes' seconds', seconds < 60 → seconds' < 60 →
    host.executionTimeToString minutes seconds = host.executionTimeToString minutes' seconds' →
    minutes = minutes' ∧ seconds = seconds'

theorem timeString_inj (injective : host.Injective) {seconds other : UInt64} :
    host.timeString seconds = host.timeString other ↔ seconds = other := by
  constructor
  · intro same
    have sixty : (60 : UInt64).toNat = 60 := rfl
    obtain ⟨minutes, rest⟩ := injective _ _ _ _
      (by rw [UInt64.toNat_mod, sixty]; exact Nat.mod_lt _ (by decide))
      (by rw [UInt64.toNat_mod, sixty]; exact Nat.mod_lt _ (by decide)) same
    rw [UInt64.toNat_div, UInt64.toNat_div, sixty] at minutes
    rw [UInt64.toNat_mod, UInt64.toNat_mod, sixty] at rest
    rw [← UInt64.toNat_inj]
    omega
  · rintro rfl
    rfl

/-- An entry is refreshed as it should be if it is not kept, or the clocks agree about it. -/
theorem kept_eq_iff (injective : host.Injective) :
    host.kept snapshot info = host.refreshed snapshot info ↔
      ∀ stat, snapshot info.pid = some stat → stat.state ≠ 'X' → host.SameSeconds stat := by
  rw [Host.kept, Host.refreshed]
  cases answer : snapshot info.pid with
  | none => simp
  | some stat =>
    rw [Option.bind_some, Option.bind_some]
    by_cases gone : stat.state = 'X'
    · simp [gone]
    · rw [if_neg gone, if_neg gone]
      constructor
      · rintro same stat' answer' _
        obtain rfl := Option.some.inj answer'
        have times := congrArg ProcessInfo.timeStr (Option.some.inj same)
        exact ((timeString_inj injective).mp times).symm
      · intro seconds
        have equal : (stat.utime + stat.stime) / host.sysconf = _ := seconds stat rfl gone
        rw [Host.rewritten, Host.information, equal]

/-- Two ways to refresh the entries lead to the same table if they agree about each of them. -/
theorem filterMap_eq_iff {one other : ProcessInfo → Option ProcessInfo}
    (same : ∀ info, (one info).isSome = (other info).isSome) :
    table.filterMap one = table.filterMap other ↔ ∀ info ∈ table, one info = other info := by
  induction table with
  | nil => simp
  | cons info table ih =>
    have both := same info
    cases first : one info with
    | none =>
      cases second : other info with
      | none => simp [first, second, ih]
      | some kept => simp [first, second] at both
    | some kept =>
      cases second : other info with
      | none => simp [first, second] at both
      | some kept' => simp [first, second, ih]

/-- The table is refreshed exactly if the clocks agree about every process that is kept. -/
theorem refreshed_iff {trace : List (Transition (List ProcessInfo) TableCall)}
    (run : Run (TableStep host) [] trace table) (injective : host.Injective) (snapshot : Snapshot) :
    Refreshed host snapshot table (rewriteInformation host snapshot table) ↔
      ∀ info ∈ table, ∀ stat, snapshot info.pid = some stat → stat.state ≠ 'X' →
        host.SameSeconds stat := by
  have distinct := distinct_of_run run
  -- The same processes are kept either way; only their times may differ.
  have alike : ∀ info, (host.kept snapshot info).isSome = (host.refreshed snapshot info).isSome := by
    intro info
    rw [Host.kept, Host.refreshed]
    cases snapshot info.pid with
    | none => rfl
    | some stat =>
      rw [Option.bind_some, Option.bind_some]
      split <;> rfl
  have agree : (∀ info ∈ table, host.kept snapshot info = host.refreshed snapshot info) ↔
      ∀ info ∈ table, ∀ stat, snapshot info.pid = some stat → stat.state ≠ 'X' →
        host.SameSeconds stat :=
    forall₂_congr fun info _ => kept_eq_iff injective
  rw [← agree, ← filterMap_eq_iff alike, rewriteInformation_eq distinct]
  constructor
  · exact fun refreshed => refreshed.entries
  · exact fun entries => ⟨entries, distinct_filterMap distinct fun info kept => pid_kept⟩

end Refresh

section Samples

/-- How the times are printed: the minutes, and two digits of the seconds. -/
def printTime (minutes seconds : Nat) : Line :=
  Nat.toDigits 10 minutes ++
    ':' :: if seconds < 10 then '0' :: Nat.toDigits 10 seconds else Nat.toDigits 10 seconds

/-- A system with a hundred ticks in a second. -/
def sampleHost : Host where
  sysconf := 100
  rootTime := 0
  executionTimeToString := printTime

theorem colon_not_mem_toDigits (number : Nat) : ':' ∉ Nat.toDigits 10 number := by
  intro member
  exact absurd (Nat.isDigit_of_mem_toDigits (by decide) (by decide) member) (by decide)

theorem sampleHost_injective : sampleHost.Injective := by
  intro minutes seconds minutes' seconds' _ _ same
  have digits : ∀ number, Nat.ofDigitChars 10 (Nat.toDigits 10 number) 0 = number :=
    fun number => Nat.ofDigitChars_toDigits (by decide) (by decide)
  have padded : ∀ seconds, ':' ∉ (if seconds < 10 then '0' :: Nat.toDigits 10 seconds
      else Nat.toDigits 10 seconds) ∧ Nat.ofDigitChars 10 (if seconds < 10
        then '0' :: Nat.toDigits 10 seconds else Nat.toDigits 10 seconds) 0 = seconds := by
    intro seconds
    split
    · refine ⟨by simpa using colon_not_mem_toDigits seconds, ?_⟩
      rw [Nat.ofDigitChars_cons]
      exact digits seconds
    · exact ⟨colon_not_mem_toDigits seconds, digits seconds⟩
  have parts := (List.append_cons_inj_of_notMem (colon_not_mem_toDigits minutes)
    (padded seconds).1).mp same
  exact ⟨by rw [← digits minutes, parts.1, digits], by rw [← (padded seconds).2, parts.2.2,
    (padded seconds').2]⟩

/-- A process that has used so many ticks. -/
def sampleStat (ticks : UInt64) : Stat where
  state := 'S'
  utime := ticks
  stime := 0
  nthreads := 1
  starttime := 0
  vsize := 2048

def sampleTable : List ProcessInfo :=
  writeInformation sampleHost (fun _ => some (sampleStat 0)) 7 ['l', 's', ' '] []

/-- A process that has used less than a second is refreshed. -/
theorem refreshed_iff_idle : Refreshed sampleHost (fun _ => some (sampleStat 50)) sampleTable
    (rewriteInformation sampleHost (fun _ => some (sampleStat 50)) sampleTable) := by
  refine (refreshed_iff (Run.start.next (show TableStep sampleHost [] (.write _ 7 ['l', 's', ' '])
    sampleTable from rfl)) sampleHost_injective _).mpr fun info _ stat answer _ => ?_
  obtain rfl := Option.some.inj answer
  decide

/-- After one second, `ps` still shows none. -/
theorem seconds_in_other_ticks : ¬ ∀ (host : Host) (trace : List (Transition _ TableCall))
    (table : List ProcessInfo) (snapshot : Snapshot), host.Injective →
    Run (TableStep host) [] trace table →
    Refreshed host snapshot table (rewriteInformation host snapshot table) := by
  intro claim
  have refreshed := claim sampleHost _ sampleTable (fun _ => some (sampleStat 100))
    sampleHost_injective (Run.start.next (show TableStep sampleHost [] (.write _ 7 ['l', 's', ' '])
      sampleTable from rfl))
  exact absurd refreshed.entries (by decide)

end Samples

end SystemProgramming.Shell
