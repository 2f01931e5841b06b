import SystemProgramming.Mmu.FlatMemory

/-! Frame accounting: which frames are in use after any calls, and what a removal gives back. -/

namespace SystemProgramming.Mmu

open Foundations

/--
The frame of a process at a place, as the unit finds it: the page directory, the tables of the
present directory entries, and the pages of the present table entries.
-/
def frameOf (platform : Platform) (st : State) (pid : Nat) : Path → Option Nat
  | .directory => (st.pageDirectories pid).map (· / pageSize)
  | .table i => (st.pageDirectories pid).bind fun pd =>
    platform.directoryEntry.target st.kernel.mem (pd + entrySize * i)
  | .page i j => (frameOf platform st pid (.table i)).bind fun frame =>
    platform.tableEntry.target st.kernel.mem (frame * pageSize + entrySize * j)

variable {platform : Platform} {st st' : State} {tree tree' : Tree} {pid root frame : Nat}
  {path : Path} {memory : Memory} {trace : List (Transition State Action)} {final : State}

/-- The walk of the unit finds what the tree has. -/
theorem Consistent.frameOf_eq (consistent : Consistent platform st tree)
    (used : st.pageDirectories pid = some (root * pageSize)) :
    frameOf platform st pid path = tree (root, path) := by
  have rep := consistent.represents
  obtain ⟨root', same, planted⟩ := consistent.planted _ _ used
  obtain rfl := Nat.eq_of_mul_eq_mul_right (by decide) same
  have tables (i : Fin numEntries) : frameOf platform st pid (.table i) = tree (root, .table i) := by
    rw [frameOf, used]
    exact rep.target_table planted i
  cases path with
  | directory =>
    rw [frameOf, used, planted]
    exact congrArg some (Nat.mul_div_cancel root (by decide))
  | table i => exact tables i
  | page i j =>
    rw [frameOf, tables]
    cases present : tree (root, .table i) with
    | some frame => exact rep.target_page present j
    -- Without a table there is no page, in the walk and in the tree.
    | none =>
      exact (rep.rooted (root, .page i j) (by simp) (by rw [slot_page, present]; rfl)).symm

/-- A process without a page directory has no frame. -/
theorem frameOf_none (idle : st.pageDirectories pid = none) : frameOf platform st pid path = none := by
  have tables (i : Fin numEntries) : frameOf platform st pid (.table i) = none := by
    rw [frameOf, idle]
    rfl
  cases path with
  | directory =>
    rw [frameOf, idle]
    rfl
  | table i => exact tables i
  | page i j =>
    rw [frameOf, tables]
    rfl

/-- Every page directory belongs to a live process, whose id is within the bound. -/
structure Housed (platform : Platform) (st : State) (tree : Tree) : Prop where
  housed : ∀ root frame, tree (root, .directory) = some frame →
    ∃ pid, st.pageDirectories pid = some (root * pageSize)
  bounded : ∀ pid pd, st.pageDirectories pid = some pd → pid < platform.maxProcessId

/-- Steps that keep directories and processes keep every directory housed. -/
theorem Housed.keep (housed : Housed platform st tree)
    (directories : ∀ root, tree' (root, .directory) = tree (root, .directory))
    (same : st'.pageDirectories = st.pageDirectories) : Housed platform st' tree' where
  housed root frame present := by
    rw [same]
    exact housed.housed root frame ((directories root).symm.trans present)
  bounded pid pd used := housed.bounded pid pd (same ▸ used)

/-- A new process houses the new directory; since it was not live, no other loses its own. -/
theorem Housed.add (housed : Housed platform st tree) (idle : st.pageDirectories pid = none)
    (added : Added platform st tree pid st' tree' root) : Housed platform st' tree' where
  housed root' frame present := by
    rw [added.pageDirectories]
    rw [added.directories] at present
    split at present
    · rename_i same
      exact ⟨pid, by rw [Function.update_self, same]⟩
    · -- An old directory keeps its process, which is not the added one.
      obtain ⟨pid', used⟩ := housed.housed _ _ present
      refine ⟨pid', ?_⟩
      rw [Function.update_of_ne, used]
      intro same
      subst same
      rw [idle] at used
      cases used
  bounded pid' pd used := by
    rw [added.pageDirectories, Function.update_apply] at used
    split at used
    · rename_i same
      rw [same]
      exact added.bounded
    · exact housed.bounded _ _ used

/-- A removal takes the directory together with its process. -/
theorem Housed.remove (consistent : Consistent platform st tree) (housed : Housed platform st tree)
    (removed : Removed platform st tree pid tree') :
    Housed platform (removeProcess platform st pid) tree' where
  housed root frame present := by
    rw [removeProcess_pageDirectories]
    -- The directory is not the removed one, so the process that houses it is another one.
    have kept : tree (root, .directory) = some frame ∧
        st.pageDirectories pid ≠ some (root * pageSize) := by
      cases live : st.pageDirectories pid with
      | none => exact ⟨removed.idle live ▸ present, by simp⟩
      | some pd =>
        obtain ⟨root', rfl, _⟩ := consistent.planted _ _ live
        rw [removed.gone _ live, Tree.without] at present
        split at present
        · cases present
        · rename_i other
          refine ⟨present, fun same => other ?_⟩
          exact (Nat.eq_of_mul_eq_mul_right (by decide) (Option.some.inj same)).symm
    obtain ⟨pid', used⟩ := housed.housed _ _ kept.1
    refine ⟨pid', ?_⟩
    rw [Function.update_of_ne, used]
    intro same
    subst same
    exact kept.2 used
  bounded pid' pd used := by
    rw [removeProcess_pageDirectories, Function.update_apply] at used
    split at used
    · cases used
    · exact housed.bounded _ _ used

/-- What stands below a page directory stands below one that is there. -/
theorem Represents.directory_present {kernel : Kernel} (rep : Represents platform kernel tree)
    (present : tree (root, path) = some frame) : tree (root, .directory) = some root := by
  cases top : tree (root, .directory) with
  | some frame' => rw [rep.roots _ _ top]
  | none =>
    -- Without a directory there is no table, and without a table no page.
    have no_table (i : Fin numEntries) := rep.no_table_below top i
    cases path with
    | directory =>
      rw [top] at present
      cases present
    | table i =>
      rw [no_table] at present
      cases present
    | page i j =>
      rw [rep.rooted (root, .page i j) (by simp) (by rw [slot_page, no_table]; rfl)] at present
      cases present

/-- The frames in use are exactly those of the places of processes, and no two places share one. -/
structure Accounted (platform : Platform) (st : State) : Prop where
  exact : ∀ frame, st.kernel.frames frame ≠ none ↔
    ∃ pid path, frameOf platform st pid path = some frame
  unshared : ∀ pid path pid' path' frame, frameOf platform st pid path = some frame →
    frameOf platform st pid' path' = some frame → pid = pid' ∧ path = path'

/-- A place with a frame belongs to a live process, and stands in the tree. -/
theorem Consistent.place_of_frame (consistent : Consistent platform st tree)
    (found : frameOf platform st pid path = some frame) :
    ∃ root, st.pageDirectories pid = some (root * pageSize) ∧ tree (root, path) = some frame := by
  cases live : st.pageDirectories pid with
  | none =>
    rw [frameOf_none live] at found
    cases found
  | some pd =>
    obtain ⟨root, rfl, _⟩ := consistent.planted _ _ live
    exact ⟨root, rfl, (consistent.frameOf_eq live).symm.trans found⟩

/-- Where every directory is housed, the frames are accounted for. -/
theorem Consistent.accounted (consistent : Consistent platform st tree)
    (housed : Housed platform st tree) : Accounted platform st where
  exact frame := by
    have rep := consistent.represents
    constructor
    · intro used
      obtain ⟨tag, tagged⟩ := Option.ne_none_iff_exists'.mp used
      obtain ⟨⟨root, path⟩, present⟩ := rep.used _ _ tagged
      -- Every used frame stands below a directory, and the directory has a process.
      obtain ⟨pid, live⟩ := housed.housed _ _ (rep.directory_present present)
      exact ⟨pid, path, (consistent.frameOf_eq live).trans present⟩
    · intro found
      obtain ⟨pid, path, found⟩ := found
      obtain ⟨root, _, present⟩ := consistent.place_of_frame found
      rw [rep.owned _ _ present]
      simp
  unshared pid path pid' path' frame mine its := by
    obtain ⟨root, live, present⟩ := consistent.place_of_frame mine
    obtain ⟨root', live', present'⟩ := consistent.place_of_frame its
    obtain ⟨rfl, rfl⟩ := Prod.mk.inj (consistent.represents.injective _ _ _ present present')
    exact ⟨consistent.unshared _ _ _ live live', rfl⟩

/-- What a removal gives back: the frames of the process, each once, and all of its swap files. -/
structure GivesBack (platform : Platform) (st : State) (pid : Nat) (st' : State) : Prop where
  frames : ∃ frames, st'.kernel.returned = st.kernel.returned ++ frames ∧ frames.Nodup ∧
    ∀ frame, frame ∈ frames ↔ ∃ path, frameOf platform st pid path = some frame
  swaps : ∀ i j frame, frameOf platform st pid (.table i) = some frame → j < numEntries →
    st'.kernel.swap (frame * pageSize + entrySize * j) = none

/-- Removing a process gives back what it had. -/
theorem Consistent.gives_back (consistent : Consistent platform st tree) (pid : Nat) :
    GivesBack platform st pid (removeProcess platform st pid) := by
  have rep := consistent.represents
  cases live : st.pageDirectories pid with
  | none =>
    have same : (removeProcess platform st pid).kernel = st.kernel := by
      rw [removeProcess_kernel, live, removeDirectory]
    refine ⟨⟨[], by rw [same, List.append_nil], List.nodup_nil, fun frame => ?_⟩, ?_⟩
    · simp [frameOf_none live]
    · intro i j frame found
      rw [frameOf_none live] at found
      cases found
  | some pd =>
    obtain ⟨root, rfl, planted⟩ := consistent.planted _ _ live
    have same : (removeProcess platform st pid).kernel =
        st.kernel.release (directoryFrames platform st.kernel.mem root)
          (directoryEntries platform st.kernel.mem root) := by
      rw [removeProcess_kernel, live, removeDirectory_eq]
    -- The walk gives back the frames below the directory, in the order of its visits.
    refine ⟨⟨_, by rw [same]; rfl, rep.nodup_directoryFrames planted, fun frame => ?_⟩, ?_⟩
    · rw [rep.mem_directoryFrames planted]
      exact exists_congr fun path => by rw [consistent.frameOf_eq live]
    · intro i j frame found low
      rw [consistent.frameOf_eq live] at found
      rw [same]
      refine release_swap_of_member ((rep.mem_directoryEntries planted).mpr ⟨i, ⟨j, low⟩, ?_⟩)
      rw [slot_page, found]
      rfl

/-- Some frames that were in use were given back, each once, and no frame was taken. -/
structure Returned (kernel kernel' : Kernel) (frames : List Nat) : Prop where
  logged : kernel'.returned = kernel.returned ++ frames
  nodup : frames.Nodup
  member : ∀ frame, frame ∈ frames ↔ kernel.frames frame ≠ none ∧ kernel'.frames frame = none
  taken : ∀ frame, kernel.frames frame = none → kernel'.frames frame = none

theorem Returned.refl {kernel : Kernel} : Returned kernel kernel [] :=
  ⟨(List.append_nil _).symm, List.nodup_nil, fun frame => by simp, fun _ free => free⟩

/-- Giving back twice never gives back the same frame. -/
theorem Returned.trans {kernel kernel' kernel'' : Kernel} {first second : List Nat}
    (one : Returned kernel kernel' first) (two : Returned kernel' kernel'' second) :
    Returned kernel kernel'' (first ++ second) where
  logged := by rw [two.logged, one.logged, List.append_assoc]
  nodup := by
    refine one.nodup.append two.nodup fun frame mine its => ?_
    -- What was given back first was unused then, so it cannot be given back again.
    exact ((two.member frame).mp its).1 ((one.member frame).mp mine).2
  member frame := by
    rw [List.mem_append, one.member, two.member]
    constructor
    · intro either
      rcases either with ⟨used, free⟩ | ⟨used, free⟩
      · exact ⟨used, two.taken frame free⟩
      · exact ⟨fun unused => used (one.taken frame unused), free⟩
    · intro both
      obtain ⟨used, free⟩ := both
      -- A frame that is unused in the end became so in the first part or in the second.
      cases between : kernel'.frames frame with
      | none => exact .inl ⟨used, rfl⟩
      | some tag => exact .inr ⟨by simp, free⟩
  taken frame free := two.taken frame (one.taken frame free)

/-- A removal gives frames back and takes none. -/
theorem Consistent.returned (consistent : Consistent platform st tree) (pid : Nat) :
    ∃ frames, Returned st.kernel (removeProcess platform st pid).kernel frames := by
  have rep := consistent.represents
  cases live : st.pageDirectories pid with
  | none =>
    rw [removeProcess_kernel, live, removeDirectory]
    exact ⟨[], .refl⟩
  | some pd =>
    obtain ⟨root, rfl, planted⟩ := consistent.planted _ _ live
    rw [removeProcess_kernel, live, removeDirectory_eq]
    refine ⟨_, rfl, rep.nodup_directoryFrames planted, fun frame => ?_, fun frame free => ?_⟩
    · constructor
      · intro member
        obtain ⟨path, present⟩ := (rep.mem_directoryFrames planted).mp member
        rw [rep.owned _ _ present]
        exact ⟨by simp, release_frames_of_member member⟩
      · intro both
        obtain ⟨used, free⟩ := both
        -- A frame that the walk does not find is not released.
        by_contra outside
        rw [release_frames_of_outside outside] at free
        exact used free
    · by_cases member : frame ∈ directoryFrames platform st.kernel.mem root
      · exact release_frames_of_member member
      · rw [release_frames_of_outside member, free]

/-- Removing processes one after the other. -/
theorem remove_all (pids : List Nat) (consistent : Consistent platform st tree)
    (housed : Housed platform st tree) :
    ∃ tree' frames, Consistent platform (pids.foldl (removeProcess platform) st) tree' ∧
      Housed platform (pids.foldl (removeProcess platform) st) tree' ∧
      Returned st.kernel (pids.foldl (removeProcess platform) st).kernel frames ∧
      ∀ pid, (pids.foldl (removeProcess platform) st).pageDirectories pid =
        if pid ∈ pids then none else st.pageDirectories pid := by
  induction pids generalizing st tree with
  | nil => exact ⟨tree, [], consistent, housed, .refl, fun pid => by simp⟩
  | cons pid rest ih =>
    obtain ⟨between, removed⟩ := removeProcess_spec consistent pid
    obtain ⟨frames, first⟩ := consistent.returned pid
    obtain ⟨tree', frames', consistent', housed', second, gone⟩ :=
      ih removed.consistent (housed.remove consistent removed)
    -- The processes without a directory afterwards are those that were removed.
    refine ⟨tree', _, consistent', housed', first.trans second, fun pid' => ?_⟩
    rw [List.foldl_cons, gone, removeProcess_pageDirectories, Function.update_apply]
    by_cases same : pid' = pid
    · simp [same]
    · by_cases member : pid' ∈ rest <;> simp [same, member]

/-- Nothing is in use any more, and every frame that was in use was given back once. -/
structure AllReturned (st : State) (st' : State) : Prop where
  unused : ∀ frame, st'.kernel.frames frame = none
  frames : ∃ frames, st'.kernel.returned = st.kernel.returned ++ frames ∧ frames.Nodup ∧
    ∀ frame, frame ∈ frames ↔ st.kernel.frames frame ≠ none

/-- Deleting the unit gives back every frame. -/
theorem Consistent.all_returned (consistent : Consistent platform st tree)
    (housed : Housed platform st tree) : AllReturned st (mmuDelete platform st) := by
  obtain ⟨tree', frames, consistent', housed', returned, gone⟩ :=
    remove_all (List.range platform.maxProcessId) consistent housed
  have unused (frame : Nat) :
      ((List.range platform.maxProcessId).foldl (removeProcess platform) st).kernel.frames frame =
        none := by
    by_contra used
    -- A frame in use would belong to a live process, but all ids within the bound were removed.
    obtain ⟨pid, path, found⟩ := ((consistent'.accounted housed').exact frame).mp used
    obtain ⟨root, live, _⟩ := consistent'.place_of_frame found
    have bounded := housed'.bounded _ _ live
    rw [gone, if_pos (List.mem_range.mpr bounded)] at live
    cases live
  refine ⟨unused, frames, returned.logged, returned.nodup, fun frame => ?_⟩
  rw [returned.member]
  exact ⟨fun both => both.1, fun used => ⟨used, unused frame⟩⟩

/-- Every call keeps every page directory housed. -/
theorem housed_step {action : Action} (consistent : Consistent platform st tree)
    (housed : Housed platform st tree) (step : Step platform st action st') :
    ∃ tree', Consistent platform st' tree' ∧ Housed platform st' tree' := by
  obtain ⟨event, outcome⟩ := action
  cases event with
  | add choices pid =>
    obtain ⟨_, idle, called⟩ := step.add
    obtain ⟨tree', root, added⟩ := mmuAddProcess_spec consistent (fun _ _ => idle) called
    exact ⟨tree', added.consistent, housed.add idle added⟩
  | remove pid =>
    obtain ⟨_, rfl⟩ := step.remove
    obtain ⟨tree', removed⟩ := removeProcess_spec consistent pid
    exact ⟨tree', removed.consistent, housed.remove consistent removed⟩
  | read choices virtualAddress pid numBytes =>
    obtain ⟨tree', consistent', keeps, _⟩ := read_spec (access_spec consistent step.executed)
    exact ⟨tree', consistent', housed.keep keeps.carries.directories
      (keeps.pageDirectories.trans switchTo_pageDirectories)⟩
  | write choices virtualAddress pid buffer =>
    obtain ⟨tree', consistent', same, _, directories, _⟩ :=
      write_spec (access_spec consistent step.executed)
    exact ⟨tree', consistent', housed.keep directories same⟩

/-- After any calls, every page directory is housed. -/
theorem housed_of_run (run : Run (Step platform) (mmuCreate memory) trace final) :
    ∃ tree, Consistent platform final tree ∧ Housed platform final tree := by
  -- The first unit has no process and no directory.
  refine @Run.invariant _ _ _ _ _ _ (fun st =>
    ∃ tree, Consistent platform st tree ∧ Housed platform st tree) run
    ⟨_, mmuCreate_consistent platform memory, ⟨nofun, nofun⟩⟩ ?_
  intro before action after invariant step
  obtain ⟨tree, consistent, housed⟩ := invariant
  exact housed_step consistent housed step

/--
After any calls the frames are accounted for; every removal on the way gave back the frames of its
process, each once and no others, with the swap files; and deleting the unit gives back the rest.
-/
theorem frames_accounted (run : Run (Step platform) (mmuCreate memory) trace final) :
    Accounted platform final ∧
      (∀ taken ∈ trace, ∀ pid outcome, taken.action = ⟨.remove pid, outcome⟩ →
        GivesBack platform taken.before pid taken.after) ∧
      AllReturned final (mmuDelete platform final) := by
  obtain ⟨tree, consistent, housed⟩ := housed_of_run run
  refine ⟨consistent.accounted housed, fun taken member pid outcome removes => ?_,
    consistent.all_returned housed⟩
  -- The state before a removal is reached by the calls before it.
  obtain ⟨step, earlier, reached⟩ := run.split_at member
  obtain ⟨tree', consistent', _⟩ := housed_of_run reached
  rw [removes] at step
  obtain ⟨_, same⟩ := step.remove
  rw [same]
  exact consistent'.gives_back pid

theorem frames_accounted_sample : Accounted samplePlatform (stateAfter sampleEvicted sampleRead) :=
  (frames_accounted sample_run).1

end SystemProgramming.Mmu
