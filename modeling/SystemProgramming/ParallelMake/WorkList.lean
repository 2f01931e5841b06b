import SystemProgramming.Foundations.Cycles
import SystemProgramming.ParallelMake.Progress

/-! How the work list is built: every target once, and after all of its dependencies. -/

namespace SystemProgramming.ParallelMake

open Foundations

/-- The set `visited_vertex` and the vector `all_vertex_dfs` of the search. -/
structure Search (Target : Type*) where
  visitedVertex : List Target
  allVertexDfs : List Target

section Functions

variable {Target : Type*} [DecidableEq Target]

/--
`get_all_vertex_dfs`: the neighbors first, and then the target itself, if it is new. The first
argument bounds the depth of the recursion.
-/
def getAllVertexDfs (rules : Rules Target) : Nat → Target → Search Target → Option (Search Target)
  | 0, _, _ => none
  | fuel + 1, cur, search =>
    -- The neighbors are searched again even when the target was visited before.
    match (rules.dependencies cur).foldlM
        (fun search neighbor => getAllVertexDfs rules fuel neighbor search) search with
    | some search =>
      if cur ∈ search.visitedVertex then some search
      else some
        { visitedVertex := cur :: search.visitedVertex
          allVertexDfs := search.allVertexDfs ++ [cur] }
    | none => none

/-- The work list that `parmake` builds for the targets that have no cycle. -/
def workList (rules : Rules Target) (fuel : Nat) (targets : List Target) : Option (List Target) :=
  (targets.foldlM (fun search target => getAllVertexDfs rules fuel target search) ⟨[], []⟩).map
    Search.allVertexDfs

end Functions

variable {Target : Type*} {rules : Rules Target} {list : List Target} {target : Target}

/-- Every target of the list comes after its dependencies. -/
def PostOrdered (rules : Rules Target) (list : List Target) : Prop :=
  ∀ front target back, list = front ++ target :: back →
    ∀ dependency ∈ rules.dependencies target, dependency ∈ front

/-- A target can be added behind its dependencies. -/
theorem PostOrdered.snoc (ordered : PostOrdered rules list)
    (known : ∀ dependency ∈ rules.dependencies target, dependency ∈ list) :
    PostOrdered rules (list ++ [target]) := by
  intro front other back split
  -- The target in question is the new one, or it was in the list before.
  rcases List.eq_nil_or_concat back with rfl | ⟨middle, last, rfl⟩
  · obtain ⟨rfl, same⟩ := List.append_inj' split rfl
    rw [← List.singleton_inj.mp same]
    exact known
  · rw [List.concat_eq_append, ← List.cons_append, ← List.append_assoc] at split
    exact ordered front other middle (List.append_inj' split rfl).1

/-- What comes first in a list is ordered by itself. -/
theorem PostOrdered.init (ordered : PostOrdered rules (list ++ [target])) :
    PostOrdered rules list := by
  -- A piece of the shorter list is a piece of the longer one.
  intro front other back split
  refine ordered front other (back ++ [target]) ?_
  rw [split, List.append_assoc, List.cons_append]

/-- The dependencies of the last target come before it. -/
theorem PostOrdered.last (ordered : PostOrdered rules (list ++ [target])) :
    ∀ dependency ∈ rules.dependencies target, dependency ∈ list :=
  ordered list target [] rfl

/-- Such a list is closed under dependencies. -/
theorem PostOrdered.closed (ordered : PostOrdered rules list) : rules.Closed list := by
  -- Each target of the list has a place in it, with its dependencies before it.
  intro target listed dependency needed
  obtain ⟨front, back, rfl⟩ := List.append_of_mem listed
  exact List.mem_append_left _ (ordered front target back rfl dependency needed)

/-- The search so far: the set and the vector agree, without repetitions, in order. -/
structure Search.Sound (rules : Rules Target) (search : Search Target) : Prop where
  same : ∀ target, target ∈ search.visitedVertex ↔ target ∈ search.allVertexDfs
  nodup : search.allVertexDfs.Nodup
  ordered : PostOrdered rules search.allVertexDfs

variable {search after : Search Target}

/-- Searching a list of targets one after the other adds them all, if searching one adds it. -/
theorem search_all {visit : Search Target → Target → Option (Search Target)}
    (each : ∀ search after target, search.Sound rules → visit search target = some after →
      after.Sound rules ∧ (∀ other ∈ search.allVertexDfs, other ∈ after.allVertexDfs) ∧
        target ∈ after.allVertexDfs)
    (sound : search.Sound rules) (done : list.foldlM visit search = some after) :
    after.Sound rules ∧ (∀ other ∈ search.allVertexDfs, other ∈ after.allVertexDfs) ∧
      ∀ target ∈ list, target ∈ after.allVertexDfs := by
  -- One target after the other keeps the search sound and lets it grow.
  induction list generalizing search with
  | nil =>
    cases done
    exact ⟨sound, fun _ member => member, nofun⟩
  | cons first rest ih =>
    rw [List.foldlM_cons] at done
    obtain ⟨middle, one, more⟩ := Option.bind_eq_some_iff.mp done
    obtain ⟨kept, grows, added⟩ := each search middle first sound one
    obtain ⟨final, grown, others⟩ := ih kept more
    refine ⟨final, fun other member => grown other (grows other member), ?_⟩
    exact List.forall_mem_cons.mpr ⟨grown first added, others⟩

/-- A loop over targets has the same result with a search that returns more often. -/
theorem foldlM_mono {visit more : Search Target → Target → Option (Search Target)}
    (same : ∀ search after target, visit search target = some after →
      more search target = some after) (done : list.foldlM visit search = some after) :
    list.foldlM more search = some after := by
  -- Each search of the loop returns what it returned before.
  induction list generalizing search with
  | nil => exact done
  | cons first rest ih =>
    rw [List.foldlM_cons] at done ⊢
    obtain ⟨middle, one, later⟩ := Option.bind_eq_some_iff.mp done
    exact Option.bind_eq_some_iff.mpr ⟨middle, same _ _ _ one, ih later⟩

variable [DecidableEq Target] {fuel : Nat}

/-- Searching from a target adds it, behind everything that it depends on. -/
theorem getAllVertexDfs_sound (sound : search.Sound rules)
    (done : getAllVertexDfs rules fuel target search = some after) :
    after.Sound rules ∧ (∀ other ∈ search.allVertexDfs, other ∈ after.allVertexDfs) ∧
      target ∈ after.allVertexDfs := by
  -- The induction is on the depth of the recursion.
  induction fuel generalizing target search after with
  | zero => cases done
  | succ fuel ih =>
    rw [getAllVertexDfs] at done
    split at done
    · rename_i inner searched
      obtain ⟨kept, grows, neighbors⟩ :=
        search_all (fun search after target sound done => ih sound done) sound searched
      split at done
      · -- The target was searched before, so nothing is added.
        rename_i old
        cases done
        exact ⟨kept, grows, (kept.same target).mp old⟩
      · -- The target is added behind its neighbors, for the first time.
        rename_i new
        cases done
        refine ⟨⟨fun other => ?_, ?_, kept.ordered.snoc neighbors⟩, fun other member => ?_, ?_⟩
        · simp [kept.same, or_comm]
        · rw [List.nodup_append]
          refine ⟨kept.nodup, List.nodup_singleton _, fun first member second last => ?_⟩
          rw [List.mem_singleton.mp last]
          intro same
          subst same
          exact new ((kept.same first).mpr member)
        · exact List.mem_append_left _ (grows other member)
        · exact List.mem_append_right _ (List.mem_singleton_self target)
    · cases done

/-- The work list holds every target once, and after all of its dependencies. -/
theorem workList_sound {targets work : List Target} (built : workList rules fuel targets = some work) :
    work.Nodup ∧ PostOrdered rules work := by
  obtain ⟨search, searched, rfl⟩ := Option.map_eq_some_iff.mp built
  -- The search starts with an empty set and an empty vector.
  have empty : (⟨[], []⟩ : Search Target).Sound rules :=
    ⟨fun _ => Iff.rfl, List.nodup_nil, fun front target back split => by simp at split⟩
  obtain ⟨sound, _⟩ :=
    search_all (fun search after target sound done => getAllVertexDfs_sound sound done) empty searched
  exact ⟨sound.nodup, sound.ordered⟩

/-- More fuel does not change the result of a search. -/
theorem getAllVertexDfs_mono {more : Nat} (enough : fuel ≤ more)
    (done : getAllVertexDfs rules fuel target search = some after) :
    getAllVertexDfs rules more target search = some after := by
  induction fuel generalizing more target search after with
  | zero => cases done
  | succ fuel ih =>
    obtain ⟨more, rfl⟩ : ∃ rest, more = rest + 1 := ⟨more - 1, by omega⟩
    rw [getAllVertexDfs] at done ⊢
    split at done
    · rename_i searched
      -- The neighbors are searched with one less, and return the same.
      rw [foldlM_mono (fun _ _ _ one => ih (Nat.le_of_succ_le_succ enough) one) searched]
      exact done
    · cases done

/-- A loop over targets returns when the search of each of them does. -/
theorem foldlM_returns (each : ∀ target ∈ list, ∃ fuel, ∀ search,
      (getAllVertexDfs rules fuel target search).isSome) :
    ∃ fuel, ∀ search, (list.foldlM
      (fun search target => getAllVertexDfs rules fuel target search) search).isSome := by
  induction list with
  | nil => exact ⟨0, fun _ => rfl⟩
  | cons first rest ih =>
    obtain ⟨one, head⟩ := each first List.mem_cons_self
    obtain ⟨two, tail⟩ := ih fun target member => each target (List.mem_cons_of_mem _ member)
    -- The larger of the two bounds is enough for both.
    refine ⟨max one two, fun search => ?_⟩
    obtain ⟨middle, found⟩ := Option.isSome_iff_exists.mp (head search)
    obtain ⟨after, more⟩ := Option.isSome_iff_exists.mp (tail middle)
    rw [List.foldlM_cons, getAllVertexDfs_mono (Nat.le_max_left one two) found]
    -- The rest of the loop starts from what the first search has left.
    have later := foldlM_mono
      (fun _ _ _ done => getAllVertexDfs_mono (Nat.le_max_right one two) done) more
    exact Option.isSome_of_eq_some later

/-- On a finite graph without cycles, a search returns. -/
theorem getAllVertexDfs_returns [Finite Target] (acyclic : rules.Acyclic) (target : Target) :
    ∃ fuel, ∀ search, (getAllVertexDfs rules fuel target search).isSome := by
  have transitive : IsTrans Target (Relation.TransGen rules.Before) :=
    ⟨fun _ _ _ one two => one.trans two⟩
  have irreflexive : Std.Irrefl (Relation.TransGen rules.Before) := ⟨acyclic⟩
  -- The induction is on the target, with the claim for all of its dependencies.
  induction target using (Finite.wellFounded_of_trans_of_irrefl
    (Relation.TransGen rules.Before)).induction with
  | _ target ih =>
    obtain ⟨fuel, returns⟩ := foldlM_returns fun dependency needed => ih dependency (.single needed)
    -- The target itself takes one more than its dependencies.
    refine ⟨fuel + 1, fun search => ?_⟩
    obtain ⟨inner, searched⟩ := Option.isSome_iff_exists.mp (returns search)
    rw [getAllVertexDfs, searched]
    dsimp only
    split <;> rfl

/-- On a finite graph without cycles, `parmake` builds a work list. -/
theorem workList_returns [Finite Target] (acyclic : rules.Acyclic) (targets : List Target) :
    ∃ fuel work, workList rules fuel targets = some work := by
  -- The loop over the goals returns because each search does.
  obtain ⟨fuel, returns⟩ := @foldlM_returns _ rules targets _ fun target _ =>
    getAllVertexDfs_returns acyclic target
  obtain ⟨search, searched⟩ := Option.isSome_iff_exists.mp (returns ⟨[], []⟩)
  exact ⟨fuel, search.allVertexDfs, by rw [workList, searched]; rfl⟩

section Reached

variable {Target : Type*} {rules : Rules Target} {search after : Search Target}
  {list goals : List Target} {target other : Target}

/-- The targets that a goal depends on, over any number of rules, and the goal itself. -/
def Rules.Reaches (rules : Rules Target) (goals : List Target) (target : Target) : Prop :=
  ∃ goal ∈ goals, Relation.ReflTransGen (Goes rules.dependencies) goal target

/-- What the dependencies of a target reach, the target reaches. -/
theorem Rules.Reaches.of_dependencies (reached : rules.Reaches (rules.dependencies target) other) :
    rules.Reaches [target] other := by
  obtain ⟨dependency, needed, way⟩ := reached
  exact ⟨target, List.mem_singleton_self target, .head needed way⟩

/-- A closed list that contains the goals contains everything that they reach. -/
theorem Rules.Closed.reaches (closed : rules.Closed list) (inside : ∀ goal ∈ goals, goal ∈ list)
    (reached : rules.Reaches goals target) : target ∈ list := by
  obtain ⟨goal, wanted, way⟩ := reached
  -- The way from the goal does not leave the list.
  induction way with
  | refl => exact inside goal wanted
  | tail _ step ih => exact closed _ ih _ step

/-- Searching a list of targets adds only what they reach, if searching one does. -/
theorem search_only {visit : Search Target → Target → Option (Search Target)}
    (each : ∀ search after target, visit search target = some after →
      ∀ other ∈ after.allVertexDfs, other ∈ search.allVertexDfs ∨ rules.Reaches [target] other)
    (done : list.foldlM visit search = some after) :
    ∀ other ∈ after.allVertexDfs, other ∈ search.allVertexDfs ∨ rules.Reaches list other := by
  induction list generalizing search with
  | nil =>
    cases done
    exact fun _ member => .inl member
  | cons first rest ih =>
    rw [List.foldlM_cons] at done
    obtain ⟨middle, one, more⟩ := Option.bind_eq_some_iff.mp done
    intro other member
    -- The target was added by the rest of the loop, or by the first search, or before.
    rcases ih more other member with early | ⟨goal, wanted, way⟩
    · refine (each search middle first one other early).imp_right fun reached => ?_
      obtain ⟨goal, wanted, way⟩ := reached
      rw [List.mem_singleton.mp wanted] at way
      exact ⟨first, List.mem_cons_self, way⟩
    · exact .inr ⟨goal, List.mem_cons_of_mem _ wanted, way⟩

variable [DecidableEq Target] {fuel : Nat}

/-- Searching from a target adds only what it depends on. -/
theorem getAllVertexDfs_only (done : getAllVertexDfs rules fuel target search = some after) :
    ∀ other ∈ after.allVertexDfs, other ∈ search.allVertexDfs ∨ rules.Reaches [target] other := by
  induction fuel generalizing target search after with
  | zero => cases done
  | succ fuel ih =>
    rw [getAllVertexDfs] at done
    split at done
    · rename_i inner searched
      have below := search_only (fun _ _ _ one => ih one) searched
      -- What the neighbors have added, the target reaches over them.
      have known : ∀ other ∈ inner.allVertexDfs,
          other ∈ search.allVertexDfs ∨ rules.Reaches [target] other :=
        fun other member => (below other member).imp_right .of_dependencies
      split at done
      · cases done
        exact known
      · cases done
        intro other member
        rcases List.mem_append.mp member with old | new
        · exact known other old
        · exact .inr ⟨target, List.mem_singleton_self target, List.mem_singleton.mp new ▸ .refl⟩
    · cases done

/-- The work list holds exactly what the goals reach. -/
theorem mem_workList {work : List Target} (built : workList rules fuel goals = some work) :
    target ∈ work ↔ rules.Reaches goals target := by
  have closed := (workList_sound built).2.closed
  obtain ⟨search, searched, rfl⟩ := Option.map_eq_some_iff.mp built
  have empty : (⟨[], []⟩ : Search Target).Sound rules :=
    ⟨fun _ => Iff.rfl, List.nodup_nil, fun front target back split => by simp at split⟩
  constructor
  · intro member
    -- Nothing was in the list before the first search.
    rcases search_only (fun _ _ _ one => getAllVertexDfs_only one) searched target member with
      impossible | reached
    · cases impossible
    · exact reached
  · have goals := (search_all
      (fun search after target sound done => getAllVertexDfs_sound sound done) empty searched).2.2
    exact closed.reaches goals

/-- More fuel does not change the work list. -/
theorem workList_mono {work : List Target} {more : Nat} (enough : fuel ≤ more)
    (built : workList rules fuel goals = some work) : workList rules more goals = some work := by
  obtain ⟨search, searched, rfl⟩ := Option.map_eq_some_iff.mp built
  rw [workList, foldlM_mono (fun _ _ _ one => getAllVertexDfs_mono enough one) searched]
  rfl

/--
On a finite graph without cycles the searches from the goals return, with any bound on the depth
that is large enough, and what they have listed is exactly what the goals reach, each target once,
and after all of its dependencies.
-/
theorem workList_exact [Finite Target] (acyclic : rules.Acyclic) (goals : List Target) :
    ∃ fuel work, (∀ more, fuel ≤ more → workList rules more goals = some work) ∧ work.Nodup ∧
      (∀ target, target ∈ work ↔ rules.Reaches goals target) ∧ PostOrdered rules work := by
  obtain ⟨fuel, work, built⟩ := workList_returns acyclic goals
  obtain ⟨nodup, ordered⟩ := workList_sound built
  exact ⟨fuel, work, fun more enough => workList_mono enough built, nodup,
    fun target => mem_workList built, ordered⟩

end Reached

/-- Two goals of one program that share an object file, which is made from a source file. -/
def sharedRules : Rules (Fin 5) where
  dependencies target :=
    if target = 0 then [1, 2] else if target = 4 then [] else if target = 3 then [4] else [3]
  commands _ := ["build"]

theorem sharedRules_acyclic : sharedRules.Acyclic := by
  -- Dependencies have larger numbers.
  have one : ∀ target, ∀ dependency ∈ sharedRules.dependencies target, target < dependency := by
    decide
  have larger {first second : Fin 5} (before : Relation.TransGen sharedRules.Before first second) :
      second < first := by
    induction before with
    | single direct => exact one _ _ direct
    | tail _ direct ih => exact lt_trans (one _ _ direct) ih
  exact fun target cycle => lt_irrefl _ (larger cycle)

/-- The shared object file is searched three times and listed once, behind its source file. -/
theorem workList_exact_shared :
    ∃ fuel work, (∀ more, fuel ≤ more → workList sharedRules more [0, 2] = some work) ∧
      work.Nodup ∧ (∀ target, target ∈ work ↔ sharedRules.Reaches [0, 2] target) ∧
      PostOrdered sharedRules work :=
  workList_exact sharedRules_acyclic [0, 2]

example : workList sharedRules 5 [0, 2] = some [4, 3, 1, 2, 0] := by decide

end SystemProgramming.ParallelMake
