import Mathlib.Data.List.TakeWhile
import Mathlib.Logic.Function.Basic

/-! Running a command in a changed environment. -/

namespace SystemProgramming.Env

/-- A string without a zero byte. -/
abbrev Word := List Char

/-- The values of the environment variables that are set. -/
abbrev Environ := Word → Option Word

/-- `"--"`. -/
def dashes : Word := ['-', '-']

/-- `strtok(text, "=")`: the next token, and what is behind the sign that ends it. -/
def strtok (text : Word) : Option (Word × Word) :=
  let start := text.dropWhile (· = '=')
  if start = [] then none
  else some (start.takeWhile (· ≠ '='), (start.dropWhile (· ≠ '=')).drop 1)

/-- How `before_dash` ends: it has set a variable, or it has reported why not. -/
inductive Change where
  | applied (environ : Environ)
  | usage
  | changeFailed

/--
`before_dash`; undefined where it looks at a value that is `NULL`, or that was never set. The
functions that report an error end the program.
-/
def beforeDash (input : Word) (environ : Environ) : Option Change :=
  if '=' ∉ input then some .usage
  else
    (strtok input).bind fun (key, rest) =>
      (strtok rest).bind fun (value, _) =>
        let value := if value.head? = some '%' then environ value.tail else some value
        match value with
        | none => some .changeFailed
        | some value => some (.applied (Function.update environ key (some value)))

/-- The counters of `main`, under its own names for them. -/
structure Counts where
  after : Nat
  before : Nat
  execArgs : Bool
  deriving DecidableEq, Repr

/-- One turn of the loop of `main`. -/
def count (counts : Counts) (argument : Word) : Counts :=
  if argument = dashes then { counts with execArgs := true }
  else if counts.execArgs then { counts with before := counts.before + 1 }
  else { counts with after := counts.after + 1 }

/-- What `fork` returns: -1, the number of the child, or 0. -/
inductive Fork where
  | failed
  | parent
  | child
  deriving DecidableEq, Repr

/-- What a process does in the end; a file may be `NULL`. -/
inductive Outcome where
  | usage
  | forkFailed
  | waitsForChild
  | execvp (file : Option Word) (arguments : List Word) (environ : Environ)

/-- `main`. What comes behind the last argument is `NULL`. -/
def main (fork : Fork) (argv : List Word) (environ : Environ) : Outcome :=
  if argv.length < 3 then .usage
  else
    match fork with
    | .failed => .forkFailed
    | .parent => .waitsForChild
    | .child =>
      let counts := (argv.drop 1).foldl count ⟨0, 0, false⟩
      if counts.after = 0 ∧ counts.before = 0 ∨ ¬ counts.execArgs then .usage
      else .execvp argv[counts.before + 2]? (argv.drop (counts.before + 2)) environ

section Assignments

/-- What a variable is set to: a text, or the value of another variable. -/
inductive Value where
  | literal (text : Word)
  | other (name : Word)
  deriving DecidableEq, Repr

/-- How a value is written. -/
def Value.text : Value → Word
  | literal text => text
  | other name => '%' :: name

/-- What a value is in an environment; nothing, if it is that of a variable that is not set. -/
def Value.read (environ : Environ) : Value → Option Word
  | literal text => some text
  | other name => environ name

/-- An argument `KEY=VALUE`, or `KEY=%OTHER`. -/
structure Assignment where
  key : Word
  value : Value
  key_nonempty : key ≠ []
  key_plain : '=' ∉ key
  literal_plain : ∀ text, value = .literal text → text.head? ≠ some '%'

/-- How an assignment is written. -/
def Assignment.text (assignment : Assignment) : Word :=
  assignment.key ++ '=' :: assignment.value.text

/-- What an assignment is for. -/
def Assignment.apply (environ : Environ) (assignment : Assignment) : Option Environ :=
  (assignment.value.read environ).map fun value =>
    Function.update environ assignment.key (some value)

/-- All assignments in their order, each in the environment that those before it have made. -/
def applyAll (assignments : List Assignment) (environ : Environ) : Option Environ :=
  assignments.foldlM Assignment.apply environ

/-- What the program is for: the command runs in the environment that the assignments make. -/
def Runs (assignments : List Assignment) (file : Word) (arguments : List Word) (environ : Environ)
    (outcome : Outcome) : Prop :=
  ∃ changed, applyAll assignments environ = some changed ∧
    outcome = .execvp (some file) (file :: arguments) changed

variable {environ : Environ} {assignment : Assignment}

/-- An assignment is not the separator. -/
theorem text_ne_dashes : assignment.text ≠ dashes := by
  intro same
  have member : '=' ∈ assignment.text := by simp [Assignment.text]
  rw [same] at member
  exact absurd member (by simp [dashes])

/-- A token that nothing is in front of ends at the next sign, or with the text. -/
theorem strtok_front {front rest : Word} (nonempty : front ≠ []) (plain : '=' ∉ front)
    (ends : ∀ character ∈ rest.head?, character = '=') :
    strtok (front ++ rest) = some (front, rest.drop 1) := by
  have none_here : ∀ character ∈ front, decide (character ≠ '=') = true := by
    rintro character member
    simp only [decide_eq_true_eq]
    rintro rfl
    exact plain member
  have start : (front ++ rest).dropWhile (· = '=') = front ++ rest := by
    obtain ⟨first, more, rfl⟩ := List.exists_cons_of_ne_nil nonempty
    rw [List.cons_append, List.dropWhile_cons_of_neg]
    simpa using none_here first List.mem_cons_self
  have token : rest.takeWhile (· ≠ '=') = [] ∧ rest.dropWhile (· ≠ '=') = rest := by
    cases rest with
    | nil => exact ⟨rfl, rfl⟩
    | cons sign rest =>
      obtain rfl := ends sign rfl
      simp
  rw [strtok, start, if_neg (by simp [nonempty]), List.takeWhile_append_of_pos none_here,
    List.dropWhile_append_of_pos none_here, token.1, token.2, List.append_nil]

/--
`before_dash` would do what an assignment is for, if it was called; the value must not be empty, and
it is cut off where there is another sign in it.
-/
theorem beforeDash_text (nonempty : assignment.value.text ≠ [])
    (plain : '=' ∉ assignment.value.text) :
    beforeDash assignment.text environ = some
      ((assignment.apply environ).elim .changeFailed .applied) := by
  have key : strtok assignment.text = some (assignment.key, assignment.value.text) :=
    strtok_front assignment.key_nonempty assignment.key_plain (by simp)
  have value : strtok assignment.value.text = some (assignment.value.text, []) := by
    have whole := @strtok_front _ [] nonempty plain (by simp)
    rwa [List.append_nil] at whole
  have sign : '=' ∈ assignment.text := by simp [Assignment.text]
  rw [beforeDash, if_neg (not_not_intro sign), key, Option.bind_some]
  simp only [value, Option.bind_some]
  rw [Assignment.apply]
  cases kind : assignment.value with
  | literal text =>
    -- A text that is meant as it is does not start with a percent sign.
    have other := assignment.literal_plain text kind
    simp [Value.text, Value.read, other]
  | other name =>
    cases found : environ name <;> simp [Value.text, Value.read, found]

end Assignments

section Commands

variable {counts : Counts} {words : List Word}

/-- In front of the separator, every argument is counted in `after`. -/
theorem foldl_count_before (apart : ∀ word ∈ words, word ≠ dashes) (still : counts.execArgs = false) :
    words.foldl count counts = { counts with after := counts.after + words.length } := by
  induction words generalizing counts with
  | nil => rfl
  | cons word words ih =>
    have counted : count counts word = { counts with after := counts.after + 1 } := by
      rw [count, if_neg (apart word List.mem_cons_self), if_neg (by simp [still])]
    have later := @ih { counts with after := counts.after + 1 }
      (fun other member => apart other (.tail _ member)) still
    rw [List.foldl_cons, counted, later, List.length_cons, Nat.add_assoc, Nat.add_comm 1]

/-- Behind it, every argument that is not a separator is counted in `before`. -/
theorem foldl_count_behind (seen : counts.execArgs = true) : words.foldl count counts =
    { counts with before := counts.before + words.countP (· ≠ dashes) } := by
  induction words generalizing counts with
  | nil => rfl
  | cons word words ih =>
    rw [List.foldl_cons]
    by_cases separator : word = dashes
    · have counted : count counts word = counts := by
        rw [count, if_pos separator, ← seen]
      rw [counted, ih seen, List.countP_cons_of_neg (by simp [separator])]
    · have counted : count counts word = { counts with before := counts.before + 1 } := by
        rw [count, if_neg separator, if_pos seen]
      have later := @ih { counts with before := counts.before + 1 } seen
      rw [counted, later, List.countP_cons_of_pos (by simp [separator]), Nat.add_assoc,
        Nat.add_comm 1]

/-- What the child does: the command is looked for behind as many arguments as follow the separator. -/
theorem main_child (program : Word) (before command : List Word) (environ : Environ)
    (apart : ∀ word ∈ before, word ≠ dashes) (some : command ≠ []) :
    main .child (program :: before ++ dashes :: command) environ =
      if before = [] ∧ command.countP (· ≠ dashes) = 0 then .usage
      else .execvp (program :: before ++ dashes :: command)[command.countP (· ≠ dashes) + 2]?
        ((program :: before ++ dashes :: command).drop (command.countP (· ≠ dashes) + 2)) environ := by
  have enough : ¬ (program :: before ++ dashes :: command).length < 3 := by
    have positive := List.length_pos_iff.mpr some
    simp only [List.length_append, List.length_cons]
    omega
  have counted : ((program :: before ++ dashes :: command).drop 1).foldl count ⟨0, 0, false⟩ =
      ⟨before.length, command.countP (· ≠ dashes), true⟩ := by
    rw [List.cons_append, List.drop_one, List.tail_cons, List.foldl_append,
      foldl_count_before apart rfl, List.foldl_cons, count, if_pos rfl, foldl_count_behind rfl]
    simp
  rw [main, if_neg enough]
  simp only [counted, not_true_eq_false, or_false, List.length_eq_zero_iff]

/--
The child runs the command behind the first separator, in the environment that the assignments make,
exactly if as many arguments follow the separator as there are in front of it, where those behind it
that are separators are not counted, there is at least one, and the assignments change nothing.
-/
theorem runs_iff (program : Word) (assignments : List Assignment) (file : Word)
    (arguments : List Word) (environ : Environ) :
    Runs assignments file arguments environ
        (main .child (program :: assignments.map Assignment.text ++ dashes :: file :: arguments)
          environ) ↔
      (file :: arguments).countP (· ≠ dashes) = assignments.length ∧ assignments ≠ [] ∧
        applyAll assignments environ = some environ := by
  have apart : ∀ word ∈ assignments.map Assignment.text, word ≠ dashes := by
    intro word member
    obtain ⟨assignment, _, rfl⟩ := List.mem_map.mp member
    exact text_ne_dashes
  rw [main_child program _ _ environ apart (List.cons_ne_nil _ _)]
  simp only [List.map_eq_nil_iff]
  generalize behind : (file :: arguments).countP (· ≠ dashes) = count
  have front : (program :: assignments.map Assignment.text ++ [dashes]).length =
      assignments.length + 2 := by simp
  have whole : program :: assignments.map Assignment.text ++ dashes :: file :: arguments =
      (program :: assignments.map Assignment.text ++ [dashes]) ++ file :: arguments := by simp
  rw [whole]
  constructor
  · rintro ⟨changed, applied, same⟩
    split at same
    · cases same
    · rename_i some
      obtain ⟨_, rest, rfl⟩ := Outcome.execvp.inj same
      -- What is left behind the place that was taken is the command, so the place is the right one.
      have lengths := congrArg List.length rest
      rw [List.length_drop, List.length_append, front] at lengths
      simp only [List.length_cons] at lengths
      have place : count = assignments.length := by omega
      refine ⟨place, ?_, applied⟩
      rintro rfl
      exact some ⟨rfl, place⟩
  · rintro ⟨rfl, nonempty, applied⟩
    refine ⟨environ, applied, ?_⟩
    rw [if_neg fun both => nonempty both.1, ← front, List.drop_left', List.getElem?_append_right]
    · simp
    · exact Nat.le_refl _
    · rfl

/-- `A=1`. -/
def sampleAssignment : Assignment where
  key := ['A']
  value := .literal ['1']
  key_nonempty := by decide
  key_plain := by decide
  literal_plain := by
    rintro text same
    obtain rfl := Value.literal.inj same
    decide

/-- `env A=1 -- ls` leaves the environment as it is, and `env -- ls` runs no command at all. -/
theorem assignments_missed :
    ¬ Runs [sampleAssignment] ['l', 's'] [] (fun _ => none)
      (main .child [['e', 'n', 'v'], sampleAssignment.text, dashes, ['l', 's']] fun _ => none) ∧
    main .child [['e', 'n', 'v'], dashes, ['l', 's']] (fun _ => none) =
      .execvp none [] fun _ => none := by
  constructor
  · rintro ⟨changed, applied, same⟩
    obtain ⟨_, _, rfl⟩ := Outcome.execvp.inj same
    have value : some ['1'] = (none : Option Word) := congrFun (Option.some.inj applied) ['A']
    cases value
  · rfl

end Commands

end SystemProgramming.Env
