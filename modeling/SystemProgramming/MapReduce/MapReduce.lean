import SystemProgramming.Foundations.Descriptors
import SystemProgramming.Foundations.DirectedGraph
import SystemProgramming.Foundations.Runs
import Mathlib.Algebra.Order.Ring.Nat

/-! A pipeline of splitters, mappers and a reducer, and who holds the ends of its pipes. -/

namespace SystemProgramming.MapReduce

open Foundations

/-- What a descriptor is open for. The pipe of a mapper has its number, that of the reducer the next. -/
inductive End where
  | terminal
  | readEnd (pipe : Nat)
  | writeEnd (pipe : Nat)
  | output
  deriving DecidableEq, Repr

/-- The processes that are forked. -/
inductive Child where
  | splitter (i : Nat)
  | mapper (i : Nat)
  | reducer
  deriving DecidableEq, Repr

/-- `map_pipes[k]`; 0, 1 and 2 are open before, and `pipe` takes the lowest numbers that are free. -/
def mapPipes (k : Nat) : Nat := 3 + k

/-- `reducer_pipes[k]`. -/
def reducerPipes (mapperCount k : Nat) : Nat := 3 + 2 * mapperCount + k

/-- `output_fp`. -/
def outputFp (mapperCount : Nat) : Nat := 5 + 2 * mapperCount

/-- The descriptors of `main` when all pipes are made and the output file is open. -/
def opened (mapperCount : Nat) : Descriptors End := fun fd =>
  if fd < 3 then some .terminal
  else if fd < 5 + 2 * mapperCount then
    if (fd - 3) % 2 = 0 then some (.readEnd ((fd - 3) / 2)) else some (.writeEnd ((fd - 3) / 2))
  else if fd = outputFp mapperCount then some .output
  else none

/-- What a child does before `exec`. -/
def childCalls (mapperCount : Nat) : Child → List DescriptorCall
  | .splitter i => [.close (mapPipes (2 * i)), .dup2 (mapPipes (2 * i + 1)) 1]
  | .mapper i =>
    [.close (reducerPipes mapperCount 0), .dup2 (mapPipes (i * 2)) 0,
      .dup2 (reducerPipes mapperCount 1) 1]
  | .reducer =>
    [.close (reducerPipes mapperCount 1), .dup2 (reducerPipes mapperCount 0) 0,
      .dup2 (outputFp mapperCount) 1]

/-- Whether the program of a child reads its standard input; a splitter reads the input file only. -/
def Child.reads : Child → Bool
  | .splitter _ => false
  | .mapper _ => true
  | .reducer => true

/-- Where a child is. -/
inductive Stage where
  | absent
  /-- Before `exec`, with the calls that it has still to make. -/
  | setup (calls : List DescriptorCall)
  /-- In its program, with the number of bytes that it has to write before it goes on to read or exits. -/
  | running (pending : Nat) (reading : Bool)
  | exited
  deriving DecidableEq, Repr

/-- Where `main` is. -/
inductive Pc where
  /-- About to fork a splitter. -/
  | splitters (i : Nat)
  /-- About to close the write end of a mapper's pipe. -/
  | mappers (i : Nat)
  | forkMapper (i : Nat)
  | forkReducer
  | closing (i : Nat)
  | waitReducer
  | waitSplitter (i : Nat)
  | waitMapper (i : Nat)
  | done
  deriving DecidableEq, Repr

/-- The processes with their descriptors, and the number of bytes in each pipe. -/
structure State where
  pc : Pc
  mainFds : Descriptors End
  fds : Child → Descriptors End
  stage : Child → Stage
  content : Nat → Nat

namespace State

/-- A child with other descriptors in another place. -/
def goto (st : State) (child : Child) (fds : Descriptors End) (stage : Stage) : State :=
  { st with
    fds := Function.update st.fds child fds
    stage := Function.update st.stage child stage }

section Goto

variable {st : State} {child other : Child} {fds : Descriptors End} {stage : Stage}

@[simp] theorem goto_pc : (st.goto child fds stage).pc = st.pc := rfl

@[simp] theorem goto_mainFds : (st.goto child fds stage).mainFds = st.mainFds := rfl

@[simp] theorem goto_fds : (st.goto child fds stage).fds child = fds := Function.update_self _ _ _

@[simp] theorem goto_stage : (st.goto child fds stage).stage child = stage :=
  Function.update_self _ _ _

@[simp] theorem goto_fds_of_ne (apart : other ≠ child) :
    (st.goto child fds stage).fds other = st.fds other := Function.update_of_ne apart _ _

@[simp] theorem goto_stage_of_ne (apart : other ≠ child) :
    (st.goto child fds stage).stage other = st.stage other := Function.update_of_ne apart _ _

end Goto

/-- A process that ends closes all that it has open. -/
def exit (st : State) (child : Child) : State := st.goto child .none .exited

/-- `fork`: the child has what `main` has. -/
def fork (mapperCount : Nat) (st : State) (child : Child) : State :=
  st.goto child st.mainFds (.setup (childCalls mapperCount child))

/-- A child goes on in its program, and a pipe has another number of bytes. -/
def move (st : State) (child : Child) (stage : Stage) (pipe count : Nat) : State :=
  { st.goto child (st.fds child) stage with content := Function.update st.content pipe count }

/-- Some process has this open. -/
def Holds (st : State) (file : End) : Prop :=
  st.mainFds.Holds file ∨ ∃ child, (st.fds child).Holds file

end State

/-- `close` by `main`. -/
def State.close (st : State) (fd : Nat) : State :=
  { st with mainFds := Function.update st.mainFds fd none }

/-- The next step of `main`, unless it has to wait or is done; `fork` does not fail. -/
def mainTurn (mapperCount : Nat) (st : State) : Option State :=
  match st.pc with
  | .splitters i =>
    if i < mapperCount then
      some { st.fork mapperCount (.splitter i) with pc := .splitters (i + 1) }
    else some { st with pc := .mappers 0 }
  | .mappers i =>
    if i < mapperCount then some { st.close (mapPipes (2 * i + 1)) with pc := .forkMapper i }
    else some { st with pc := .forkReducer }
  | .forkMapper i => some { st.fork mapperCount (.mapper i) with pc := .mappers (i + 1) }
  | .forkReducer => some { st.fork mapperCount .reducer with pc := .closing 0 }
  | .closing i =>
    if i < mapperCount * 2 then
      let closed := st.close (mapPipes i)
      let closed := if i < 2 then closed.close (reducerPipes mapperCount i) else closed
      some { closed with pc := .closing (i + 1) }
    else some { st with pc := .waitReducer }
  | .waitReducer =>
    if st.stage .reducer = .exited then some { st with pc := .waitSplitter 0 } else none
  | .waitSplitter i =>
    if i < mapperCount then
      if st.stage (.splitter i) = .exited then some { st with pc := .waitMapper i } else none
    else some { st with pc := .done }
  | .waitMapper i =>
    if st.stage (.mapper i) = .exited then some { st with pc := .waitSplitter (i + 1) } else none
  | .done => none

/--
A step of `main`, or of a child. What the programs write is not known, but only that it is finite,
that a splitter writes all of it, and that a mapper or the reducer reads until its input ends.
-/
inductive Step (mapperCount capacity : Nat) : State → Option Child → State → Prop
  | main {st st' : State} (turned : mainTurn mapperCount st = some st') :
      Step mapperCount capacity st none st'
  | call {st : State} {child : Child} {call : DescriptorCall} {calls : List DescriptorCall}
      {fds : Descriptors End} (here : st.stage child = .setup (call :: calls))
      (ran : call.run (st.fds child) = some fds) :
      Step mapperCount capacity st (some child) (st.goto child fds (.setup calls))
  /-- A call that fails ends the child. -/
  | fails {st : State} {child : Child} {call : DescriptorCall} {calls : List DescriptorCall}
      (here : st.stage child = .setup (call :: calls)) (failed : call.run (st.fds child) = none) :
      Step mapperCount capacity st (some child) (st.exit child)
  /-- `exec` keeps the descriptors. -/
  | exec {st : State} {child : Child} (here : st.stage child = .setup []) (pending : Nat) :
      Step mapperCount capacity st (some child)
        (st.goto child (st.fds child) (.running pending child.reads))
  | write {st : State} {child : Child} {pending pipe : Nat} {reading : Bool}
      (here : st.stage child = .running pending reading)
      (file : st.fds child 1 = some (.writeEnd pipe)) (reader : st.Holds (.readEnd pipe))
      (amount : Nat) (positive : 1 ≤ amount) (left : amount ≤ pending)
      (room : st.content pipe + amount ≤ capacity) :
      Step mapperCount capacity st (some child)
        (st.move child (.running (pending - amount) reading) pipe (st.content pipe + amount))
  /-- Writing to a pipe without a reader ends the process. -/
  | killed {st : State} {child : Child} {pending pipe : Nat} {reading : Bool}
      (here : st.stage child = .running pending reading) (positive : 1 ≤ pending)
      (file : st.fds child 1 = some (.writeEnd pipe)) (abandoned : ¬ st.Holds (.readEnd pipe)) :
      Step mapperCount capacity st (some child) (st.exit child)
  /-- A file takes what is written. -/
  | print {st : State} {child : Child} {pending : Nat} {reading : Bool}
      (here : st.stage child = .running pending reading) (file : st.fds child 1 = some .output)
      (amount : Nat) (positive : 1 ≤ amount) (left : amount ≤ pending) :
      Step mapperCount capacity st (some child)
        (st.goto child (st.fds child) (.running (pending - amount) reading))
  | read {st : State} {child : Child} {pipe : Nat} (here : st.stage child = .running 0 true)
      (file : st.fds child 0 = some (.readEnd pipe)) (amount : Nat) (positive : 1 ≤ amount)
      (there : amount ≤ st.content pipe) (pending : Nat) :
      Step mapperCount capacity st (some child)
        (st.move child (.running pending true) pipe (st.content pipe - amount))
  /-- The end of a file is read from a pipe that is empty and has no writer. -/
  | eof {st : State} {child : Child} {pipe : Nat} (here : st.stage child = .running 0 true)
      (file : st.fds child 0 = some (.readEnd pipe)) (empty : st.content pipe = 0)
      (abandoned : ¬ st.Holds (.writeEnd pipe)) (pending : Nat) :
      Step mapperCount capacity st (some child)
        (st.goto child (st.fds child) (.running pending false))
  | exit {st : State} {child : Child} (here : st.stage child = .running 0 false) :
      Step mapperCount capacity st (some child) (st.exit child)

/-- The pipes are made, and nobody is forked. -/
def start (mapperCount : Nat) : State where
  pc := .splitters 0
  mainFds := opened mapperCount
  fds _ := .none
  stage _ := .absent
  content _ := 0

end SystemProgramming.MapReduce
