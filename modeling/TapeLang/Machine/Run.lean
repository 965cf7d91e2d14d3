import TapeLang.Machine.Step

/-!
# Runs

Model of `bfvm.engine`: `Interpreter.run` and `Interpreter.execute`.

* `Machine.advance` — steps until the program ends, one does not complete, or enough are made.
* `Machine.runUpTo`, `Machine.runFor`, `Machine.run` — a run with a limit to the total number of
  steps, one without, and either. A program that has ended satisfies every limit.
* `Halt.execution` — how a run is reported. Faults that are no execution errors are passed on.
-/

namespace TapeLang

inductive Stop
  | finished
  | failed (fault : Fault)
  /-- As many steps have been made as were asked for. -/
  | paused
  deriving DecidableEq, Repr

structure Halt where
  stop : Stop
  state : State
  streams : Streams

/-- The outcome of an execution that is reported: there is an error exactly if it failed. -/
structure Execution where
  error : Option ExecutionError
  state : State

namespace Machine

/-- Steps until the program ends, a step does not complete, or `n` steps have been made. -/
def advance (m : Machine) : Nat → State → Streams → Halt
  | 0, s, io => ⟨if m.finished s then .finished else .paused, s, io⟩
  | n + 1, s, io =>
    if m.finished s then ⟨.finished, s, io⟩
    else
      match m.step s io with
      | ⟨some f, s, io⟩ => ⟨.failed f, s, io⟩
      | ⟨none, s, io⟩ => m.advance n s io

def runUpTo (m : Machine) (limit : Int) (s : State) (io : Streams) : Halt :=
  match m.advance (limit - s.steps).toNat s io with
  | ⟨.paused, s, io⟩ => ⟨.failed (error s (.stepLimit limit)), s, io⟩
  | halt => halt

def runFor (m : Machine) (fuel : Nat) (s : State) (io : Streams) : Option Halt :=
  match m.advance fuel s io with
  | ⟨.paused, _, _⟩ => none
  | halt => some halt

/-- A run with or without a step limit; without one, if it stops within `fuel` steps. -/
def run (m : Machine) (fuel : Nat) (limit : Option Int) (s : State) (io : Streams) : Option Halt :=
  match limit with
  | some k => some (m.runUpTo k s io)
  | none => m.runFor fuel s io

end Machine

namespace Halt

/-- What is reported of a run: success or an execution error. Any other fault is passed on. -/
def execution (h : Halt) : Except Fault Execution :=
  match h.stop with
  | .failed (.execution e) => .ok ⟨some e, h.state⟩
  | .failed f => .error f
  | _ => .ok ⟨none, h.state⟩

end Halt

end TapeLang
