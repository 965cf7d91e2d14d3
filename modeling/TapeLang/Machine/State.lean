import TapeLang.Config
import TapeLang.Program.Basic
import TapeLang.Tape

/-!
# Machines and their states

Model of `bfvm.engine`: `ExecutionState`, and what an `Interpreter` holds beside it.
-/

namespace TapeLang

structure Machine where
  program : Program
  config : Config := {}

/-- The changing part of an execution. -/
structure State where
  tape : Tape
  /-- The index of the next instruction. -/
  ip : Int := 0
  /-- The index of the current cell. -/
  dp : Int := 0
  steps : Int := 0
  reachedEof : Bool := false
  bytesRead : Nat := 0
  bytesWritten : Nat := 0

namespace State

def cell (s : State) : Except TapeFault Int :=
  s.tape.get s.dp

/-- The state behind an instruction, when the next one is at `ip`. -/
def goTo (s : State) (ip : Int) : State :=
  { s with ip, steps := s.steps + 1 }

def next (s : State) : State :=
  s.goTo (s.ip + 1)

end State

namespace Machine

def start (m : Machine) : State :=
  { tape := .new m.config.tapeLength m.config.cellWidth }

def finished (m : Machine) (s : State) : Bool :=
  (m.program.size : Int) ≤ s.ip

end Machine

end TapeLang
