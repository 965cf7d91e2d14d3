import TapeLang.Machine.Fault
import TapeLang.Machine.State

/-!
# One step

Model of `bfvm.engine`: `Interpreter.step`, and its handlers `_exec_move_right` to
`_exec_loop_close`.

* `Machine.perform` — the effect of one instruction, by `move`, `adjust`, `write`, `read`, `branch`.
* `Machine.step` — executes the instruction at the instruction pointer, if the program has not
  ended.

A step that does not complete leaves the state as it was; only a read that finds the end of the
input is remembered, also when the policy refuses it. Stream calls are counted whether they succeed
or not.
-/

namespace TapeLang

structure Step where
  /-- What kept the step from completing, if anything did. -/
  fault : Option Fault
  state : State
  streams : Streams

namespace Step

def done (s : State) (io : Streams) : Step := ⟨none, s, io⟩

def fail (f : Fault) (s : State) (io : Streams) : Step := ⟨some f, s, io⟩

end Step

/-- The two ways to move a pointer or a cell by one. -/
inductive Direction
  | up | down
  deriving DecidableEq, Repr

namespace Direction

def delta : Direction → Int
  | .up => 1
  | .down => -1

def pointerCause (d : Direction) (length : Nat) : ExecutionError.Cause :=
  match d with
  | .up => .pointerOverflow length
  | .down => .pointerUnderflow

def cellCause (d : Direction) (value : Int) : ExecutionError.Cause :=
  match d with
  | .up => .arithmeticOverflow value
  | .down => .arithmeticUnderflow value

end Direction

namespace Machine

def error (s : State) (cause : ExecutionError.Cause) : Fault :=
  .execution ⟨cause, s.ip, s.dp⟩

/-! ## Pointer and cell -/

def move (m : Machine) (d : Direction) (s : State) (io : Streams) : Step :=
  match shift s.dp d.delta m.config.tapeLength m.config.pointerOverflow with
  | .ok dp => .done { s with dp }.next io
  | .error .outOfRange => .fail (error s (d.pointerCause m.config.tapeLength)) s io
  | .error e => .fail (.range e) s io

def adjust (m : Machine) (d : Direction) (s : State) (io : Streams) : Step :=
  match s.tape.locate .get s.dp with
  | .error f => .fail (.tape f) s io
  | .ok place =>
    match shift (s.tape.load place) d.delta m.config.cellModulus m.config.cellOverflow with
    | .ok value => .done { s with tape := s.tape.store place value }.next io
    | .error .outOfRange => .fail (error s (d.cellCause (s.tape.load place))) s io
    | .error e => .fail (.range e) s io

/-! ## Streams -/

/-- A cell as the byte that is written for it: its value modulo 256. -/
def outputByte (value : Int) : UInt8 :=
  UInt8.ofNat (value % 256).toNat

def write (s : State) (io : Streams) : Step :=
  match s.cell with
  | .error f => .fail (.tape f) s io
  | .ok value =>
    match io.output.next with
    | some f =>
      .fail (if f.isSystem then error s (.io f) else .stream f) s ⟨io.input, io.output.reject⟩
    | none =>
      .done { s with bytesWritten := s.bytesWritten + 1 }.next
        ⟨io.input, io.output.accept (outputByte value)⟩

def readNothing (m : Machine) (s : State) (io : Streams) : Step :=
  let s := { s with reachedEof := true }
  match m.config.eof with
  | .keep => .done s.next io
  | .zero =>
    match s.tape.locate .set s.dp with
    | .error f => .fail (.tape f) s io
    | .ok place => .done { s with tape := s.tape.store place 0 }.next io
  | .check => .fail (error s .endOfInput) s io

/-- A read that finds byte `b`: the cell keeps as many of its bits as it has room for. -/
def readByte (m : Machine) (b : UInt8) (s : State) (io : Streams) : Step :=
  match s.tape.locate .set s.dp with
  | .error f => .fail (.tape f) s io
  | .ok place =>
    let value : Int := (b.toNat % m.config.cellModulus : Nat)
    .done { s with tape := s.tape.store place value, bytesRead := s.bytesRead + 1 }.next io

/-- Reads into the current cell. Once the input has ended it is not asked again. -/
def read (m : Machine) (s : State) (io : Streams) : Step :=
  if s.reachedEof then m.readNothing s io
  else
    match io.input.next with
    | .fault f =>
      .fail (if f.isSystem then error s (.io f) else .stream f) s ⟨io.input.advance, io.output⟩
    | .chunk (b :: _) => m.readByte b s ⟨io.input.advance, io.output⟩
    | _ => m.readNothing s ⟨io.input.advance, io.output⟩

/-! ## Loops -/

/-- Goes behind the partner of the bracket at `i` if the current cell is zero or not, as `onZero`
tells, and to the next instruction otherwise. -/
def branch (m : Machine) (i : Nat) (onZero : Bool) (s : State) (io : Streams) : Step :=
  match s.cell with
  | .error f => .fail (.tape f) s io
  | .ok value =>
    if (value == 0) == onZero then
      match m.program.partner i with
      | some j => .done (s.goTo (j + 1)) io
      | none => .fail .unpaired s io
    else .done s.next io

/-! ## Instructions -/

def perform (m : Machine) (i : Nat) (op : Instruction) (s : State) (io : Streams) : Step :=
  match op with
  | .moveRight => m.move .up s io
  | .moveLeft => m.move .down s io
  | .increment => m.adjust .up s io
  | .decrement => m.adjust .down s io
  | .write => write s io
  | .read => m.read s io
  | .loopOpen => m.branch i true s io
  | .loopClose => m.branch i false s io

/-- Executes one instruction. A program that has ended stays as it is. -/
def step (m : Machine) (s : State) (io : Streams) : Step :=
  if m.finished s then .done s io
  else
    match m.program.slot s.ip with
    | .error f => .fail (.program f) s io
    | .ok i => m.perform i m.program.instructions[i] s io

/-- Whether the next step calls the input. -/
def reads (m : Machine) (s : State) : Bool :=
  !m.finished s && !s.reachedEof &&
    match m.program.get s.ip with
    | .ok op => op = .read
    | .error _ => false

end Machine

end TapeLang
