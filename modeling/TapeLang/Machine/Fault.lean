import TapeLang.Overflow
import TapeLang.Program.Basic
import TapeLang.Stream
import TapeLang.Tape

/-!
# What can go wrong in a step

Model of `bfvm.errors`: `ExecutionError` and its classes, `ArithmeticOverflow` to `IOFailure`.

* `ExecutionError` — a failure that an execution reports, with the instruction and the cell.
* `Fault` — all that can keep a step from completing, stream faults that pass through among them.
-/

namespace TapeLang

inductive ExecutionError.Cause
  | arithmeticOverflow (value : Int)
  | arithmeticUnderflow (value : Int)
  | pointerOverflow (length : Nat)
  | pointerUnderflow
  | endOfInput
  | stepLimit (limit : Int)
  /-- The system refused a stream operation. -/
  | io (fault : StreamFault)
  deriving DecidableEq, Repr

/-- A failure that an execution reports: its cause, and both pointers at that moment. -/
structure ExecutionError where
  cause : ExecutionError.Cause
  ip : Int
  dp : Int
  deriving DecidableEq, Repr

namespace ExecutionError

/-- The value that the failure is about: that of the cell, the data pointer or the limit. -/
def value (e : ExecutionError) : Option Int :=
  match e.cause with
  | .arithmeticOverflow v => some v
  | .arithmeticUnderflow v => some v
  | .pointerOverflow _ => some e.dp
  | .pointerUnderflow => some e.dp
  | .stepLimit n => some n
  | .endOfInput => none
  | .io _ => none

def detail (e : ExecutionError) : String :=
  match e.cause with
  | .arithmeticOverflow v => "attempt to add with overflow: " ++ toString v ++ " + 1"
  | .arithmeticUnderflow v => "attempt to subtract with overflow: " ++ toString v ++ " - 1"
  | .pointerOverflow n =>
    "data pointer exceeded the tape: " ++ toString e.dp ++ " + 1 (tape length " ++ toString n ++ ")"
  | .pointerUnderflow => "data pointer moved below 0: " ++ toString e.dp ++ " - 1"
  | .endOfInput => "reached end of input but a read command was executed"
  | .stepLimit n => "step limit of " ++ toString n ++ " reached"
  | .io f => "io error: " ++ f.text

def message (e : ExecutionError) : String :=
  "runtime error: " ++ e.detail ++ " (at instruction " ++ toString e.ip ++ ")"

end ExecutionError

/-- What keeps a step from completing. -/
inductive Fault
  | execution (error : ExecutionError)
  /-- A stream raised a fault that is none of the system's. -/
  | stream (fault : StreamFault)
  /-- The instruction pointer names no instruction. -/
  | program (fault : IndexFault)
  /-- The data pointer names no cell. -/
  | tape (fault : TapeFault)
  /-- A range to wrap into is empty. -/
  | range (error : ShiftError)
  | unpaired
  deriving DecidableEq, Repr

def Fault.message : Fault → String
  | .execution e => e.message
  | .stream f => f.text
  | .program f => f.message
  | .tape f => f.message
  | .range e => e.message
  | .unpaired => "bracket without a partner"

end TapeLang
