/-!
# The eight instructions

Model of `bfvm.syntax`: `Instruction` and the table of their symbols.

* `Instruction.symbol`, `Instruction.byte` — how each is written, in one byte of ASCII.
* `Instruction.ofByte?` — the instruction that a byte of source text stands for, if any.
-/

namespace TapeLang

inductive Instruction
  | moveRight | moveLeft | increment | decrement | write | read | loopOpen | loopClose
  deriving DecidableEq, Repr

namespace Instruction

/-- Every instruction, in the order of the language's table. -/
def all : List Instruction :=
  [.moveRight, .moveLeft, .increment, .decrement, .write, .read, .loopOpen, .loopClose]

def symbol : Instruction → Char
  | .moveRight => '>'
  | .moveLeft => '<'
  | .increment => '+'
  | .decrement => '-'
  | .write => '.'
  | .read => ','
  | .loopOpen => '['
  | .loopClose => ']'

def byte : Instruction → UInt8
  | .moveRight => 0x3E
  | .moveLeft => 0x3C
  | .increment => 0x2B
  | .decrement => 0x2D
  | .write => 0x2E
  | .read => 0x2C
  | .loopOpen => 0x5B
  | .loopClose => 0x5D

def label : Instruction → String
  | .moveRight => "MOVE_RIGHT"
  | .moveLeft => "MOVE_LEFT"
  | .increment => "INCREMENT"
  | .decrement => "DECREMENT"
  | .write => "WRITE"
  | .read => "READ"
  | .loopOpen => "LOOP_OPEN"
  | .loopClose => "LOOP_CLOSE"

/-- The instruction that a byte stands for, if it stands for one. -/
def ofByte? (b : UInt8) : Option Instruction :=
  if b = 0x3E then some .moveRight
  else if b = 0x3C then some .moveLeft
  else if b = 0x2B then some .increment
  else if b = 0x2D then some .decrement
  else if b = 0x2E then some .write
  else if b = 0x2C then some .read
  else if b = 0x5B then some .loopOpen
  else if b = 0x5D then some .loopClose
  else none

@[simp]
theorem ofByte?_byte (i : Instruction) : ofByte? i.byte = some i := by
  cases i <;> rfl

theorem byte_of_ofByte? {b : UInt8} {i : Instruction} (h : ofByte? b = some i) : b = i.byte := by
  unfold ofByte? at h
  repeat' split at h
  all_goals simp_all [byte]
  all_goals subst h; rfl

end Instruction

end TapeLang
