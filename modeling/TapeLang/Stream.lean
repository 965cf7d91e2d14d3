/-!
# Streams

The two streams of an `Interpreter` of `bfvm.engine`, as values: what the read calls on an input
will bring, and what was written to an output, with a plan of the write calls that fail. Behind the
end of the list every read call finds the end of the input.
-/

namespace TapeLang

inductive StreamFault.Kind
  /-- The system refuses the call; with the system's error number, if there is one. -/
  | system (errno : Option Int)
  /-- The stream cannot be used at all. -/
  | invalid
  /-- The user interrupts the call. -/
  | interrupt
  deriving DecidableEq, Repr

/-- What a stream raises instead of answering. -/
structure StreamFault where
  kind : StreamFault.Kind
  message : String
  deriving DecidableEq, Repr

namespace StreamFault

/-- The fault as it is reported: a system's error number stands in front of the message. -/
def text (f : StreamFault) : String :=
  match f.kind with
  | .system (some errno) => "[Errno " ++ toString errno ++ "] " ++ f.message
  | _ => f.message

def isSystem (f : StreamFault) : Bool :=
  match f.kind with
  | .system _ => true
  | _ => false

end StreamFault

inductive Reading
  /-- Bytes; none at all is the end of input. -/
  | chunk (bytes : List UInt8)
  /-- No answer, which counts as the end of input. -/
  | nothing
  | fault (f : StreamFault)
  deriving DecidableEq, Repr

def Reading.byte? : Reading → Option UInt8
  | .chunk (b :: _) => some b
  | _ => none

structure Input where
  /-- What the next read calls bring. -/
  pending : List Reading := []
  reads : Nat := 0
  deriving DecidableEq, Repr

namespace Input

/-- A stream of bytes: each call brings one, and behind the last one input ends. -/
def ofBytes (bytes : List UInt8) : Input :=
  { pending := bytes.map fun b => .chunk [b] }

def next (input : Input) : Reading :=
  input.pending.headD (.chunk [])

def advance (input : Input) : Input :=
  ⟨input.pending.tail, input.reads + 1⟩

end Input

structure Output where
  bytes : Array UInt8 := #[]
  writes : Nat := 0
  /-- The faults that write calls raise, by the number of the call, counted from zero. -/
  plan : Nat → Option StreamFault := fun _ => none

namespace Output

/-- The plan in which `f` is raised by call `first`, and by every later one unless it is raised
`once`. -/
def failingFrom (first : Int) (once : Bool) (f : StreamFault) (call : Nat) : Option StreamFault :=
  if (call : Int) = first ∨ (first ≤ call ∧ !once) then some f else none

def next (output : Output) : Option StreamFault :=
  output.plan output.writes

def accept (output : Output) (b : UInt8) : Output :=
  { output with bytes := output.bytes.push b, writes := output.writes + 1 }

def reject (output : Output) : Output :=
  { output with writes := output.writes + 1 }

end Output

structure Streams where
  input : Input := {}
  output : Output := {}

end TapeLang
