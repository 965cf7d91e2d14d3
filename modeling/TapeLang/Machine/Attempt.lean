import TapeLang.Machine.Call
import TapeLang.Machine.Stepping

/-!
# Attempts

Calls of `Interpreter.step`, kept with all that they found and left, whether they completed or not.

* `Attempt` — one call; `reading?`, `writing?` — what its stream call brought, if it made one;
  `stored?`, `written?` — what it stored or wrote, if it completed.
* `Machine.trail` — so many attempts in a row, each made whatever came of the one before.
* `Machine.Session` — the attempts that calls on a fresh interpreter make, with what they lead to.
-/

namespace TapeLang

/-- A call of `step`: what it finds and what it leaves. -/
structure Attempt where
  /-- The instruction that is executed, if there is one. -/
  op : Option Instruction
  state : State
  streams : Streams
  outcome : Step

def Reading.isEnd : Reading → Bool
  | .chunk [] => true
  | .nothing => true
  | _ => false

namespace Attempt

/-- What the read call that the attempt made has brought. -/
def reading? (a : Attempt) : Option Reading :=
  if a.streams.input.reads < a.outcome.streams.input.reads then some a.streams.input.next else none

/-- What the write call that the attempt made has raised, or that it raised nothing. -/
def writing? (a : Attempt) : Option (Option StreamFault) :=
  if a.streams.output.writes < a.outcome.streams.output.writes then some a.streams.output.next
    else none

/-- What the current cell holds behind a read that has completed with a byte. -/
def stored? (a : Attempt) : Option Int :=
  if a.op = some .read ∧ a.outcome.fault = none ∧ a.outcome.state.reachedEof = false then
    a.outcome.state.cell.toOption
  else none

/-- The current cell modulo 256 at a write that has completed. -/
def written? (a : Attempt) : Option UInt8 :=
  if a.op = some .write ∧ a.outcome.fault = none then a.state.cell.toOption.map Machine.outputByte
    else none

def readRaised (a : Attempt) : Bool :=
  a.op = some .read && a.outcome.fault.any Fault.ofStream

def writeFailed (a : Attempt) : Bool :=
  a.op = some .write && a.outcome.fault.isSome

def findsEnd (a : Attempt) : Bool :=
  a.reading?.any Reading.isEnd

end Attempt

structure Trail where
  attempts : List Attempt
  state : State
  streams : Streams

namespace Trail

def faults (t : Trail) : List (Option Fault) :=
  t.attempts.map (·.outcome.fault)

end Trail

namespace Machine

def upcoming (m : Machine) (s : State) : Option Instruction :=
  if m.finished s then none else (m.program.get s.ip).toOption

def attempt (m : Machine) (s : State) (io : Streams) : Attempt :=
  ⟨m.upcoming s, s, io, m.step s io⟩

/-- `n` calls of `step` in a row. A call that does not complete is followed by the next all the
same. -/
def trail (m : Machine) : Nat → State → Streams → Trail
  | 0, s, io => ⟨[], s, io⟩
  | n + 1, s, io =>
    let a := m.attempt s io
    let later := m.trail n a.outcome.state a.outcome.streams
    { later with attempts := a :: later.attempts }

def advanceAttempts (m : Machine) : Nat → State → Streams → List Attempt
  | 0, _, _ => []
  | n + 1, s, io =>
    if m.finished s then []
    else
      let a := m.attempt s io
      match a.outcome with
      | ⟨none, s, io⟩ => a :: m.advanceAttempts n s io
      | ⟨some _, _, _⟩ => [a]

def runAttempts (m : Machine) (fuel : Nat) (limit : Option Int) (s : State) (io : Streams) :
    List Attempt :=
  match limit with
  | some k => m.advanceAttempts (k - s.steps).toNat s io
  | none => m.advanceAttempts fuel s io

def callAttempts (m : Machine) (fuel : Nat) (c : Call) (s : State) (io : Streams) : List Attempt :=
  match c with
  | .step => [m.attempt s io]
  | .run limit => m.runAttempts fuel limit s io
  | .execute limit => m.runAttempts fuel limit s io

/-- **The attempts that calls on a fresh interpreter make**, and the state and the streams that the
calls lead to. -/
inductive Session (m : Machine) (io₀ : Streams) : List Attempt → State → Streams → Prop
  | start : Session m io₀ [] m.start io₀
  | call {log : List Attempt} {s : State} {io : Streams} {fuel : Nat} {c : Call} {a : Answer} :
      Session m io₀ log s io → m.call fuel c s io = some a →
        Session m io₀ (log ++ m.callAttempts fuel c s io) a.state a.streams

end Machine

end TapeLang
