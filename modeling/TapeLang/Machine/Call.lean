import TapeLang.Machine.Run

/-!
# Calls

Model of `bfvm.engine`: `Interpreter.step`, `Interpreter.run` and `Interpreter.execute` as they are
called from outside.

* `Machine.call` — the answer to a call.
* `Machine.Reachable` — the states that calls on a fresh interpreter lead to, failed ones included.
-/

namespace TapeLang

inductive Call
  | step
  /-- A run that raises what stops it, perhaps with a limit to the total number of steps. -/
  | run (limit : Option Int)
  /-- A run that reports execution errors. -/
  | execute (limit : Option Int)
  deriving DecidableEq, Repr

inductive Reply
  /-- Whether the program goes on behind the step. -/
  | stepped (more : Bool)
  | ended
  | reported (x : Execution)

structure Answer where
  reply : Except Fault Reply
  state : State
  streams : Streams

namespace Machine

def runReply (h : Halt) : Except Fault Reply :=
  match h.stop with
  | .failed f => .error f
  | _ => .ok .ended

def stepAnswer (m : Machine) (r : Step) : Answer :=
  match r.fault with
  | some f => ⟨.error f, r.state, r.streams⟩
  | none => ⟨.ok (.stepped (!m.finished r.state)), r.state, r.streams⟩

/-- The answer to a call; a run without a limit has one if it stops within `fuel` steps. -/
def call (m : Machine) (fuel : Nat) (c : Call) (s : State) (io : Streams) : Option Answer :=
  match c with
  | .step => some (m.stepAnswer (m.step s io))
  | .run limit => (m.run fuel limit s io).map fun h => ⟨runReply h, h.state, h.streams⟩
  | .execute limit =>
      (m.run fuel limit s io).map fun h => ⟨h.execution.map .reported, h.state, h.streams⟩

inductive Reachable (m : Machine) (io₀ : Streams) : State → Streams → Prop
  | start : Reachable m io₀ m.start io₀
  | call {s : State} {io : Streams} {fuel : Nat} {c : Call} {a : Answer} :
      Reachable m io₀ s io → m.call fuel c s io = some a → Reachable m io₀ a.state a.streams

end Machine

end TapeLang
