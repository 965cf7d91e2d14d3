import TapeLang.Machine.Step

/-!
# Step after step

* `Machine.steps` — so many calls of `Interpreter.step`; the first that does not complete is the
  last.
* `Machine.persist` — the same, but a call that a stream keeps from completing is made again.
-/

namespace TapeLang

def Fault.ofStream (f : Fault) : Bool :=
  match f with
  | .execution e =>
    match e.cause with
    | .io _ => true
    | _ => false
  | .stream _ => true
  | _ => false

namespace Machine

def steps (m : Machine) : Nat → State → Streams → Step
  | 0, s, io => .done s io
  | n + 1, s, io =>
    match m.step s io with
    | ⟨none, s, io⟩ => m.steps n s io
    | failed => failed

/-- Calls `step` until `n` steps have completed or one has failed with a fault that no stream
raised. A step that a stream keeps from completing is called again. There is no outcome if that
takes more than `attempts` calls. -/
def persist (m : Machine) : Nat → Nat → State → Streams → Option Step
  | _, 0, s, io => some (.done s io)
  | 0, _ + 1, _, _ => none
  | attempts + 1, n + 1, s, io =>
    match m.step s io with
    | ⟨none, s, io⟩ => m.persist attempts n s io
    | ⟨some f, s, io⟩ => if f.ofStream then m.persist attempts (n + 1) s io else some (.fail f s io)

end Machine

end TapeLang
