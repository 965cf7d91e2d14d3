import TapeLang.Machine.Attempt

/-!
# Machines that share their streams

Several interpreters on one input and one output, stepped in the order of a schedule.

* `Machine.interleave`, `Turn.own` — the turns that were taken, and those of one machine.
* `Streams.bringing` — streams for a machine alone, which bring what some attempts have got.
-/

namespace TapeLang

variable {ι : Type}

structure Turn (ι : Type) where
  machine : ι
  attempt : Attempt

structure Interleaving (ι : Type) where
  turns : List (Turn ι)
  states : ι → State
  streams : Streams

def Turn.own [DecidableEq ι] (i : ι) (turns : List (Turn ι)) : List Attempt :=
  turns.filterMap fun t => if t.machine = i then some t.attempt else none

/-- Calls of `step` on the machines `ms`, as `schedule` tells. -/
def Machine.interleave [DecidableEq ι] (ms : ι → Machine) :
    List ι → (ι → State) → Streams → Interleaving ι
  | [], states, io => ⟨[], states, io⟩
  | i :: schedule, states, io =>
    let a := (ms i).attempt (states i) io
    let later := interleave ms schedule
      (fun j => if j = i then a.outcome.state else states j) a.outcome.streams
    { later with turns := ⟨i, a⟩ :: later.turns }

/-- Streams that bring what the attempts have got from theirs: what was read, and which writes have
failed. -/
def Streams.bringing (log : List Attempt) : Streams where
  input := { pending := log.filterMap Attempt.reading? }
  output := { plan := fun call => (log.filterMap Attempt.writing?)[call]?.join }

end TapeLang
