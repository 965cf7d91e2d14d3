import TapeLang.Command.Files
import TapeLang.Machine.Run

/-!
# Input that comes while a program runs

The streams that `cmd_run` of `bfvm.cli` opens are buffered. If both are one file, a program finds
its own output as far as that has reached the file, in whole blocks; an input may also be a device
that never ends.

* `storedCount` — how many of the bytes written have reached the file.
* `Supply.block`, `Machine.runSupplied` — the bytes that come next, and a run with such a supply.
-/

namespace TapeLang

namespace Command

/-- How many of `count` bytes written have reached the file. -/
def storedCount (count : Nat) : Nat :=
  (count - 1) / blockSize * blockSize

theorem storedCount_le (count : Nat) : storedCount count ≤ count :=
  Nat.le_trans (Nat.div_mul_le_self _ _) (Nat.sub_le _ _)

theorem le_storedCount_add (count : Nat) : count ≤ storedCount count + blockSize := by
  have h := Nat.div_add_mod (count - 1) blockSize
  have hm : (count - 1) % blockSize < blockSize := Nat.mod_lt _ (by decide)
  rw [Nat.mul_comm] at h
  rw [storedCount]
  omega

/-- Where more input comes from when all that was known is used up. -/
inductive Supply
  | none
  | written
  | zeros
  deriving DecidableEq, Repr

namespace Supply

/-- The bytes that come next, when `fetched` bytes have come before. -/
def block (supply : Supply) (output : Output) (fetched : Nat) : List UInt8 :=
  match supply with
  | none => []
  | written =>
      (output.bytes.extract fetched
        (min (fetched + blockSize) (storedCount output.bytes.size))).toList
  | zeros => List.replicate blockSize 0

/-- The streams with the next block as input, and how many bytes have come by then. -/
def fetch (supply : Supply) (io : Streams) (fetched : Nat) : Streams × Nat :=
  let bytes := supply.block io.output fetched
  (⟨{ io.input with pending := (Input.ofBytes bytes).pending }, io.output⟩, fetched + bytes.length)

end Supply

end Command

namespace Machine

def supplied (m : Machine) (supply : Command.Supply) (s : State) (io : Streams) (fetched : Nat) :
    Streams × Nat :=
  if m.reads s && io.input.pending.isEmpty then supply.fetch io fetched else (io, fetched)

/-- A run with or without a step limit, whose input comes from a supply, if it stops within `fuel`
steps. -/
def runSupplied (m : Machine) (supply : Command.Supply) (limit : Option Int) :
    Nat → State → Streams → Nat → Option Halt
  | 0, _, _, _ => none
  | fuel + 1, s, io, fetched =>
    if limit.any (· ≤ s.steps) then m.run 0 limit s io
    else
      let (io, fetched) := m.supplied supply s io fetched
      match m.advance 1 s io with
      | ⟨.paused, s, io⟩ => m.runSupplied supply limit fuel s io fetched
      | halt => some halt

end Machine

end TapeLang
