import TapeLang.Machine.Stepping
import TapeLang.Proofs.Machine.Conditions

/-!
# Code that only counts

Four of the instructions change a number by one: the current cell, or the data pointer. Code made of
these alone never jumps, so it is run instruction after instruction.

* `Register` — the two numbers, with the range, the mode and the errors that the configuration has
  for them; `Register.instruction` — the four instructions.
* `Register.Holds` — what a register holds, as it is read; `Register.set` — the state with it
  changed.
* `Machine.step_register` — one equation for a step at any of the four.
* `Machine.Ahead` — the code that the instruction pointer stands in front of; `Ahead.head`,
  `Ahead.left`, `Ahead.right`, `Ahead.tail` — its first instruction, and its parts.
-/

namespace TapeLang

/-- A number that is counted up and down. -/
inductive Register
  /-- The current cell. -/
  | cell
  /-- The data pointer. -/
  | pointer
  deriving DecidableEq, Repr

namespace Register

/-- The instruction that moves the register by one. -/
def instruction : Register → Direction → Instruction
  | .cell, .up => .increment
  | .cell, .down => .decrement
  | .pointer, .up => .moveRight
  | .pointer, .down => .moveLeft

/-- The number of values that the register has. -/
def bound (r : Register) (c : Config) : Int :=
  match r with
  | .cell => c.cellModulus
  | .pointer => c.tapeLength

/-- What happens when the register would leave its range. -/
def mode (r : Register) (c : Config) : Overflow :=
  match r with
  | .cell => c.cellOverflow
  | .pointer => c.pointerOverflow

/-- What is wrong when the register holds `v` and cannot be moved. -/
def cause (r : Register) (c : Config) (d : Direction) (v : Int) : ExecutionError.Cause :=
  match r with
  | .cell => d.cellCause v
  | .pointer => d.pointerCause c.tapeLength

/-- The register holds `v`. -/
def Holds (r : Register) (s : State) (v : Int) : Prop :=
  match r with
  | .cell => s.cell = .ok v
  | .pointer => s.dp = v

/-- The state with the register changed to `v`. -/
def set (r : Register) (s : State) (v : Int) : State :=
  match r with
  | .cell => s.put v
  | .pointer => { s with dp := v }

variable {c : Config} {s : State} {v : Int}

theorem bound_pos (r : Register) (c : Config) : 0 < r.bound c := by
  cases r with
  | cell => exact Int.natCast_pos.mpr c.cellModulus_pos
  | pointer => exact Int.natCast_pos.mpr c.tapeLength_pos

theorem exists_holds (r : Register) (h : s.Fits c) : ∃ v, r.Holds s v := by
  cases r with
  | cell => exact ⟨s.current, h.cell_eq⟩
  | pointer => exact ⟨s.dp, rfl⟩

theorem mem_range (r : Register) (h : s.Fits c) (hv : r.Holds s v) : 0 ≤ v ∧ v < r.bound c := by
  cases r with
  | cell =>
      obtain rfl := h.current_eq hv
      exact h.current_range
  | pointer =>
      obtain rfl : s.dp = v := hv
      exact ⟨h.dp_nonneg, h.dp_lt⟩

theorem fits_set (r : Register) (h : s.Fits c) (hv : 0 ≤ v ∧ v < r.bound c) :
    (r.set s v).Fits c := by
  cases r with
  | cell => exact h.put hv
  | pointer => exact h.moved hv

theorem holds_set (r : Register) (h : s.Fits c) (v : Int) : r.Holds (r.set s v) v := by
  cases r with
  | cell => exact h.cell_put v
  | pointer => exact rfl

theorem holds_next (r : Register) : r.Holds s.next v ↔ r.Holds s v := by
  cases r <;> rfl

theorem value_cause (r : Register) (c : Config) (d : Direction) {s : State} (hv : r.Holds s v) :
    (⟨r.cause c d v, s.ip, s.dp⟩ : ExecutionError).value = some v := by
  cases r with
  | cell => cases d <;> rfl
  | pointer =>
      obtain rfl : s.dp = v := hv
      cases d <;> rfl

end Register

namespace Machine

open State (Fits)

variable {m : Machine} {s s' : State} {w w' : List Instruction}

/-! ## One step -/

/-- **A step at one of the four instructions**: the register is shifted by one, under the mode and
the bound that it has. -/
theorem step_register (r : Register) (d : Direction) (h : s.Fits m.config) {i : Nat}
    (hip : s.ip = i) (hop : m.program.instructions[i]? = some (r.instruction d)) {v : Int}
    (hv : r.Holds s v) (io : Streams) :
    m.step s io =
      match shift v d.delta (r.bound m.config) (r.mode m.config) with
      | .ok w => .done (r.set s w).next io
      | .error _ => .fail (error s (r.cause m.config d v)) s io := by
  rw [step_eq_perform hip hop]
  cases r with
  | cell =>
      obtain rfl := h.current_eq hv
      cases d <;> exact adjust_eq h _ io
  | pointer =>
      obtain rfl : s.dp = v := hv
      cases d <;> exact move_eq m _ s io

/-! ## The code ahead -/

/-- **The code ahead**: from the instruction pointer on, the program reads `w`. -/
structure Ahead (m : Machine) (s : State) (w : List Instruction) : Prop where
  ip_nonneg : 0 ≤ s.ip
  code : ∀ k < w.length, m.program.instructions[s.ip.toNat + k]? = w[k]?

namespace Ahead

theorem head {x : Instruction} (h : m.Ahead s (x :: w)) :
    ∃ i : Nat, s.ip = i ∧ m.program.instructions[i]? = some x :=
  ⟨s.ip.toNat, (Int.toNat_of_nonneg h.ip_nonneg).symm, h.code 0 (Nat.succ_pos _)⟩

theorem left (h : m.Ahead s (w ++ w')) : m.Ahead s w := by
  refine ⟨h.ip_nonneg, fun k hk => ?_⟩
  rw [h.code k (by rw [List.length_append]; omega), List.getElem?_append_left hk]

theorem right (h : m.Ahead s (w ++ w')) (hip : s'.ip = s.ip + w.length) : m.Ahead s' w' := by
  have hnonneg := h.ip_nonneg
  refine ⟨by omega, fun k hk => ?_⟩
  have hcode := h.code (w.length + k) (by rw [List.length_append]; omega)
  rw [List.getElem?_append_right (Nat.le_add_right _ _), Nat.add_sub_cancel_left] at hcode
  rw [← hcode]
  congr 1
  omega

theorem tail {x : Instruction} (h : m.Ahead s (x :: w)) (hip : s'.ip = s.ip + 1) : m.Ahead s' w :=
  right (w := [x]) h hip

end Ahead

end Machine

end TapeLang
