import TapeLang.Proofs.Machine.Registers

/-!
# What counting code adds up to

Of code made of `>`, `<`, `+` and `-` it can be told beforehand how far it moves the data pointer
and by how much it changes each cell of a tape that is closed to a ring.

* `counting` — the four instructions; `mem_counting_iff` — they are those of the registers.
* `displacement`, `executedAt`, `changeAt` — the sum of the moves, how often an instruction is
  executed at a cell, and the sum of what that adds to the cell.
* `displacement_append`, `changeAt_append`, `executedAt_congr` — one stretch of code behind another,
  and that only the place on the ring counts.
* `undoing` — the inverse of a stretch of code; `displacement_undoing`, `changeAt_undoing` — behind
  it everything adds up to nothing.
-/

namespace TapeLang.Instruction

/-- The instructions that count. -/
def counting : List Instruction :=
  [.moveRight, .moveLeft, .increment, .decrement]

theorem mem_counting_iff {x : Instruction} :
    x ∈ counting ↔ ∃ (r : Register) (d : Direction), x = r.instruction d := by
  constructor
  · intro hx
    cases x with
    | moveRight => exact ⟨.pointer, .up, rfl⟩
    | moveLeft => exact ⟨.pointer, .down, rfl⟩
    | increment => exact ⟨.cell, .up, rfl⟩
    | decrement => exact ⟨.cell, .down, rfl⟩
    | _ => exact absurd hx (by decide)
  · rintro ⟨_ | _, _ | _, rfl⟩ <;> decide

/-- How far `p` moves the data pointer: its moves to the right, less those to the left. -/
def displacement (p : List Instruction) : Int :=
  p.count .moveRight - p.count .moveLeft

/-- How often `p` executes `x` while the running pointer, which is at `q` first, is at `j` modulo
`length`. -/
def executedAt (length j : Nat) (x : Instruction) : Int → List Instruction → Nat
  | _, [] => 0
  | q, y :: p => (if y = x ∧ q % length = j then 1 else 0) + executedAt length j x
      (q + displacement [y]) p

/-- What `p` adds to cell `j`: its increments there, less its decrements. -/
def changeAt (length j : Nat) (q : Int) (p : List Instruction) : Int :=
  executedAt length j .increment q p - executedAt length j .decrement q p

variable {length j : Nat} {x : Instruction} {q q' : Int}

/-! ## One stretch behind another -/

theorem displacement_append (u v : List Instruction) :
    displacement (u ++ v) = displacement u + displacement v := by
  simp only [displacement, List.count_append]
  omega

theorem executedAt_append (q : Int) (u v : List Instruction) :
    executedAt length j x q (u ++ v) = executedAt length j x q u + executedAt length j x
      (q + displacement u) v := by
  induction u generalizing q with
  | nil => simp [executedAt, displacement]
  | cons y u ih =>
      have hsum : q + displacement (y :: u) = q + displacement [y] + displacement u := by
        rw [Int.add_assoc, ← displacement_append, List.singleton_append]
      rw [List.cons_append, executedAt, executedAt, ih, hsum, Nat.add_assoc]

theorem changeAt_append (q : Int) (u v : List Instruction) :
    changeAt length j q (u ++ v) = changeAt length j q u + changeAt length j
      (q + displacement u) v := by
  simp only [changeAt, executedAt_append]
  omega

theorem executedAt_congr (h : q % length = q' % length) (p : List Instruction) :
    executedAt length j x q p = executedAt length j x q' p := by
  induction p generalizing q q' with
  | nil => rfl
  | cons y p ih =>
      have hmoved : (q + displacement [y]) % length = (q' + displacement [y]) % length :=
        (Int.emod_add_cancel_right _).mpr h
      rw [executedAt, executedAt, h, ih hmoved]

theorem changeAt_congr (h : q % length = q' % length) (p : List Instruction) :
    changeAt length j q p = changeAt length j q' p := by
  rw [changeAt, changeAt, executedAt_congr h, executedAt_congr h]

/-! ## One instruction -/

theorem displacement_instruction (r : Register) (d : Direction) :
    displacement [r.instruction d] = if r = .pointer then d.delta else 0 := by
  cases r <;> cases d <;> rfl

theorem changeAt_instruction (r : Register) (d : Direction) (q : Int) :
    changeAt length j q [r.instruction d] = if r = .cell ∧ q % length = j then d.delta else 0 := by
  cases r with
  | cell =>
      cases d <;> by_cases hq : q % length = j <;>
        simp [changeAt, executedAt, Register.instruction, Direction.delta, hq]
  | pointer => cases d <;> simp [changeAt, executedAt, Register.instruction]

/-! ## Undoing -/

/-- The instruction that takes a counting instruction back. -/
def opposite : Instruction → Instruction
  | .moveRight => .moveLeft
  | .moveLeft => .moveRight
  | .increment => .decrement
  | .decrement => .increment
  | x => x

/-- **The inverse of a stretch of code**: backwards, and with each instruction taken back. -/
def undoing (p : List Instruction) : List Instruction :=
  (p.map opposite).reverse

theorem undoing_mem_counting {p : List Instruction} (h : ∀ x ∈ p, x ∈ counting) :
    ∀ x ∈ undoing p, x ∈ counting := by
  intro x hx
  obtain ⟨y, hy, rfl⟩ := List.mem_map.mp (List.mem_reverse.mp hx)
  obtain ⟨_ | _, _ | _, rfl⟩ := mem_counting_iff.mp (h y hy) <;> decide

theorem append_undoing_cons (x : Instruction) (p : List Instruction) :
    (x :: p) ++ undoing (x :: p) = [x] ++ ((p ++ undoing p) ++ [x.opposite]) := by
  simp only [undoing, List.map_cons, List.reverse_cons, List.cons_append, List.nil_append,
    List.append_assoc]

/-- **Code and its inverse move the data pointer nowhere.** -/
theorem displacement_undoing (p : List Instruction) : displacement (p ++ undoing p) = 0 := by
  induction p with
  | nil => rfl
  | cons x p ih =>
      rw [append_undoing_cons, displacement_append, displacement_append, ih]
      cases x <;> rfl

/-- **Code and its inverse add nothing to any cell.** -/
theorem changeAt_undoing (length j : Nat) (q : Int) (p : List Instruction) :
    changeAt length j q (p ++ undoing p) = 0 := by
  induction p generalizing q with
  | nil => rfl
  | cons x p ih =>
      -- Between an instruction and what takes it back the running pointer returns to the same
      -- place.
      rw [append_undoing_cons, changeAt_append, changeAt_append, ih, displacement_undoing]
      cases x <;> simp [changeAt, executedAt, opposite, displacement]

end TapeLang.Instruction
