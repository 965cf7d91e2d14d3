import TapeLang.Proofs.Counting
import TapeLang.Proofs.Machine.Limit
import TapeLang.Proofs.Machine.Loops

/-!
# Code that counts can be undone where everything wraps around

* `Counted` — the data pointer and the cells behind a stretch of counting code, as they add up;
  `Counted.append`, `Counted.dp_undone`, `Counted.cell_undone`.
* `step_counted`, `steps_counted` — where cells and data pointer wrap around, each counting
  instruction and each stretch of them completes and leaves just that.
* `load_counting` — a text of counting instructions is a program.
* `steps_undone` — all of it, and that the inverse leads back.
-/

namespace TapeLang

open Instruction (brackets counting displacement changeAt executedAt undoing)

/-- **What counting code leaves**: the data pointer moved by the displacement around the tape, and
each cell changed by what the code adds to it, modulo the number of its values. -/
structure Counted (c : Config) (p : List Instruction) (s s' : State) : Prop where
  dp_eq : s'.dp = (s.dp + displacement p) % c.tapeLength
  cell_eq : ∀ j < c.tapeLength, s'.tape.cell j =
    (s.tape.cell j + changeAt c.tapeLength j s.dp p) % c.cellModulus

namespace Counted

variable {c : Config} {u v : List Instruction} {s s' s'' : State}

theorem nil (h : s.Fits c) : Counted c [] s s := by
  refine ⟨?_, fun j hj => ?_⟩
  · show s.dp = (s.dp + 0) % c.tapeLength
    rw [Int.add_zero, Int.emod_eq_of_lt h.dp_nonneg h.dp_lt]
  · have hrange := h.cell_range j hj
    show s.tape.cell j = (s.tape.cell j + 0) % c.cellModulus
    rw [Int.add_zero, Int.emod_eq_of_lt hrange.1 hrange.2]

/-- **One stretch behind another counts as both.** -/
theorem append (hu : Counted c u s s') (hv : Counted c v s' s'') : Counted c (u ++ v) s s'' := by
  refine ⟨?_, fun j hj => ?_⟩
  · rw [hv.dp_eq, hu.dp_eq, Int.emod_add_emod, Int.add_assoc, Instruction.displacement_append]
  · have hplace : s'.dp % c.tapeLength = (s.dp + displacement u) % c.tapeLength := by
      rw [hu.dp_eq, Int.emod_emod]
    rw [hv.cell_eq j hj, hu.cell_eq j hj, Int.emod_add_emod, Int.add_assoc,
      Instruction.changeAt_append,
      Instruction.changeAt_congr hplace]

theorem move (h : s.Fits c) (d : Direction) :
    Counted c [Register.pointer.instruction d] s { s with
      dp := (s.dp + d.delta) % c.tapeLength } := by
  refine ⟨?_, fun j hj => ?_⟩
  · rw [Instruction.displacement_instruction, if_pos rfl]
  · have hrange := h.cell_range j hj
    rw [Instruction.changeAt_instruction, if_neg (by simp), Int.add_zero,
      Int.emod_eq_of_lt hrange.1 hrange.2]

theorem adjust (h : s.Fits c) (d : Direction) :
    Counted c [Register.cell.instruction d] s (s.put ((s.current + d.delta) % c.cellModulus)) := by
  refine ⟨?_, fun j hj => ?_⟩
  · rw [Instruction.displacement_instruction, if_neg (by decide), Int.add_zero,
      Int.emod_eq_of_lt h.dp_nonneg h.dp_lt]
    rfl
  · have hrange := h.cell_range j hj
    have hdp := h.dp_toNat
    show (s.tape.put s.dp.toNat _).cell j = _
    rw [Tape.cell_put h.tape h.dp_toNat_lt, Instruction.changeAt_instruction,
      Int.emod_eq_of_lt h.dp_nonneg h.dp_lt]
    by_cases hat : j = s.dp.toNat
    · rw [if_pos hat, if_pos ⟨rfl, by omega⟩, hat]
      rfl
    · rw [if_neg hat, if_neg (by omega), Int.add_zero, Int.emod_eq_of_lt hrange.1 hrange.2]

theorem register (h : s.Fits c) (r : Register) (d : Direction) {v : Int} (hv : r.Holds s v) :
    Counted c [r.instruction d] s (r.set s ((v + d.delta) % r.bound c)) := by
  cases r with
  | cell =>
      obtain rfl := h.current_eq hv
      exact adjust h d
  | pointer =>
      obtain rfl : s.dp = v := hv
      exact move h d

/-- **Behind the inverse everything is as it was.** -/
theorem dp_undone (h : s.Fits c) (hu : Counted c (u ++ undoing u) s s') : s'.dp = s.dp := by
  rw [hu.dp_eq, Instruction.displacement_undoing, Int.add_zero,
    Int.emod_eq_of_lt h.dp_nonneg h.dp_lt]

theorem cell_undone (h : s.Fits c) (hu : Counted c (u ++ undoing u) s s') {j : Nat}
    (hj : j < c.tapeLength) :
    s'.tape.cell j = s.tape.cell j := by
  have hrange := h.cell_range j hj
  rw [hu.cell_eq j hj, Instruction.changeAt_undoing, Int.add_zero,
    Int.emod_eq_of_lt hrange.1 hrange.2]

end Counted

namespace Machine

variable {m : Machine} {s : State} {p w : List Instruction}

/-- **One counting instruction**, where everything wraps around. -/
theorem step_counted (hcell : m.config.cellOverflow = .wrap)
    (hpointer : m.config.pointerOverflow = .wrap) (h : s.Fits m.config) {x : Instruction}
    (hx : x ∈ counting) (hcode : m.Ahead s (x :: w)) (io : Streams) :
    ∃ s', m.step s io = .done s' io ∧ s'.Fits m.config ∧ s'.ip = s.ip + 1 ∧
      s'.steps = s.steps + 1 ∧ Counted m.config [x] s s' := by
  obtain ⟨r, d, rfl⟩ := Instruction.mem_counting_iff.mp hx
  obtain ⟨i, hip, hop⟩ := hcode.head
  obtain ⟨v, hv⟩ := r.exists_holds h
  have hbound := r.bound_pos m.config
  have hmode : r.mode m.config = .wrap := by
    cases r with
    | cell => exact hcell
    | pointer => exact hpointer
  have hstep := step_register r d h hip hop hv io
  rw [hmode, shift_wrap hbound] at hstep
  have hrange : 0 ≤ (v + d.delta) % r.bound m.config ∧ (v + d.delta) % r.bound m.config <
    r.bound m.config :=
    ⟨Int.emod_nonneg _ (by omega), Int.emod_lt_of_pos _ hbound⟩
  have hcounted := Counted.register h r d hv
  refine ⟨_, hstep, (r.fits_set h hrange).congr rfl rfl, ?_, ?_, hcounted.dp_eq, hcounted.cell_eq⟩
  · cases r <;> rfl
  · cases r <;> rfl

/-- **A stretch of counting code**, where everything wraps around: by induction on the code, one
step at a time. -/
theorem steps_counted (hcell : m.config.cellOverflow = .wrap)
    (hpointer : m.config.pointerOverflow = .wrap) (h : s.Fits m.config)
    (hp : ∀ x ∈ p, x ∈ counting) (hcode : m.Ahead s p) (io : Streams) :
    ∃ s', m.steps p.length s io = .done s' io ∧ s'.Fits m.config ∧ s'.ip = s.ip + p.length ∧
      s'.steps = s.steps + p.length ∧ Counted m.config p s s' := by
  induction p generalizing s with
  | nil => exact ⟨s, rfl, h, (Int.add_zero _).symm, (Int.add_zero _).symm, .nil h⟩
  | cons x p ih =>
      obtain ⟨hx, hlater⟩ := List.forall_mem_cons.mp hp
      obtain ⟨s₁, hstep, hfits, hip, hcount, hfirst⟩ := step_counted hcell hpointer h hx hcode io
      obtain ⟨s', hsteps, hfits', hip', hcount', hrest⟩ := ih hfits hlater (hcode.tail hip)
      refine ⟨s', (steps_succ_done p.length hstep).trans hsteps, hfits', ?_, ?_,
        hfirst.append hrest⟩
      · rw [hip', hip, List.length_cons]
        omega
      · rw [hcount', hcount, List.length_cons]
        omega

/-! ## Programs that count -/

/-- A text of counting instructions is a program, and these are ahead at its start. -/
theorem load_counting (c : Config) (hp : ∀ x ∈ p, x ∈ counting) :
    ∃ program, Program.load (p.map Instruction.byte) = .ok program ∧ program.size = p.length ∧
      ∀ s : State, s.ip = 0 → Ahead ⟨program, c⟩ s p := by
  have hstraight : brackets.Balanced p := by
    refine Brackets.balanced_of_straight fun x hx => ?_
    obtain ⟨_ | _, _ | _, rfl⟩ := Instruction.mem_counting_iff.mp (hp x hx) <;> decide
  obtain ⟨program, hload, hsize, hahead⟩ := load_ahead hstraight
  exact ⟨program, hload, hsize, hahead c⟩

/-- **Where everything wraps around, counting code is reversible.** With both overflow modes set to
wrap, on a tape and with cells of any size, let `p` be made of `>`, `<`, `+` and `-`. As a text it
is a program. In every program and every state whose memory is in order and that has `p` ahead, all
steps of `p` complete, each one instruction further and counted. They leave the data pointer where
the moves to the right, less those to the left, lead around the tape; and each cell is changed by
the increments, less the decrements, that are executed while the running pointer is at the cell,
modulo the number of its values. With the inverse behind `p`, the data pointer and all cells are in
the end as they were. -/
theorem steps_undone (c : Config) (hcell : c.cellOverflow = .wrap)
    (hpointer : c.pointerOverflow = .wrap) (p : List Instruction)
    (hp : ∀ x ∈ p, x ∈ [.moveRight, .moveLeft, .increment, .decrement]) :
    (∃ program, Program.load (p.map Instruction.byte) = .ok program ∧ program.size = p.length ∧
      ∀ s : State, s.ip = 0 → Ahead ⟨program, c⟩ s p) ∧
      ∀ (program : Program) (s : State) (io : Streams), s.Fits c →
        let m : Machine := ⟨program, c⟩
        (m.Ahead s p → ∃ s', m.steps p.length s io = .done s' io ∧
          s'.ip = s.ip + p.length ∧ s'.steps = s.steps + p.length ∧
          s'.dp = (s.dp + p.count .moveRight - p.count .moveLeft) % c.tapeLength ∧
          ∀ j < c.tapeLength, ∃ v, s.tape.get j = .ok v ∧
            s'.tape.get j = .ok ((v + executedAt c.tapeLength j .increment s.dp p -
              executedAt c.tapeLength j .decrement s.dp p) % 2 ^ c.cellWidth)) ∧
        (m.Ahead s (p ++ undoing p) → ∃ s', m.steps (p ++ undoing p).length s io = .done s' io ∧
          s'.ip = s.ip + 2 * p.length ∧ s'.steps = s.steps + 2 * p.length ∧
          s'.dp = s.dp ∧ ∀ j < c.tapeLength, s'.tape.get j = s.tape.get j) := by
  refine ⟨load_counting c hp, fun program s io h => ⟨fun hcode => ?_, fun hcode => ?_⟩⟩
  · obtain ⟨s', hsteps, hfits, hip, hcount, hcounted⟩ := steps_counted hcell hpointer h hp hcode io
    refine ⟨s', hsteps, hip, hcount, ?_, fun j hj => ⟨s.tape.cell j, h.get_eq hj, ?_⟩⟩
    · rw [hcounted.dp_eq, displacement, Int.add_sub_assoc]
    · rw [hfits.get_eq hj, hcounted.cell_eq j hj, changeAt, Int.add_sub_assoc, c.cellModulus_cast]
  · have hundo : ∀ x ∈ p ++ undoing p, x ∈ counting :=
      List.forall_mem_append.mpr ⟨hp, Instruction.undoing_mem_counting hp⟩
    obtain ⟨s', hsteps, hfits, hip, hcount, hcounted⟩ :=
      steps_counted hcell hpointer h hundo hcode io
    have hlength : ((p ++ undoing p).length : Int) = 2 * p.length := by
      rw [List.length_append, undoing, List.length_reverse, List.length_map]
      omega
    rw [hlength] at hip hcount
    refine ⟨s', hsteps, hip, hcount, hcounted.dp_undone h, fun j hj => ?_⟩
    rw [hfits.get_eq hj, h.get_eq hj, hcounted.cell_undone h hj]

/-- A decrement and a move to the left from the start of a tape of three cells, and back. -/
theorem steps_undone_backwards :
    let p : List Instruction := [.decrement, .moveLeft]
    let m : Machine :=
      ⟨⟨[0x2D, 0x3C, 0x3E, 0x2B], #[.decrement, .moveLeft, .moveRight, .increment], #[0, 1, 2, 3],
        #[none, none, none, none]⟩,
        { pointerOverflow := .wrap, tapeLength := 3 }⟩
    m.config.cellOverflow = .wrap ∧ m.config.pointerOverflow = .wrap ∧ m.start.Fits m.config ∧
      m.Ahead m.start (p ++ undoing p) ∧
      (∃ s', m.steps 2 m.start {} = .done s' {} ∧ s'.ip = 2 ∧ s'.dp = 2 ∧ s'.tape.get 0 = .ok 255) ∧
      ∃ s', m.steps 4 m.start {} = .done s' {} ∧ s'.ip = 4 ∧ s'.steps = 4 ∧ s'.dp = 0 ∧
        s'.tape.get 0 = .ok 0 := by
  intro p m
  have hfits : m.start.Fits m.config := State.fits_start m
  have hboth : m.Ahead m.start (p ++ undoing p) := ⟨by decide, by decide⟩
  obtain ⟨_, hruns⟩ := steps_undone m.config rfl rfl p (by decide)
  obtain ⟨hforth, hback⟩ := hruns m.program m.start {} hfits
  obtain ⟨s₁, hsteps₁, hip₁, _, hdp₁, hcells₁⟩ := hforth hboth.left
  obtain ⟨s₂, hsteps₂, hip₂, hcount₂, hdp₂, hcells₂⟩ := hback hboth
  obtain ⟨v, hv, hcell⟩ := hcells₁ 0 (by decide)
  obtain rfl : 0 = v := Except.ok.inj hv
  have hfull := hcell.trans (congrArg Except.ok (show _ = 255 by decide))
  exact ⟨rfl, rfl, hfits, hboth, ⟨s₁, hsteps₁, hip₁, hdp₁, hfull⟩, s₂, hsteps₂, hip₂, hcount₂, hdp₂,
    hcells₂ 0 (by decide)⟩

end Machine

end TapeLang
