import TapeLang.Machine.Step
import TapeLang.Tape.Lemmas

/-!
# What the instructions do in a state whose memory is in order

`State.Fits` is the invariant of the memory: the data pointer names a cell of the tape, and every
cell keeps to its width. In such a state no instruction meets a fault of the tape, and its effect is
a plain equation.

* `State.current`, `State.put` — the current cell, and the state with it written.
* `move_eq`, `adjust_eq`, `write_eq`, `readByte_eq`, `readNothing_eq`, `branch_eq` — one equation
  for each effect.
* `Fits.congr`, `Fits.put`, `Fits.moved` — what keeps a memory in order; `Fits.cell_put` — a cell
  that was written.
* `get_eq`, `step_eq_perform` — the instruction at the pointer, and that a step executes it;
  `step_opening`, `step_closing` — where a step at a bracket leads.
-/

namespace TapeLang

namespace State

/-- The value of the current cell, when the data pointer is on the tape. -/
def current (s : State) : Int :=
  s.tape.cell s.dp.toNat

/-- The state with the current cell written. -/
def put (s : State) (v : Int) : State :=
  { s with tape := s.tape.put s.dp.toNat v }

/-- **A memory in order**: the tape has the configured length, the data pointer is on it, and the
cells hold numbers of their width. -/
structure Fits (c : Config) (s : State) : Prop where
  tape : s.tape.WellFormed
  length_eq : s.tape.length = c.tapeLength
  dp_nonneg : 0 ≤ s.dp
  dp_lt : s.dp < c.tapeLength
  cell_range : ∀ i < c.tapeLength, 0 ≤ s.tape.cell i ∧ s.tape.cell i < c.cellModulus

variable {c : Config} {s : State}

namespace Fits

theorem congr (h : s.Fits c) {s' : State} (ht : s'.tape = s.tape) (hd : s'.dp = s.dp) : s'.Fits c :=
  ⟨ht ▸ h.tape, ht ▸ h.length_eq, hd ▸ h.dp_nonneg, hd ▸ h.dp_lt, ht ▸ h.cell_range⟩

theorem dp_toNat (h : s.Fits c) : (s.dp.toNat : Int) = s.dp :=
  Int.toNat_of_nonneg h.dp_nonneg

theorem dp_toNat_lt (h : s.Fits c) : s.dp.toNat < s.tape.length := by
  have := h.dp_lt
  have := h.dp_nonneg
  rw [h.length_eq]
  omega

/-- The current cell is found, at a place where it can be written as well. -/
theorem exists_place (h : s.Fits c) (access : Access) :
    ∃ place, s.tape.locate access s.dp = .ok place ∧ s.tape.load place = s.current ∧
      ∀ v, { s with tape := s.tape.store place v } = s.put v := by
  obtain ⟨place, hp⟩ := Tape.exists_locate access h.dp_toNat_lt
  refine ⟨place, by rw [← h.dp_toNat]; exact hp, Tape.load_eq_cell h.tape (Tape.locate_holds hp),
    ?_⟩
  intro v
  rw [put, Tape.put_eq_store hp]

theorem cell_eq (h : s.Fits c) : s.cell = .ok s.current := by
  obtain ⟨place, hp, hv, _⟩ := h.exists_place .get
  rw [State.cell, Tape.get, hp, ← hv]

theorem current_eq (h : s.Fits c) {v : Int} (hv : s.cell = .ok v) : s.current = v :=
  Except.ok.inj (h.cell_eq.symm.trans hv)

theorem current_range (h : s.Fits c) : 0 ≤ s.current ∧ s.current < c.cellModulus :=
  h.cell_range _ (h.length_eq ▸ h.dp_toNat_lt)

theorem get_eq (h : s.Fits c) {i : Nat} (hi : i < c.tapeLength) :
    s.tape.get i = .ok (s.tape.cell i) :=
  Tape.get_eq_cell h.tape (h.length_eq ▸ hi)

theorem put (h : s.Fits c) {v : Int} (hv : 0 ≤ v ∧ v < c.cellModulus) : (s.put v).Fits c := by
  refine ⟨h.tape.put _ _, (Tape.length_put _ _ _).trans h.length_eq, h.dp_nonneg, h.dp_lt, ?_⟩
  intro i hi
  show 0 ≤ (s.tape.put s.dp.toNat v).cell i ∧ (s.tape.put s.dp.toNat v).cell i < c.cellModulus
  rw [Tape.cell_put h.tape h.dp_toNat_lt]
  split
  · exact hv
  · exact h.cell_range i hi

theorem cell_put (h : s.Fits c) (v : Int) : (s.put v).cell = .ok v := by
  show (s.tape.put s.dp.toNat v).get s.dp = .ok v
  rw [← h.dp_toNat, Int.toNat_natCast, Tape.get_put h.tape h.dp_toNat_lt, if_pos rfl]

theorem moved (h : s.Fits c) {dp : Int} (hdp : 0 ≤ dp ∧ dp < c.tapeLength) : { s with dp }.Fits c :=
  ⟨h.tape, h.length_eq, hdp.1, hdp.2, h.cell_range⟩

end Fits

theorem fits_start (m : Machine) : m.start.Fits m.config := by
  have hm := m.config.cellModulus_pos
  refine ⟨Tape.wellFormed_new m.config.tapeLength_pos _, rfl, Int.le_refl 0, ?_, ?_⟩
  · exact Int.natCast_pos.mpr m.config.tapeLength_pos
  · intro i _
    show 0 ≤ (Tape.new _ _).cell i ∧ (Tape.new _ _).cell i < _
    rw [Tape.cell_new]
    omega

end State

namespace Machine

open State (Fits)

variable {m : Machine} {s : State}

theorem tapeLength_pos (m : Machine) : (0 : Int) < m.config.tapeLength :=
  Int.natCast_pos.mpr m.config.tapeLength_pos

theorem cellModulus_pos (m : Machine) : (0 : Int) < m.config.cellModulus :=
  Int.natCast_pos.mpr m.config.cellModulus_pos

/-! ## Effects -/

theorem move_eq (m : Machine) (d : Direction) (s : State) (io : Streams) :
    m.move d s io =
      match shift s.dp d.delta m.config.tapeLength m.config.pointerOverflow with
      | .ok dp => .done { s with dp }.next io
      | .error _ => .fail (error s (d.pointerCause m.config.tapeLength)) s io := by
  unfold move
  split
  · rename_i hs
    rw [hs]
  · rename_i hs
    rw [hs]
  · rename_i e hne hs
    exact absurd ((shift_eq_error_iff m.tapeLength_pos).mp hs).1 hne

theorem adjust_eq (h : s.Fits m.config) (d : Direction) (io : Streams) :
    m.adjust d s io =
      match shift s.current d.delta m.config.cellModulus m.config.cellOverflow with
      | .ok v => .done (s.put v).next io
      | .error _ => .fail (error s (d.cellCause s.current)) s io := by
  obtain ⟨place, hp, hload, hstore⟩ := h.exists_place .get
  simp only [adjust, hp, hload, hstore]
  split
  · rename_i hs
    rw [hs]
  · rename_i hs
    rw [hs]
  · rename_i e hne hs
    exact absurd ((shift_eq_error_iff m.cellModulus_pos).mp hs).1 hne

theorem write_eq (h : s.Fits m.config) (io : Streams) :
    write s io =
      match io.output.next with
      | some f => .fail (if f.isSystem then error s (.io f) else .stream f) s ⟨io.input,
          io.output.reject⟩
      | none =>
        .done { s with bytesWritten := s.bytesWritten + 1 }.next
          ⟨io.input, io.output.accept (outputByte s.current)⟩ := by
  cases hnext : io.output.next <;> simp [write, h.cell_eq, hnext]

theorem readByte_eq (h : s.Fits m.config) (b : UInt8) (io : Streams) :
    m.readByte b s io =
      .done { s.put (b.toNat % m.config.cellModulus : Nat) with
        bytesRead := s.bytesRead + 1 }.next io := by
  obtain ⟨place, hp, _, hstore⟩ := h.exists_place .set
  simp only [readByte, hp, ← hstore]

theorem readNothing_eq (h : s.Fits m.config) (io : Streams) :
    m.readNothing s io =
      match m.config.eof with
      | .keep => .done { s with reachedEof := true }.next io
      | .zero => .done { s.put 0 with reachedEof := true }.next io
      | .check => .fail (error s .endOfInput) { s with reachedEof := true } io := by
  obtain ⟨place, hp, _, hstore⟩ := h.exists_place .set
  simp only [readNothing, hp, ← hstore]
  cases m.config.eof <;> rfl

theorem branch_eq (h : s.Fits m.config) (i : Nat) (onZero : Bool) (io : Streams) :
    m.branch i onZero s io =
      if (s.current == 0) == onZero then
        match m.program.partner i with
        | some j => .done (s.goTo (j + 1)) io
        | none => .fail .unpaired s io
      else .done s.next io := by
  cases hpartner : m.program.partner i <;> simp [branch, h.cell_eq, hpartner]

/-! ## Dispatch -/

theorem finished_eq_false {i : Nat} (hip : s.ip = i) (hi : i < m.program.size) :
    m.finished s = false := by
  simp only [finished, hip, decide_eq_false_iff_not]
  omega

theorem slot_eq {i : Nat} (hip : s.ip = i) (hi : i < m.program.instructions.size) :
    m.program.slot s.ip = .ok ⟨i, hi⟩ := by
  have hneg : ¬(i : Int) < 0 := by omega
  simp [hip, Program.slot, hneg, hi]

theorem get_eq {i : Nat} {op : Instruction} (hip : s.ip = i)
    (hop : m.program.instructions[i]? = some op) :
    m.program.get s.ip = .ok op := by
  obtain ⟨hi, hget⟩ := Array.getElem?_eq_some_iff.mp hop
  simp only [Program.get, slot_eq hip hi, Fin.getElem_fin, hget]

theorem step_eq_perform {i : Nat} {op : Instruction} (hip : s.ip = i)
    (hop : m.program.instructions[i]? = some op) (io : Streams) :
    m.step s io = m.perform i op s io := by
  obtain ⟨hi, hget⟩ := Array.getElem?_eq_some_iff.mp hop
  rw [step, finished_eq_false hip hi, if_neg (by decide), slot_eq hip hi]
  simp only [Fin.getElem_fin, hget]

/-- **An opening bracket** leads behind its partner on a zero. -/
theorem step_opening (h : s.Fits m.config) {i j : Nat} (hip : s.ip = i)
    (hop : m.program.instructions[i]? = some .loopOpen) (hj : m.program.partner i = some j)
    (io : Streams) :
    m.step s io = .done (s.goTo (if s.current = 0 then (j : Int) + 1 else (i : Int) + 1)) io := by
  rw [step_eq_perform hip hop, perform, branch_eq h, hj]
  by_cases hzero : s.current = 0
  · rw [if_pos (by simp [hzero]), if_pos hzero]
  · rw [if_neg (by simp [hzero]), if_neg hzero, State.next, hip]

/-- **A closing bracket** leads behind its partner on all but a zero. -/
theorem step_closing (h : s.Fits m.config) {i j : Nat} (hip : s.ip = j)
    (hop : m.program.instructions[j]? = some .loopClose) (hi : m.program.partner j = some i)
    (io : Streams) :
    m.step s io = .done (s.goTo (if s.current = 0 then (j : Int) + 1 else (i : Int) + 1)) io := by
  rw [step_eq_perform hip hop, perform, branch_eq h, hi]
  by_cases hzero : s.current = 0
  · rw [if_neg (by simp [hzero]), if_pos hzero, State.next, hip]
  · rw [if_pos (by simp [hzero]), if_neg hzero]

end Machine

end TapeLang
