import TapeLang.Proofs.Machine.Effect
import TapeLang.Proofs.Structured.Evaluate

/-!
# The machine's state as a state of the evaluator

* `Agrees` — a state of the machine shows what a state of the evaluator holds; it shows one only
  (`Agrees.unique`).
* `Represents` — the same on a tape that is in order, which every effect keeps.
* `shift_eq_neighbour` — the machine's arithmetic at the edges is that of the reference semantics.
* `Simulates`, `act_simulates` — a step of the machine on an action does what the evaluator does.
-/

namespace TapeLang.Structured

variable {c : Config}

/-- **A state of the machine shows what a state of the evaluator holds.** -/
structure Agrees (s : State) (σ : Store c) : Prop where
  cells : ∀ i (hi : i < c.tapeLength), s.tape.get (i : Nat) = .ok ((σ.cells[i] : Nat) : Int)
  dp : s.dp = (σ.dp.val : Int)
  steps : s.steps = (σ.steps : Int)
  reachedEof : s.reachedEof = σ.reachedEof
  bytesRead : s.bytesRead = σ.bytesRead
  bytesWritten : s.bytesWritten = σ.bytesWritten

/-- Agreement on a tape that is in order. -/
structure Represents (s : State) (σ : Store c) : Prop where
  wellFormed : s.tape.WellFormed
  length_eq : s.tape.length = c.tapeLength
  cells : ∀ i (hi : i < c.tapeLength), s.tape.cell i = ((σ.cells[i] : Nat) : Int)
  dp : s.dp = (σ.dp.val : Int)
  steps : s.steps = (σ.steps : Int)
  reachedEof : s.reachedEof = σ.reachedEof
  bytesRead : s.bytesRead = σ.bytesRead
  bytesWritten : s.bytesWritten = σ.bytesWritten

variable {s : State} {σ : Store c}

theorem Represents.agrees (h : Represents s σ) : Agrees s σ :=
  ⟨fun i hi => (Tape.get_eq_cell h.wellFormed (h.length_eq ▸ hi)).trans (congrArg _ (h.cells i hi)),
    h.dp, h.steps, h.reachedEof, h.bytesRead, h.bytesWritten⟩

theorem Agrees.unique {τ : Store c} (h : Agrees s σ) (h' : Agrees s τ) : σ = τ := by
  have hcells : σ.cells = τ.cells := by
    refine Vector.ext ?_
    intro i hi
    have e := (h.cells i hi).symm.trans (h'.cells i hi)
    rw [Except.ok.injEq, Int.ofNat_inj] at e
    exact Fin.ext e
  have hdp : σ.dp = τ.dp := Fin.ext (Int.ofNat_inj.mp (h.dp.symm.trans h'.dp))
  have hsteps : σ.steps = τ.steps := Int.ofNat_inj.mp (h.steps.symm.trans h'.steps)
  have heof := h.reachedEof.symm.trans h'.reachedEof
  have hread := h.bytesRead.symm.trans h'.bytesRead
  have hwritten := h.bytesWritten.symm.trans h'.bytesWritten
  cases σ
  cases τ
  simp_all

namespace Represents

theorem fits (h : Represents s σ) : s.Fits c := by
  refine ⟨h.wellFormed, h.length_eq, ?_, ?_, ?_⟩
  · rw [h.dp]
    omega
  · have := σ.dp.isLt
    rw [h.dp]
    omega
  · intro i hi
    have := (σ.cells[i]).isLt
    rw [h.cells i hi]
    omega

theorem current_eq (h : Represents s σ) : s.current = ((σ.cell : Nat) : Int) := by
  have hdp : s.dp.toNat = σ.dp.val := by rw [h.dp, Int.toNat_natCast]
  rw [State.current, hdp]
  exact h.cells σ.dp σ.dp.isLt

/-! ## What keeps the agreement -/

theorem goTo (h : Represents s σ) (ip : Int) : Represents (s.goTo ip) σ.tick :=
  ⟨h.wellFormed, h.length_eq, h.cells, h.dp,
    by show s.steps + 1 = ((σ.steps + 1 : Nat) : Int); rw [h.steps]; rfl, h.reachedEof, h.bytesRead,
      h.bytesWritten⟩

theorem moved (h : Represents s σ) (dp : Fin c.tapeLength) :
    Represents { s with dp := (dp.val : Int) } { σ with dp } :=
  ⟨h.wellFormed, h.length_eq, h.cells, rfl, h.steps, h.reachedEof, h.bytesRead, h.bytesWritten⟩

theorem put (h : Represents s σ) (v : Fin c.cellModulus) :
    Represents (s.put (v.val : Int)) (σ.put v) := by
  refine ⟨h.wellFormed.put _ _, (Tape.length_put _ _ _).trans h.length_eq, ?_, h.dp, h.steps,
    h.reachedEof,
    h.bytesRead, h.bytesWritten⟩
  intro i hi
  have hdp : s.dp.toNat = σ.dp.val := by rw [h.dp, Int.toNat_natCast]
  show (s.tape.put s.dp.toNat v.val).cell i = (((σ.cells.set σ.dp v)[i] : Fin _) : Int)
  rw [Tape.cell_put h.wellFormed h.fits.dp_toNat_lt, Vector.getElem_set, hdp]
  by_cases hi' : i = σ.dp.val
  · simp [hi']
  · rw [if_neg hi', if_neg (Ne.symm hi')]
    exact h.cells i hi

theorem written (h : Represents s σ) :
    Represents { s with bytesWritten := s.bytesWritten + 1 } { σ with
      bytesWritten := σ.bytesWritten + 1 } :=
  ⟨h.wellFormed, h.length_eq, h.cells, h.dp, h.steps, h.reachedEof, h.bytesRead,
    congrArg (· + 1) h.bytesWritten⟩

theorem read (h : Represents s σ) :
    Represents { s with bytesRead := s.bytesRead + 1 } { σ with bytesRead := σ.bytesRead + 1 } :=
  ⟨h.wellFormed, h.length_eq, h.cells, h.dp, h.steps, h.reachedEof, congrArg (· + 1) h.bytesRead,
    h.bytesWritten⟩

theorem atEof (h : Represents s σ) :
    Represents { s with reachedEof := true } { σ with reachedEof := true } :=
  ⟨h.wellFormed, h.length_eq, h.cells, h.dp, h.steps, rfl, h.bytesRead, h.bytesWritten⟩

end Represents

theorem represents_start (m : Machine) : Represents m.start (Store.zero m.config) := by
  refine ⟨Tape.wellFormed_new m.config.tapeLength_pos _, rfl, ?_, rfl, rfl, rfl, rfl, rfl⟩
  intro i hi
  show (Tape.new _ _).cell i = _
  rw [Tape.cell_new]
  simp [Store.zero]

/-! ## One action -/

/-- **A step of the machine does what the evaluator does**: it completes in front of the instruction
`next`, or it fails with the same fault, and either way the states and the streams behind it are the
same. -/
def Simulates (next : Nat) (r : Step) : Outcome c → Prop
  | .done σ io => r.fault = none ∧ Represents r.state σ ∧ r.state.ip = (next : Int) ∧ r.streams = io
  | .failed f σ io => r.fault = some f ∧ Represents r.state σ ∧ r.streams = io

theorem shift_eq_neighbour (mode : Overflow) (d : Direction) {bound : Nat} (v : Fin bound) :
    shift (v.val : Int) d.delta (bound : Int) mode =
      match neighbour mode d v with
      | some w => .ok (w.val : Int)
      | none => .error .outOfRange := by
  have hv := v.isLt
  have hb : (0 : Int) < bound := by omega
  cases mode with
  | wrap =>
      rw [shift_wrap hb]
      cases d with
      | up => simp [neighbour, Direction.delta]
      | down =>
          have hdown :
              ((v.val : Int) + -1) % bound = ((v.val + (bound - 1) : Nat) : Int) % bound := by
            rw [show ((v.val + (bound - 1) : Nat) : Int) = (v.val : Int) + -1 + bound by omega,
              Int.add_emod_right]
          simp [neighbour, Direction.delta, hdown]
  | saturate =>
      rw [shift_saturate hb]
      cases d with
      | up => simp only [neighbour, Direction.delta]; congr 1; omega
      | down => simp only [neighbour, Direction.delta]; congr 1; omega
  | check =>
      cases d with
      | up =>
          by_cases hlt : v.val + 1 < bound
          · rw [shift_of_mem _ (by simp only [Direction.delta]; omega)
              (by simp only [Direction.delta]; omega)]
            simp [neighbour, hlt, Direction.delta]
          · rw [shift_check (by simp only [Direction.delta]; omega)]
            simp [neighbour, hlt]
      | down =>
          by_cases hpos : 0 < v.val
          · rw [shift_of_mem _ (by simp only [Direction.delta]; omega)
              (by simp only [Direction.delta]; omega)]
            simp only [neighbour, Direction.delta, hpos, if_true]
            congr 1
            omega
          · rw [shift_check (by simp only [Direction.delta]; omega)]
            simp [neighbour, hpos]

theorem outputByte_natCast (n : Nat) : Machine.outputByte (n : Int) = UInt8.ofNat (n &&& 0xFF) := by
  have hand : n &&& 0xFF = n % 256 := Nat.and_two_pow_sub_one_eq_mod n 8
  rw [Machine.outputByte, hand]
  congr 1

variable {m : Machine} {σ : Store m.config} {i : Nat}

theorem error_eq (h : Represents s σ) (hip : s.ip = i) (cause : ExecutionError.Cause) :
    Machine.error s cause = σ.error i cause := by
  rw [Machine.error, Store.error, hip, h.dp]

theorem streamFault_eq (h : Represents s σ) (hip : s.ip = i) (f : StreamFault) :
    (if f.isSystem then Machine.error s (.io f) else Fault.stream f) = σ.streamFault i f := by
  rw [Store.streamFault, error_eq h hip]

theorem simulates_next {s' : State} {σ' : Store m.config} (h : Represents s' σ') (hip : s'.ip = i)
    (io : Streams) :
    Simulates (i + 1) (.done s'.next io) (.done σ'.tick io) := by
  refine ⟨rfl, h.goTo _, ?_, rfl⟩
  show s'.ip + 1 = ((i + 1 : Nat) : Int)
  omega

theorem atEnd_simulates (h : Represents s σ) (hip : s.ip = i) (io : Streams) :
    Simulates (i + 1) (m.readNothing s io) (σ.atEnd i io) := by
  rw [Machine.readNothing_eq h.fits, Store.atEnd]
  cases m.config.eof with
  | keep => exact simulates_next h.atEof hip io
  | zero => exact simulates_next (h.put ⟨0, m.config.cellModulus_pos⟩).atEof hip io
  | check => exact ⟨congrArg some (error_eq h hip _), h.atEof, rfl⟩

theorem readByte_simulates (h : Represents s σ) (hip : s.ip = i) (b : UInt8) (io : Streams) :
    Simulates (i + 1) (m.readByte b s io)
      (.done { σ.put ⟨b.toNat % m.config.cellModulus, Nat.mod_lt _ m.config.cellModulus_pos⟩ with
        bytesRead := σ.bytesRead + 1 }.tick io) := by
  rw [Machine.readByte_eq h.fits]
  exact simulates_next
    (h.put ⟨b.toNat % m.config.cellModulus, Nat.mod_lt _ m.config.cellModulus_pos⟩).read hip io

/-- **One action**: the machine and the evaluator do the same. -/
theorem act_simulates (h : Represents s σ) (hip : s.ip = i) (a : Action) (io : Streams) :
    Simulates (i + 1) (m.perform i a.instruction s io) (σ.act a i io) := by
  cases a with
  | move d =>
      have hstep : m.perform i (Action.move d).instruction s io =
        m.move d s io := by cases d <;> rfl
      rw [hstep, Machine.move_eq, h.dp, shift_eq_neighbour, Store.act]
      cases neighbour m.config.pointerOverflow d σ.dp with
      | none => exact ⟨congrArg some (error_eq h hip _), h, rfl⟩
      | some dp => exact simulates_next (h.moved dp) hip io
  | adjust d =>
      have hstep : m.perform i (Action.adjust d).instruction s io =
        m.adjust d s io := by cases d <;> rfl
      rw [hstep, Machine.adjust_eq h.fits, h.current_eq, shift_eq_neighbour, Store.act]
      cases neighbour m.config.cellOverflow d σ.cell with
      | none => exact ⟨congrArg some (error_eq h hip _), h, rfl⟩
      | some v => exact simulates_next (h.put v) hip io
  | write =>
      show Simulates (i + 1) (Machine.write s io) _
      rw [Machine.write_eq h.fits, h.current_eq, outputByte_natCast, Store.act]
      cases io.output.next with
      | none => exact simulates_next h.written hip _
      | some f => exact ⟨congrArg some (streamFault_eq h hip f), h, rfl⟩
  | read =>
      show Simulates (i + 1) (m.read s io) _
      rw [Machine.read, Store.act, h.reachedEof]
      by_cases hend : σ.reachedEof
      · rw [if_pos hend, if_pos hend]
        exact atEnd_simulates h hip io
      · rw [if_neg hend, if_neg hend]
        rcases io.input.next with ⟨_ | ⟨b, _⟩⟩ | _ | f
        · exact atEnd_simulates h hip _
        · exact readByte_simulates h hip b _
        · exact atEnd_simulates h hip _
        · exact ⟨congrArg some (streamFault_eq h hip f), h, rfl⟩

end TapeLang.Structured
