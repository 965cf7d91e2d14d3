import TapeLang.Proofs.Machine.Policy
import TapeLang.Proofs.Machine.Safety

/-!
# When a step fails, and with what

* `Direction.edge` — the end of a range that a direction leads to; `shift_delta_iff` — a number that
  is moved by one is refused exactly there, and only under a check.
* `Machine.Fails` — the table of all failures: for each instruction the condition under which it
  fails, and the fault.
* `move_fault_iff` to `read_fault_iff` — each handler fails as its condition tells, `branch_fault` —
  a bracket does not fail; `perform_fault_iff` — all instructions at once.
* `Fails.located`, `Fails.value_eq` — what an error of the table tells of the state it arises in.
* `reachable_step_fails_iff` — in reachable states a step fails exactly as the table tells.
-/

namespace TapeLang

/-- The end of `[0, bound - 1]` that a direction leads to. -/
def Direction.edge (d : Direction) (bound : Int) : Int :=
  match d with
  | .up => bound - 1
  | .down => 0

/-- **A number in its range cannot be moved by one exactly if it is at the edge and the mode checks
that.** -/
theorem shift_delta_iff {v bound : Int} (hv : 0 ≤ v ∧ v < bound) (d : Direction) (mode : Overflow) :
    (∃ e, shift v d.delta bound mode = .error e) ↔ mode = .check ∧ v = d.edge bound := by
  have hedge : ¬(0 ≤ v + d.delta ∧ v + d.delta < bound) ↔ v = d.edge bound := by
    cases d <;> simp only [Direction.delta, Direction.edge] <;> omega
  simp only [shift_eq_error_iff (show 0 < bound by omega), hedge, exists_eq_left]

theorem Step.fault_done_ne {s : State} {io : Streams} {f : Fault} :
    (Step.done s io).fault ≠ some f :=
  nofun

theorem Step.fault_fail_iff {s : State} {io : Streams} {f g : Fault} :
    (Step.fail g s io).fault = some f ↔ f = g :=
  Option.some_inj.trans eq_comm

namespace Machine

open State (Fits)

/-- **The failures of a step** at an instruction, with the current cell at `v`: a policy that checks
refuses to leave its range or to read behind the end of the input, or the stream that is called
raises a fault. A fault of the system becomes an error of the execution, any other passes
through. -/
inductive Fails (m : Machine) (s : State) (io : Streams) (v : Int) : Instruction → Fault → Prop
  | arithmeticOverflow : m.config.cellOverflow = .check → v = 2 ^ m.config.cellWidth - 1 →
      Fails m s io v .increment (error s (.arithmeticOverflow v))
  | arithmeticUnderflow : m.config.cellOverflow = .check → v = 0 →
      Fails m s io v .decrement (error s (.arithmeticUnderflow v))
  | pointerOverflow : m.config.pointerOverflow = .check → s.dp = m.config.tapeLength - 1 →
      Fails m s io v .moveRight (error s (.pointerOverflow m.config.tapeLength))
  | pointerUnderflow : m.config.pointerOverflow = .check → s.dp = 0 →
      Fails m s io v .moveLeft (error s .pointerUnderflow)
  | endOfInput : m.config.eof = .check → s.reachedEof = true ∨ io.input.next.isEnd = true →
      Fails m s io v .read (error s .endOfInput)
  | readRefused {g : StreamFault} : s.reachedEof = false → io.input.next = .fault g →
    g.isSystem = true →
      Fails m s io v .read (error s (.io g))
  | readRaised {g : StreamFault} : s.reachedEof = false → io.input.next = .fault g →
    g.isSystem = false →
      Fails m s io v .read (.stream g)
  | writeRefused {g : StreamFault} : io.output.next = some g → g.isSystem = true →
      Fails m s io v .write (error s (.io g))
  | writeRaised {g : StreamFault} : io.output.next = some g → g.isSystem = false →
      Fails m s io v .write (.stream g)

variable {m : Machine} {s : State} {f : Fault}

/-! ## The handlers -/

theorem move_fault_iff (h : s.Fits m.config) (d : Direction) (io : Streams) :
    (m.move d s io).fault = some f ↔
      (m.config.pointerOverflow = .check ∧ s.dp = d.edge m.config.tapeLength) ∧
        f = error s (d.pointerCause m.config.tapeLength) := by
  rw [← shift_delta_iff ⟨h.dp_nonneg, h.dp_lt⟩, move_eq]
  cases shift s.dp d.delta m.config.tapeLength m.config.pointerOverflow with
  | ok dp => simp [Step.fault_done_ne]
  | error e => simp [Step.fault_fail_iff]

theorem adjust_fault_iff (h : s.Fits m.config) (d : Direction) (io : Streams) :
    (m.adjust d s io).fault = some f ↔
      (m.config.cellOverflow = .check ∧ s.current = d.edge m.config.cellModulus) ∧
        f = error s (d.cellCause s.current) := by
  rw [← shift_delta_iff h.current_range, adjust_eq h]
  cases shift s.current d.delta m.config.cellModulus m.config.cellOverflow with
  | ok v => simp [Step.fault_done_ne]
  | error e => simp [Step.fault_fail_iff]

theorem write_fault_iff (h : s.Fits m.config) (io : Streams) :
    (write s io).fault = some f ↔
      ∃ g, io.output.next = some g ∧ f = if g.isSystem then error s (.io g) else .stream g := by
  rw [write_eq h]
  cases io.output.next with
  | none => simp [Step.fault_done_ne]
  | some g => simp [Step.fault_fail_iff]

theorem readNothing_fault_iff (h : s.Fits m.config) (io : Streams) :
    (m.readNothing s io).fault = some f ↔ m.config.eof = .check ∧ f = error s .endOfInput := by
  rw [readNothing_eq h]
  cases m.config.eof with
  | keep => simp [Step.fault_done_ne]
  | zero => simp [Step.fault_done_ne]
  | check => simp [Step.fault_fail_iff]

theorem read_fault_iff (h : s.Fits m.config) (io : Streams) :
    (m.read s io).fault = some f ↔
      (m.config.eof = .check ∧ (s.reachedEof = true ∨ io.input.next.isEnd = true) ∧
        f = error s .endOfInput) ∨
        ∃ g, s.reachedEof = false ∧ io.input.next = .fault g ∧
          f = if g.isSystem then error s (.io g) else .stream g := by
  rw [read]
  cases s.reachedEof with
  | true => simp [readNothing_fault_iff h]
  | false =>
      rcases io.input.next with ⟨_ | ⟨b, rest⟩⟩ | _ | g
      · simp [readNothing_fault_iff h, Reading.isEnd]
      · simp [readByte_eq h, Step.fault_done_ne, Reading.isEnd]
      · simp [readNothing_fault_iff h, Reading.isEnd]
      · simp [Step.fault_fail_iff, Reading.isEnd]

theorem branch_fault (h : s.Fits m.config) {i j : Nat} (hj : m.program.partner i = some j)
    (onZero : Bool) (io : Streams) : (m.branch i onZero s io).fault = none := by
  rw [branch_eq h, hj]
  split <;> rfl

/-! ## Every instruction -/

theorem raised_fails {io : Streams} {v : Int} {op : Instruction} {g : StreamFault}
    (hrefused : g.isSystem = true → m.Fails s io v op (error s (.io g)))
    (hraised : g.isSystem = false → m.Fails s io v op (.stream g)) :
    m.Fails s io v op (if g.isSystem then error s (.io g) else .stream g) := by
  cases hg : g.isSystem with
  | true => exact hrefused hg
  | false => exact hraised hg

/-- **An instruction fails as the table tells**, in a state whose memory is in order. -/
theorem perform_fault_iff (hp : m.program.Paired) (h : s.Fits m.config) {i : Nat} {op : Instruction}
    (hop : m.program.instructions[i]? = some op) (io : Streams) :
    (m.perform i op s io).fault = some f ↔ m.Fails s io s.current op f := by
  have hmodulus := m.config.cellModulus_cast
  cases op with
  | moveRight =>
      refine (move_fault_iff h .up io).trans ⟨?_, ?_⟩
      · rintro ⟨⟨hcheck, hedge⟩, rfl⟩
        exact .pointerOverflow hcheck hedge
      · rintro ⟨⟩
        exact ⟨⟨‹_›, ‹_›⟩, rfl⟩
  | moveLeft =>
      refine (move_fault_iff h .down io).trans ⟨?_, ?_⟩
      · rintro ⟨⟨hcheck, hedge⟩, rfl⟩
        exact .pointerUnderflow hcheck hedge
      · rintro ⟨⟩
        exact ⟨⟨‹_›, ‹_›⟩, rfl⟩
  | increment =>
      refine (adjust_fault_iff h .up io).trans ⟨?_, ?_⟩
      · rintro ⟨⟨hcheck, hedge⟩, rfl⟩
        exact .arithmeticOverflow hcheck (hmodulus ▸ hedge)
      · rintro ⟨hcheck, hedge⟩
        exact ⟨⟨hcheck, hmodulus ▸ hedge⟩, rfl⟩
  | decrement =>
      refine (adjust_fault_iff h .down io).trans ⟨?_, ?_⟩
      · rintro ⟨⟨hcheck, hedge⟩, rfl⟩
        exact .arithmeticUnderflow hcheck hedge
      · rintro ⟨⟩
        exact ⟨⟨‹_›, ‹_›⟩, rfl⟩
  | write =>
      refine (write_fault_iff h io).trans ⟨?_, ?_⟩
      · rintro ⟨g, hnext, rfl⟩
        exact raised_fails (.writeRefused hnext) (.writeRaised hnext)
      · rintro (_ | _ | _ | _ | _ | _ | _ | ⟨hnext, hg⟩ | ⟨hnext, hg⟩)
        · exact ⟨_, hnext, by simp [hg]⟩
        · exact ⟨_, hnext, by simp [hg]⟩
  | read =>
      refine (read_fault_iff h io).trans ⟨?_, ?_⟩
      · rintro (⟨hcheck, hend, rfl⟩ | ⟨g, heof, hnext, rfl⟩)
        · exact .endOfInput hcheck hend
        · exact raised_fails (.readRefused heof hnext) (.readRaised heof hnext)
      · rintro (_ | _ | _ | _ | ⟨hcheck, hend⟩ | ⟨heof, hnext, hg⟩ | ⟨heof, hnext, hg⟩)
        · exact .inl ⟨hcheck, hend, rfl⟩
        · exact .inr ⟨_, heof, hnext, by simp [hg]⟩
        · exact .inr ⟨_, heof, hnext, by simp [hg]⟩
  | loopOpen =>
      obtain ⟨j, hj, _, _⟩ := hp.partner_open hop
      refine ⟨fun hf => ?_, nofun⟩
      exact nomatch (branch_fault h hj true io).symm.trans hf
  | loopClose =>
      obtain ⟨j, hj, _, _⟩ := hp.partner_close hop
      refine ⟨fun hf => ?_, nofun⟩
      exact nomatch (branch_fault h hj false io).symm.trans hf

/-! ## What an error tells -/

section

variable {io : Streams} {v : Int} {op : Instruction} {e : ExecutionError}

theorem Fails.located (h : m.Fails s io v op (.execution e)) : e.ip = s.ip ∧ e.dp = s.dp := by
  cases h <;> exact ⟨rfl, rfl⟩

theorem Fails.value_eq (h : m.Fails s io v op (.execution e)) :
    (e.cause.axis? = some .cell → e.value = some v) ∧
      (e.cause.axis? = some .pointer → e.value = some s.dp) := by
  cases h <;> exact ⟨by simp [ExecutionError.value, ExecutionError.Cause.axis?],
    by simp [ExecutionError.value, ExecutionError.Cause.axis?]⟩

end

/-- **The exact conditions under which a step fails.** In every reachable state of a program that
has not ended there is an instruction at the pointer and a value in the current cell, and the next
step raises precisely the faults of the table `Fails` for these two, whatever streams it is made on;
in every other case it completes. An error that it raises tells both pointers, and the value of the
cell or the data pointer if it is about one of them. -/
theorem reachable_step_fails_iff {source : List UInt8} {p : Program}
    (hload : Program.load source = .ok p) (config : Config) {io₀ io : Streams} {s : State}
    (h : Reachable ⟨p, config⟩ io₀ s io) (hf : finished ⟨p, config⟩ s = false) (io' : Streams) :
    ∃ op v, p.get s.ip = .ok op ∧ s.cell = .ok v ∧
      (∀ f, (Machine.step ⟨p, config⟩ s io').fault = some f ↔ Fails ⟨p, config⟩ s io' v op f) ∧
      ((Machine.step ⟨p, config⟩ s io').fault = none ↔ ∀ f, ¬Fails ⟨p, config⟩ s io' v op f) ∧
      ∀ e, (Machine.step ⟨p, config⟩ s io').fault = some (.execution e) →
        e.ip = s.ip ∧ e.dp = s.dp ∧
          (e.cause.axis? = some .cell → e.value = some v) ∧
            (e.cause.axis? = some .pointer → e.value = some s.dp) := by
  have hp := Program.paired_of_load hload
  have hs := (reachable_inRange (m := ⟨p, config⟩) hp h).1
  obtain ⟨i, op, hip, hop⟩ := exists_instruction hs hf
  have hiff : ∀ f, (Machine.step ⟨p, config⟩ s io').fault = some f ↔
    Fails ⟨p, config⟩ s io' s.current op f := by
    intro f
    rw [step_eq_perform hip hop]
    exact perform_fault_iff hp hs.toFits hop io'
  refine ⟨op, s.current, get_eq hip hop, hs.cell_eq, hiff, ?_, ?_⟩
  · simp only [Option.eq_none_iff_forall_not_mem, Option.mem_def, hiff]
  · intro e he
    have hfails := (hiff _).mp he
    exact ⟨hfails.located.1, hfails.located.2, hfails.value_eq⟩

/-- A cell of one bit that is full after one step, and what the next one raises. -/
theorem reachable_step_fails_iff_full_cell :
    let m : Machine :=
      ⟨⟨[0x2B, 0x2B], #[.increment, .increment], #[0, 1], #[none, none]⟩,
        { cellOverflow := .check, tapeLength := 2, cellWidth := 1 }⟩
    let s := (m.step m.start {}).state
    Program.load [0x2B, 0x2B] = .ok m.program ∧ m.Reachable {} s {} ∧ m.finished s = false ∧
      (m.step s {}).fault = some (error s (.arithmeticOverflow 1)) := by
  intro m s
  have hload : Program.load [0x2B, 0x2B] = .ok m.program := by decide
  have hreach : m.Reachable {} s {} :=
    .call .start (show m.call 0 .step m.start {} = some _ from rfl)
  have hf : m.finished s = false := rfl
  obtain ⟨op, v, hop, hv, hiff, _, _⟩ := reachable_step_fails_iff hload m.config hreach hf {}
  obtain rfl : Instruction.increment = op := Except.ok.inj hop
  obtain rfl : 1 = v := Except.ok.inj hv
  exact ⟨hload, hreach, hf, (hiff _).mpr (.arithmeticOverflow rfl (by decide))⟩

end Machine

end TapeLang
