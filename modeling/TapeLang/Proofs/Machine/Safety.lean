import Mathlib.Algebra.Group.Nat.Defs
import Mathlib.Algebra.Ring.Int.Defs
import TapeLang.Proofs.Machine.Effect
import TapeLang.Proofs.Machine.Reachable
import TapeLang.Proofs.Program.Loading

/-!
# Every reachable state is safe

* `State.InRange` — the invariant: the memory is in order and the instruction pointer is in the
  program or at its end.
* `Streams.Later` — streams some calls later; they raise nothing that the first ones do not
  (`raises_of_read`, `raises_of_write`).
* `Fault.Declared` — what may keep a step from completing: an execution error, or what a stream
  raises beside the system's errors.
* `Step.Safe` — a step whose state is in range and whose fault, if there is one, is declared;
  `move_safe` to `branch_safe` prove it instruction by instruction, `step_safe` of every step.
* `reachable_safe` — in a loaded program all calls, also after failures, lead to states in range and
  raise declared faults only.
-/

namespace TapeLang

theorem Config.cellModulus_eq (c : Config) : c.cellModulus = 2 ^ c.cellWidth :=
  Nat.one_shiftLeft _

theorem Config.cellModulus_cast (c : Config) : (c.cellModulus : Int) = 2 ^ c.cellWidth := by
  simp [Config.cellModulus_eq]

/-- **A state in range**: its memory is in order, and the instruction pointer names an instruction
or the end. -/
structure State.InRange (m : Machine) (s : State) : Prop extends s.Fits m.config where
  ip_nonneg : 0 ≤ s.ip
  ip_le : s.ip ≤ m.program.size

/-! ## What streams raise -/

/-- A fault that a call on one of the streams raises. -/
def Streams.Raises (io : Streams) (g : StreamFault) : Prop :=
  .fault g ∈ io.input.pending ∨ ∃ call, io.output.plan call = some g

/-- The streams behind some calls on `io₀`: of the input a rest is left, and output fails as
planned. -/
structure Streams.Later (io₀ io : Streams) : Prop where
  input : io.input.pending <:+ io₀.input.pending
  output : io.output.plan = io₀.output.plan

namespace Streams.Later

variable {io₀ io : Streams} {g : StreamFault}

theorem refl (io : Streams) : io.Later io :=
  ⟨List.suffix_rfl, rfl⟩

theorem advance (h : io₀.Later io) : io₀.Later ⟨io.input.advance, io.output⟩ :=
  ⟨(List.tail_suffix _).trans h.input, h.output⟩

theorem accept (h : io₀.Later io) (b : UInt8) : io₀.Later ⟨io.input, io.output.accept b⟩ :=
  ⟨h.input, h.output⟩

theorem reject (h : io₀.Later io) : io₀.Later ⟨io.input, io.output.reject⟩ :=
  ⟨h.input, h.output⟩

theorem raises_of_read (h : io₀.Later io) (hg : io.input.next = .fault g) : io₀.Raises g := by
  refine .inl (h.input.mem ?_)
  unfold Input.next at hg
  cases hp : io.input.pending with
  | nil =>
      rw [hp] at hg
      cases hg
  | cons r later =>
      rw [hp, List.headD_cons] at hg
      exact hg ▸ List.mem_cons_self

theorem raises_of_write (h : io₀.Later io) (hg : io.output.next = some g) : io₀.Raises g :=
  .inr ⟨io.output.writes, h.output ▸ hg⟩

end Streams.Later

/-- **The faults that an execution may end with**: its own errors, and what a stream raises beside
the system's errors. A data pointer beside the tape, an instruction pointer beside the program, a
bracket without a partner or an empty range is none of them. -/
def Fault.Declared (io₀ : Streams) (f : Fault) : Prop :=
  (∃ e, f = .execution e) ∨ ∃ g, f = .stream g ∧ g.isSystem = false ∧ io₀.Raises g

/-! ## Safe steps -/

/-- A step that ends in range and fails, if it does, with a declared fault. -/
structure Step.Safe (m : Machine) (io₀ : Streams) (r : Step) : Prop where
  state : r.state.InRange m
  streams : io₀.Later r.streams
  fault : ∀ f, r.fault = some f → f.Declared io₀

section

variable {m : Machine} {s : State} {io₀ io : Streams} (h : s.InRange m) (hio : io₀.Later io)

include h hio

theorem Step.safe_done : (Step.done s io).Safe m io₀ :=
  ⟨h, hio, nofun⟩

theorem Step.safe_fail {f : Fault} (hf : f.Declared io₀) : (Step.fail f s io).Safe m io₀ :=
  ⟨h, hio, fun _ hg => Option.some.inj hg ▸ hf⟩

end

namespace Machine

open State (InRange)

variable {m : Machine} {s : State} {io₀ io : Streams}

theorem error_declared (s : State) (cause : ExecutionError.Cause) : (error s cause).Declared io₀ :=
  .inl ⟨_, rfl⟩

/-- What a failed stream call raises is declared: the system's errors become execution errors. -/
theorem stream_declared (s : State) {g : StreamFault} (hg : io₀.Raises g) :
    (if g.isSystem then error s (.io g) else Fault.stream g).Declared io₀ := by
  split
  · exact error_declared s _
  · rename_i hsystem
    exact .inr ⟨g, rfl, by simpa using hsystem, hg⟩

theorem inRange_next {i : Nat} (hi : i < m.program.size) {s' : State} (h : s'.Fits m.config)
    (hip : s'.ip = i) :
    s'.next.InRange m := by
  refine ⟨h.congr rfl rfl, ?_, ?_⟩
  · show 0 ≤ s'.ip + 1
    omega
  · show s'.ip + 1 ≤ m.program.size
    omega

section

variable {i : Nat} (h : s.InRange m) (hio : io₀.Later io) (hip : s.ip = i) (hi : i < m.program.size)

include h hio hip hi

theorem move_safe (d : Direction) : (m.move d s io).Safe m io₀ := by
  rw [move_eq]
  split
  · rename_i dp hdp
    exact Step.safe_done (inRange_next hi (h.moved (shift_range m.tapeLength_pos hdp)) hip) hio
  · exact Step.safe_fail h hio (error_declared s _)

theorem adjust_safe (d : Direction) : (m.adjust d s io).Safe m io₀ := by
  rw [adjust_eq h.toFits]
  split
  · rename_i v hv
    exact Step.safe_done (inRange_next hi (h.put (shift_range m.cellModulus_pos hv)) hip) hio
  · exact Step.safe_fail h hio (error_declared s _)

theorem write_safe : (write s io).Safe m io₀ := by
  rw [write_eq h.toFits]
  split
  · rename_i g hg
    exact Step.safe_fail h hio.reject (stream_declared s (hio.raises_of_write hg))
  · exact Step.safe_done (inRange_next hi (h.congr rfl rfl) hip) (hio.accept _)

theorem readNothing_safe : (m.readNothing s io).Safe m io₀ := by
  rw [readNothing_eq h.toFits]
  split
  · exact Step.safe_done (inRange_next hi (h.congr rfl rfl) hip) hio
  · have hzero : (s.put 0).Fits m.config := h.put ⟨Int.le_refl 0, m.cellModulus_pos⟩
    exact Step.safe_done (inRange_next hi (hzero.congr rfl rfl) hip) hio
  · have hend : { s with reachedEof := true }.InRange m := ⟨h.congr rfl rfl, h.ip_nonneg, h.ip_le⟩
    exact Step.safe_fail hend hio (error_declared s _)

theorem readByte_safe (b : UInt8) : (m.readByte b s io).Safe m io₀ := by
  have hv : b.toNat % m.config.cellModulus < m.config.cellModulus :=
    Nat.mod_lt _ m.config.cellModulus_pos
  have hbyte : (s.put (b.toNat % m.config.cellModulus : Nat)).Fits m.config :=
    h.put ⟨by omega, by omega⟩
  rw [readByte_eq h.toFits]
  exact Step.safe_done (inRange_next hi (hbyte.congr rfl rfl) hip) hio

theorem read_safe : (m.read s io).Safe m io₀ := by
  unfold read
  split
  · exact readNothing_safe h hio hip hi
  · split
    · rename_i g hg
      exact Step.safe_fail h hio.advance (stream_declared s (hio.raises_of_read hg))
    · exact readByte_safe h hio.advance hip hi _
    · exact readNothing_safe h hio.advance hip hi

/-- A bracket with a partner in the program leads into the program or to its end. -/
theorem branch_safe {j : Nat} (hj : m.program.partner i = some j) (hjlt : j < m.program.size)
    (onZero : Bool) :
    (m.branch i onZero s io).Safe m io₀ := by
  rw [branch_eq h.toFits, hj]
  split
  · refine Step.safe_done ⟨h.congr rfl rfl, ?_, ?_⟩ hio
    · show (0 : Int) ≤ (j : Int) + 1
      omega
    · show (j : Int) + 1 ≤ m.program.size
      omega
  · exact Step.safe_done (inRange_next hi h.toFits hip) hio

end

/-! ## Every step -/

theorem exists_instruction (h : s.InRange m) (hf : m.finished s = false) :
    ∃ (i : Nat) (op : Instruction), s.ip = i ∧ m.program.instructions[i]? = some op := by
  have hlt : s.ip < m.program.size := by simpa [finished] using hf
  have hip : s.ip = (s.ip.toNat : Nat) := (Int.toNat_of_nonneg h.ip_nonneg).symm
  have hi : s.ip.toNat < m.program.instructions.size := by
    have := h.ip_nonneg
    simp only [Program.size] at hlt
    omega
  exact ⟨s.ip.toNat, _, hip, Array.getElem?_eq_getElem hi⟩

theorem perform_safe (hp : m.program.Paired) (h : s.InRange m) (hio : io₀.Later io) {i : Nat}
    {op : Instruction} (hip : s.ip = i) (hop : m.program.instructions[i]? = some op) :
    (m.perform i op s io).Safe m io₀ := by
  obtain ⟨hi, _⟩ := Array.getElem?_eq_some_iff.mp hop
  cases op with
  | moveRight => exact move_safe h hio hip hi .up
  | moveLeft => exact move_safe h hio hip hi .down
  | increment => exact adjust_safe h hio hip hi .up
  | decrement => exact adjust_safe h hio hip hi .down
  | write => exact write_safe h hio hip hi
  | read => exact read_safe h hio hip hi
  | loopOpen =>
      obtain ⟨j, hj, _, hpair⟩ := hp.partner_open hop
      exact branch_safe h hio hip hi hj (Program.lt_size_of_partners hpair).2 true
  | loopClose =>
      obtain ⟨j, hj, _, hpair⟩ := hp.partner_close hop
      have hlt := Program.lt_size_of_partners hpair
      exact branch_safe h hio hip hi hj (by omega) false

/-- **A step from a state in range ends in range, and fails only with a declared fault.** -/
theorem step_safe (hp : m.program.Paired) (h : s.InRange m) (hio : io₀.Later io) :
    (m.step s io).Safe m io₀ := by
  by_cases hf : m.finished s
  · rw [step, if_pos hf]
    exact Step.safe_done h hio
  · obtain ⟨i, op, hip, hop⟩ := exists_instruction h (eq_false_of_ne_true hf)
    rw [step_eq_perform hip hop]
    exact perform_safe hp h hio hip hop

theorem inRange_start (m : Machine) : m.start.InRange m :=
  ⟨State.fits_start m, Int.le_refl 0, Int.natCast_nonneg _⟩

theorem step_keeps (hp : m.program.Paired) (io₀ : Streams) (s : State) (io : Streams)
    (h : s.InRange m ∧ io₀.Later io) :
    (m.step s io).state.InRange m ∧ io₀.Later (m.step s io).streams :=
  ⟨(step_safe hp h.1 h.2).state, (step_safe hp h.1 h.2).streams⟩

theorem reachable_inRange (hp : m.program.Paired) (h : m.Reachable io₀ s io) :
    s.InRange m ∧ io₀.Later io :=
  h.preserves (step_keeps hp io₀) ⟨inRange_start m, .refl io₀⟩

/-- **Reachable states are safe.** Whatever the streams do and however often the calls go on after a
failure: both pointers are in range, every cell of the tape is there and holds a number of its
width, and a call raises nothing but an execution error or what a stream itself raises beside the
system's errors. -/
theorem reachable_safe {source : List UInt8} {p : Program} (hload : Program.load source = .ok p)
    (config : Config) (io₀ : Streams) {s : State} {io : Streams}
    (h : Reachable ⟨p, config⟩ io₀ s io) :
    (0 ≤ s.ip ∧ s.ip ≤ p.size) ∧ (0 ≤ s.dp ∧ s.dp < config.tapeLength) ∧
      (∀ i : Nat, i < config.tapeLength → ∃ v, s.tape.get i = .ok v ∧ 0 ≤ v ∧
        v ≤ 2 ^ config.cellWidth - 1) ∧
      ∀ fuel c a f, Machine.call ⟨p, config⟩ fuel c s io = some a → a.reply = .error f →
        f.Declared io₀ := by
  have hp := Program.paired_of_load hload
  obtain ⟨hs, hio⟩ := reachable_inRange hp h
  refine ⟨⟨hs.ip_nonneg, hs.ip_le⟩, ⟨hs.dp_nonneg, hs.dp_lt⟩, ?_, ?_⟩
  · intro i hi
    have hv : 0 ≤ s.tape.cell i ∧ s.tape.cell i < (config.cellModulus : Int) := hs.cell_range i hi
    have hpow := config.cellModulus_cast
    refine ⟨s.tape.cell i, Tape.get_eq_cell hs.tape (by rw [hs.length_eq]; exact hi), hv.1, ?_⟩
    omega
  · intro fuel c a f hc hf
    have hraise : ∀ s io, State.InRange ⟨p, config⟩ s ∧ io₀.Later io →
        ∀ f, (Machine.step ⟨p, config⟩ s io).fault = some f → f.Declared io₀ :=
      fun s io h => (step_safe hp h.1 h.2).fault
    rcases call_raises (step_keeps hp io₀) hraise ⟨hs, hio⟩ hc hf with hdeclared | ⟨s', k, rfl⟩
    · exact hdeclared
    · exact error_declared s' _

/-- The state behind a read that is refused at the end of the input, and what may follow it. -/
theorem reachable_safe_refused_read :
    Program.load [0x2C] = .ok ⟨[0x2C], #[.read], #[0], #[none]⟩ ∧
      Reachable ⟨⟨[0x2C], #[.read], #[0], #[none]⟩, { eof := .check }⟩ {}
        { start ⟨⟨[0x2C], #[.read], #[0], #[none]⟩, { eof := .check }⟩ with reachedEof := true }
          ⟨⟨[], 1⟩, {}⟩ ∧
      ∀ fuel c a f,
        Machine.call ⟨⟨[0x2C], #[.read], #[0], #[none]⟩, { eof := .check }⟩ fuel c
          { start ⟨⟨[0x2C], #[.read], #[0], #[none]⟩, { eof := .check }⟩ with reachedEof := true }
            ⟨⟨[], 1⟩, {}⟩ =
            some a →
          a.reply = .error f → f.Declared {} :=
  have hload : Program.load [0x2C] = .ok ⟨[0x2C], #[.read], #[0], #[none]⟩ := by decide
  have hreach : Reachable ⟨⟨[0x2C], #[.read], #[0], #[none]⟩, { eof := .check }⟩ {}
      { start ⟨⟨[0x2C], #[.read], #[0], #[none]⟩, { eof := .check }⟩ with reachedEof := true }
        ⟨⟨[], 1⟩, {}⟩ :=
    .call .start (show Machine.call _ 0 .step _ _ = some _ from rfl)
  ⟨hload, hreach, (reachable_safe hload _ _ hreach).2.2.2⟩

end Machine

end TapeLang
