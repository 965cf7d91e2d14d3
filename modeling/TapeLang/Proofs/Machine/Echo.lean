import TapeLang.Proofs.Machine.Loops

/-!
# The program that echoes

`,[.,]` writes what it reads, until it reads a zero.

* `echoed` — the bytes that come back: those before the first that leaves nothing in a cell.
* `State.Echoing` — the state behind a read, with the bytes that were left before it.
* `step_read_zero`, `step_write` — the two steps that call the streams; `steps_turn` — one turn of
  the loop.
* `steps_echo` — all turns, by induction on the bytes; `echo_echoes` — the whole program.
-/

namespace TapeLang

open Instruction (brackets)

/-- **The bytes that come back**: those before the first of which no bit has room in a cell. -/
def echoed (c : Config) (bytes : List UInt8) : List UInt8 :=
  bytes.takeWhile fun b => b.toNat % 2 ^ c.cellWidth ≠ 0

/-- **The state behind a read**, where `bytes` were left before it: the first of them is in the
current cell, as far as that has room, or a zero if there was none. -/
structure State.Echoing (c : Config) (bytes : List UInt8) (s : State) (io : Streams) : Prop where
  fits : s.Fits c
  current_eq : s.current = ((bytes.headD 0).toNat % 2 ^ c.cellWidth : Nat)
  reachedEof_eq : s.reachedEof = bytes.isEmpty
  pending_eq : io.input.pending = bytes.tail.map fun b => .chunk [b]
  plan_eq : ∀ call, io.output.plan call = none

theorem State.Echoing.goTo {c : Config} {bytes : List UInt8} {s : State} {io : Streams}
    (h : s.Echoing c bytes io) (ip : Int) : (s.goTo ip).Echoing c bytes io :=
  ⟨h.fits.congr rfl rfl, h.current_eq, h.reachedEof_eq, h.pending_eq, h.plan_eq⟩

namespace Machine

open State (Fits Echoing)

variable {m : Machine} {s : State} {io : Streams} {bytes : List UInt8}

/-! ## One turn -/

/-- **A read** from a stream of bytes. -/
theorem step_read_zero (io : Streams) (heof : m.config.eof = .zero) (hcode : m.Ahead s [.read])
    (h : s.Fits m.config) (hunread : s.reachedEof = false)
    (hpending : io.input.pending = bytes.map fun b => .chunk [b])
    (hplan : ∀ call, io.output.plan call = none) :
    ∃ s' io', m.step s io = .done s' io' ∧ s'.ip = s.ip + 1 ∧ s'.steps = s.steps + 1 ∧
      io'.output = io.output ∧
      Echoing m.config bytes s' io' := by
  obtain ⟨i, hip, hop⟩ := hcode.head
  rw [step_eq_perform hip hop, perform, read, if_neg (by simp [hunread]), Input.next, hpending]
  cases bytes with
  | nil =>
      have hput : (s.put 0).Fits m.config := h.put ⟨Int.le_refl 0, m.cellModulus_pos⟩
      have hstep := readNothing_eq h ⟨io.input.advance, io.output⟩
      simp only [heof] at hstep
      refine ⟨_, _, hstep, rfl, rfl, rfl, hput.congr rfl rfl, ?_, rfl, ?_, hplan⟩
      · exact hput.current_eq (h.cell_put 0)
      · rw [Input.advance, hpending]
        rfl
  | cons b bytes =>
      have hlt : b.toNat % m.config.cellModulus < m.config.cellModulus :=
        Nat.mod_lt _ m.config.cellModulus_pos
      have hput : (s.put (b.toNat % m.config.cellModulus : Nat)).Fits m.config :=
        h.put ⟨Int.natCast_nonneg _, Int.ofNat_lt.mpr hlt⟩
      refine ⟨_, _, readByte_eq h b _, rfl, rfl, rfl, hput.congr rfl rfl, ?_, hunread, ?_, hplan⟩
      · rw [← m.config.cellModulus_eq]
        exact hput.current_eq (h.cell_put _)
      · rw [Input.advance, hpending]
        rfl

/-- **A write** to a stream that works. -/
theorem step_write (hcode : m.Ahead s [.write]) (h : s.Fits m.config)
    (hplan : ∀ call, io.output.plan call = none) :
    m.step s io =
      .done { s with bytesWritten := s.bytesWritten + 1 }.next ⟨io.input,
        io.output.accept (outputByte s.current)⟩ := by
  obtain ⟨i, hip, hop⟩ := hcode.head
  rw [step_eq_perform hip hop, perform, write_eq h, Output.next, hplan]

theorem outputByte_mod (b : UInt8) (n : Nat) :
    outputByte ((b.toNat % n : Nat) : Int) = UInt8.ofNat (b.toNat % n) := by
  have hlt : b.toNat % n < 256 := Nat.lt_of_le_of_lt (Nat.mod_le _ _) b.toNat_lt
  rw [outputByte, show ((b.toNat % n : Nat) : Int) % 256 = (b.toNat % n : Nat) by omega,
    Int.toNat_natCast]

/-- **A turn**: the byte that was read is written, and the next one is read. -/
theorem steps_turn {b : UInt8} (heof : m.config.eof = .zero) (hcode : m.Ahead s [.write, .read])
    (h : Echoing m.config (b :: bytes) s io) :
    ∃ s' io', m.steps 2 s io = .done s' io' ∧ s'.ip = s.ip + 2 ∧ s'.steps = s.steps + 2 ∧
      io'.output.bytes = io.output.bytes.push (UInt8.ofNat (b.toNat % 2 ^ m.config.cellWidth)) ∧
      Echoing m.config bytes s' io' := by
  have hwrite := step_write (hcode.left (w := [.write])) h.fits h.plan_eq
  obtain ⟨s', io', hread, hip, hcount, hout, h'⟩ :=
    step_read_zero (s := { s with bytesWritten := s.bytesWritten + 1 }.next)
    ⟨io.input, io.output.accept (outputByte s.current)⟩ heof (hcode.tail rfl) (h.fits.congr rfl rfl)
    h.reachedEof_eq h.pending_eq h.plan_eq
  refine ⟨s', io', ?_, ?_, ?_, ?_, h'⟩
  · rw [steps_succ_done 1 hwrite, steps_succ_done 0 hread, steps]
  · rw [hip, State.ip_next, Int.add_assoc]
    rfl
  · rw [hcount]
    show s.steps + 1 + 1 = s.steps + 2
    omega
  · rw [hout, Output.accept, h.current_eq, outputByte_mod, List.headD_cons]

/-! ## All turns -/

/-- **The loop writes the bytes that come back**: by induction on the bytes that are left. -/
theorem steps_echo (heof : m.config.eof = .zero) (hloop : m.LoopAt 1 [.write, .read])
    (hip : s.ip = ((1 : Nat) : Int) ∨
      s.ip = ((1 : Nat) : Int) + ([.write, .read] : List Instruction).length + 1)
    (h : Echoing m.config bytes s io) :
    ∃ s' io', m.steps (1 + 3 * (echoed m.config bytes).length) s io = .done s' io' ∧ s'.ip = 5 ∧
      s'.steps = s.steps + (1 + 3 * (echoed m.config bytes).length : Nat) ∧
      io'.output.bytes.toList = io.output.bytes.toList ++
        (echoed m.config bytes).map (fun b => UInt8.ofNat (b.toNat % 2 ^ m.config.cellWidth)) ∧
      (s'.reachedEof = true ↔ (echoed m.config bytes).length = bytes.length) := by
  induction bytes generalizing s io with
  | nil =>
      have htest := hloop.test h.fits hip io
      rw [h.current_eq, if_pos (by simp)] at htest
      refine ⟨_, _, (steps_succ_done 0 htest).trans rfl, rfl, rfl, (List.append_nil _).symm, ?_⟩
      exact iff_of_true h.reachedEof_eq rfl
  | cons b bytes ih =>
      have htest := hloop.test h.fits hip io
      rw [h.current_eq, List.headD_cons] at htest
      by_cases hzero : b.toNat % 2 ^ m.config.cellWidth = 0
      · have hnone : echoed m.config (b :: bytes) = [] :=
          List.takeWhile_cons_of_neg (by simp [hzero])
        rw [if_pos (Int.natCast_eq_zero.mpr hzero)] at htest
        rw [hnone]
        refine ⟨_, _, (steps_succ_done 0 htest).trans rfl, rfl, rfl, (List.append_nil _).symm,
          iff_of_false ?_ ?_⟩
        · rw [State.goTo, h.reachedEof_eq]
          exact Bool.false_ne_true
        · exact (Nat.succ_ne_zero _).symm
      · have hfirst : echoed m.config (b :: bytes) = b :: echoed m.config bytes :=
          List.takeWhile_cons_of_pos (by simp [hzero])
        rw [if_neg (Int.natCast_ne_zero.mpr hzero)] at htest
        obtain ⟨s₁, io₁, hsteps₁, hip₁, hcount₁, hout₁, h₁⟩ :=
          steps_turn heof (hloop.ahead rfl) (h.goTo _)
        obtain ⟨s', io', hsteps, hip', hcount, hout, heofs⟩ := ih (.inr (by rw [hip₁]; rfl)) h₁
        refine ⟨s', io', ?_, hip', ?_, ?_, ?_⟩
        · rw [hfirst, List.length_cons, show 1 + 3 * ((echoed m.config bytes).length + 1) =
            2 + (1 + 3 * (echoed m.config bytes).length) + 1 by omega, steps_succ_done _ htest,
              steps_add hsteps₁, hsteps]
        · rw [hcount, hcount₁, State.steps_goTo, hfirst, List.length_cons]
          omega
        · rw [hout, hout₁, Array.toList_push, List.append_assoc, hfirst]
          rfl
        · rw [heofs, hfirst, List.length_cons, List.length_cons, Nat.succ_inj]

/-! ## The whole program -/

theorem load_echo : ∃ p, Program.loadText ",[.,]" = .ok p ∧ p.Paired ∧ p.size = 5 ∧
    ∀ (c : Config) (s : State), s.ip = 0 →
      Ahead ⟨p, c⟩ s [.read, .loopOpen, .write, .read, .loopClose] := by
  have hbody : brackets.Balanced [.write, .read] := Brackets.balanced_of_straight (by decide)
  have hread : brackets.Balanced [.read] := Brackets.balanced_of_straight (by decide)
  obtain ⟨p, hload, hsize, hahead⟩ := load_ahead (hread.append hbody.wrap)
  exact ⟨p, hload, Program.paired_of_load hload, hsize, hahead⟩

/-- Where a cell has room for a byte, the bytes that come back are those before the first zero,
unchanged. -/
theorem echoed_wide {c : Config} (h : 8 ≤ c.cellWidth) (bytes : List UInt8) :
    echoed c bytes = bytes.takeWhile (· ≠ 0) ∧
      (echoed c bytes).map (fun b => UInt8.ofNat (b.toNat % 2 ^ c.cellWidth)) =
        bytes.takeWhile (· ≠ 0) := by
  have hroom : ∀ b : UInt8, b.toNat % 2 ^ c.cellWidth = b.toNat := by
    intro b
    have hpow : 2 ^ 8 ≤ 2 ^ c.cellWidth := Nat.pow_le_pow_right (by decide) h
    have hb := b.toNat_lt
    exact Nat.mod_eq_of_lt (by omega)
  have hechoed : echoed c bytes = bytes.takeWhile (· ≠ 0) := by
    simp only [echoed, hroom, ne_eq, ← UInt8.toNat_inj, UInt8.toNat_zero]
  refine ⟨hechoed, ?_⟩
  simp [hechoed, hroom]

/-- **The echo program echoes.** As a text `,[.,]` is a program. Let reads store a zero at the end
of the input, and let the output work. On any tape, with cells of any width and under any modes, it
then ends with success after exactly `2 + 3 * k` steps, where `k` is the number of leading bytes of
the input that leave something in a cell. It has written these, as far as a cell has room for them,
so for cells of eight bits or more the input up to its first zero; and it has found the end of the
input if these are all of it, and only then. -/
theorem echo_echoes :
    ∃ p, Program.loadText ",[.,]" = .ok p ∧ ∀ (c : Config) (bytes : List UInt8) (out : Output),
      c.eof = .zero →
      (∀ call, out.plan call = none) →
      let m : Machine := ⟨p, c⟩
      let io : Streams := ⟨.ofBytes bytes, out⟩
      let k := (bytes.takeWhile fun b => b.toNat % 2 ^ c.cellWidth ≠ 0).length
      ∃ s' io', m.steps (2 + 3 * k) m.start io = .done s' io' ∧ s'.steps = (2 + 3 * k : Nat) ∧
        (∀ fuel ≥ 2 + 3 * k, m.run fuel none m.start io = some ⟨.finished, s', io'⟩) ∧
        (Halt.mk .finished s' io').ReportsSuccess ∧
        io'.output.bytes.toList =
          out.bytes.toList ++
            (bytes.take k).map (fun b => UInt8.ofNat (b.toNat % 2 ^ c.cellWidth)) ∧
        (8 ≤ c.cellWidth → io'.output.bytes.toList = out.bytes.toList ++ bytes.takeWhile (· ≠ 0)) ∧
        (s'.reachedEof = true ↔ k = bytes.length) := by
  obtain ⟨p, hload, hp, hsize, hahead⟩ := load_echo
  refine ⟨p, hload, fun c bytes out heof hplan => ?_⟩
  intro m io k
  have hcode : m.Ahead m.start ([.read] ++ [.loopOpen, .write, .read, .loopClose]) :=
    hahead c m.start rfl
  have hpending : io.input.pending = bytes.map fun b => .chunk [b] := rfl
  obtain ⟨s₁, io₁, hread, hip₁, hcount₁, hout₁, h₁⟩ :=
    step_read_zero io heof hcode.left (State.fits_start m) rfl hpending hplan
  have hloop : m.LoopAt 1 [.write, .read] :=
    (hcode.right hip₁).loopAt hp (Brackets.balanced_of_straight (by decide)) hip₁
  obtain ⟨s', io', hsteps, hip, hcount, hout, heofs⟩ := steps_echo heof hloop (.inl hip₁) h₁
  have hall : 2 + 3 * k = 1 + 3 * (echoed c bytes).length + 1 := by
    show 2 + 3 * (echoed c bytes).length = _
    omega
  have hdone : m.steps (2 + 3 * k) m.start io = .done s' io' := by
    rw [hall, steps_succ_done _ hread, hsteps]
  have hstart : m.start.steps = 0 := rfl
  have htotal : s'.steps = (2 + 3 * k : Nat) := by
    rw [hcount, hcount₁, hstart, hall]
    show 0 + 1 + ((1 + 3 * (echoed c bytes).length : Nat) : Int) = _
    omega
  have hfinished : m.finished s' = true := by
    rw [finished, hip, hsize]
    rfl
  have htake : bytes.take k = echoed c bytes :=
    (List.prefix_iff_eq_take.mp (List.takeWhile_prefix _)).symm
  rw [hout₁] at hout
  refine ⟨s', io', hdone, htotal, ?_, (Halt.reports_of_finished rfl).1, ?_, fun hwide => ?_, heofs⟩
  · exact run_of_steps_finished hdone (by rw [htotal, hstart, Int.zero_add]) hfinished
  · rw [htake]
    exact hout
  · rw [← (echoed_wide hwide bytes).2]
    exact hout

/-- Cells of two bits stop at a four. -/
theorem echo_echoes_narrow :
    let c : Config := { eof := .zero, tapeLength := 1, cellWidth := 2 }
    let m : Machine :=
      ⟨⟨[0x2C, 0x5B, 0x2E, 0x2C, 0x5D], #[.read, .loopOpen, .write, .read, .loopClose],
        #[0, 1, 2, 3, 4], #[none, some 4, none, none, some 1]⟩, c⟩
    Program.loadText ",[.,]" = .ok m.program ∧
      ∃ s' io', m.run 8 none m.start ⟨.ofBytes [7, 9, 4, 1], {}⟩ = some ⟨.finished, s', io'⟩ ∧
        s'.steps = 8 ∧
        io'.output.bytes.toList = [3, 1] ∧ ¬s'.reachedEof = true := by
  intro c m
  have hload : Program.loadText ",[.,]" = .ok m.program := by decide +kernel
  have hworks : ∀ call, ({} : Output).plan call = none := fun _ => rfl
  obtain ⟨p, hloaded, hruns⟩ := echo_echoes
  obtain rfl : m.program = p := Except.ok.inj (hload.symm.trans hloaded)
  obtain ⟨s', io', _, hcount, hrun, _, hout, _, heofs⟩ := hruns c [7, 9, 4, 1] {} rfl hworks
  exact ⟨hload, s', io', hrun 8 (by decide), hcount.trans (by decide), hout.trans (by decide),
    fun h => absurd (heofs.mp h) (by decide)⟩

end Machine

end TapeLang
