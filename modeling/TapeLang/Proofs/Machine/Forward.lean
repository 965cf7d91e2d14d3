import TapeLang.Proofs.Machine.Conditions
import TapeLang.Proofs.Machine.Crossing
import TapeLang.Proofs.Machine.Runs

/-!
# Control moves forward, but for jumps back

The instruction pointer is a measure of what is left of a program: every instruction moves it
forward, also a jump past a loop, since the partner of an opening bracket stands behind it. The one
exception is a closing bracket on a value that is not zero.

* `Attempt.executed`, `Attempt.JumpsBack` — an attempt that executes an instruction, and one that
  jumps back.
* `Flow.forward`, `attempt_forward`, `attempt_stands` — one attempt: it moves forward, it jumps
  back, or it executes nothing and leaves the instruction pointer where it is.
* `Thread.forward` — attempts in a row: without a jump back they execute no more instructions than
  the program has left.
* `step_straight`, `reachable_straight`, `exists_run_straight` — in a program without brackets every
  step counts the instruction pointer up by one, so that every run ends.
* `reachable_forward` — all of it, for the reachable states of loaded programs.
-/

namespace TapeLang

namespace Attempt

/-- Whether the attempt has executed an instruction. -/
def executed (a : Attempt) : Bool :=
  a.op.isSome && a.outcome.fault.isNone

/-- **A jump back**: a closing bracket is executed on a cell that is not zero. -/
def JumpsBack (a : Attempt) : Prop :=
  a.executed = true ∧ a.op = some .loopClose ∧ ∃ v, a.state.cell = .ok v ∧ v ≠ 0

end Attempt

namespace Machine

open State (InRange)

variable {m : Machine} {s s' : State} {io io₀ : Streams}

/-! ## One attempt -/

/-- **Control moves forward**, unless a closing bracket is executed on a value that is not zero. -/
theorem Flow.forward {op : Instruction} (hflow : m.Flow s (some op) s')
    (hback : op = .loopClose → s.current = 0) :
    s.ip < s'.ip := by
  cases hflow with
  | on hip _ _ _ hnext => omega
  | enter => exact Int.lt_succ _
  | skip hip hpair _ =>
      have hlt := hpair.lt
      rw [State.ip_goTo]
      omega
  | leave => exact Int.lt_succ _
  | back _ _ hne => exact absurd (hback rfl) hne

/-- An attempt that executes an instruction moves forward, or it is a jump back. -/
theorem attempt_forward (hp : m.program.Paired) (h : s.InRange m)
    (hexec : (m.attempt s io).executed = true) (hback : ¬(m.attempt s io).JumpsBack) :
    s.ip < (m.attempt s io).outcome.state.ip := by
  obtain ⟨hop, hdone⟩ := Bool.and_eq_true_iff.mp hexec
  obtain ⟨op, hop⟩ := Option.isSome_iff_exists.mp hop
  have hflow := attempt_flow hp h (Option.isNone_iff_eq_none.mp hdone)
  rw [hop] at hflow
  refine hflow.forward ?_
  rintro rfl
  by_contra hne
  exact hback ⟨hexec, hop, s.current, h.cell_eq, hne⟩

theorem attempt_stands (h : s.InRange m) (hexec : (m.attempt s io).executed = false) :
    (m.attempt s io).outcome.state.ip = s.ip := by
  rcases attempt_eq h io with ⟨_, heq⟩ | ⟨i, op, hip, hop, heq⟩
  · rw [heq]
    rfl
  · cases hfault : (m.step s io).fault with
    | none =>
        rw [← step_eq_perform hip hop] at heq
        simp [heq, Attempt.executed, hfault] at hexec
    | some f =>
        show (m.step s io).state.ip = s.ip
        rw [(step_atomic (finished_eq_false_of_fault hfault) io).kept f hfault]

end Machine

/-! ## Attempts in a row -/

/-- **Without a jump back, attempts execute no more instructions than they move forward.** By
induction on the attempts: each that executes an instruction has moved forward by one at least. -/
theorem Thread.forward {m : Machine} {s s' : State} {log : List Attempt} (hp : m.program.Paired)
    (h : Thread m s log s') (hs : s.InRange m) (hback : ∀ a ∈ log, ¬a.JumpsBack) :
    (∀ a ∈ log, a.executed = true → a.state.ip < a.outcome.state.ip) ∧
      s.ip + log.countP Attempt.executed ≤ s'.ip := by
  induction h with
  | nil => simp
  | @cons s s' io log _ ih =>
      obtain ⟨hfirst, hlater⟩ := List.forall_mem_cons.mp hback
      obtain ⟨hforward, hcount⟩ := ih (Machine.step_safe hp hs (.refl io)).state hlater
      cases hexec : (m.attempt s io).executed with
      | true =>
          have hlt := Machine.attempt_forward hp hs hexec hfirst
          refine ⟨List.forall_mem_cons.mpr ⟨fun _ => hlt, hforward⟩, ?_⟩
          rw [List.countP_cons_of_pos hexec]
          change s.ip < (m.step s io).state.ip at hlt
          omega
      | false =>
          have hsame := Machine.attempt_stands hs hexec
          refine ⟨List.forall_mem_cons.mpr ⟨fun htrue => (nomatch hexec.symm.trans htrue),
            hforward⟩, ?_⟩
          rw [List.countP_cons_of_neg (by simp [hexec])]
          change (m.step s io).state.ip = s.ip at hsame
          omega

namespace Machine

open State (InRange)

variable {m : Machine} {s s' : State} {io io₀ : Streams}

/-! ## Programs without brackets -/

/-- **A step of a program without brackets** goes on to the next instruction, or it fails at this
one. -/
theorem step_straight (hp : m.program.Paired)
    (hstraight : ∀ op ∈ m.program.instructions, op ≠ .loopOpen ∧ op ≠ .loopClose) (h : s.InRange m)
    (hf : m.finished s = false) (io : Streams) :
    (∃ f s' io', m.step s io = .fail f s' io' ∧ s'.ip = s.ip ∧ s'.steps = s.steps ∧
        ∀ e, f = .execution e → e.ip = s.ip) ∨
      ∃ s' io', m.step s io = .done s' io' ∧ s'.ip = s.ip + 1 ∧ s'.steps = s.steps + 1 := by
  obtain ⟨i, op, hip, hop⟩ := exists_instruction h hf
  obtain ⟨hopen, hclose⟩ := hstraight op (Array.mem_of_getElem? hop)
  have hatomic := step_atomic hf io
  cases hs : m.step s io with
  | mk fault s' io' =>
      rw [hs] at hatomic
      cases fault with
      | none =>
          have hnext : (m.perform i op s io).FallsThrough s := perform_fallsThrough i hopen hclose
          rw [← step_eq_perform hip hop, hs] at hnext
          exact .inr ⟨s', io', rfl, hnext rfl, hatomic.counted rfl⟩
      | some f =>
          have hkept : s' = { s with reachedEof := s'.reachedEof } := hatomic.kept f rfl
          have hfails : (m.perform i op s io).fault = some f := by
            rw [← step_eq_perform hip hop, hs]
          refine .inl ⟨f, s', io', rfl, by rw [hkept], by rw [hkept], ?_⟩
          rintro e rfl
          exact ((perform_fault_iff hp h.toFits hop io).mp hfails).located.1

theorem reachable_straight (hp : m.program.Paired)
    (hstraight : ∀ op ∈ m.program.instructions, op ≠ .loopOpen ∧ op ≠ .loopClose)
    (h : m.Reachable io₀ s io) :
    s.steps = s.ip := by
  refine (h.preserves (P := fun s _ => s.InRange m ∧ s.steps = s.ip) ?_ ⟨inRange_start m, rfl⟩).2
  rintro s io ⟨hs, hcount⟩
  refine ⟨(step_safe hp hs (.refl io)).state, ?_⟩
  cases hf : m.finished s with
  | true => rwa [step, if_pos hf]
  | false =>
      rcases step_straight hp hstraight hs hf io with
        ⟨f, s', io', hstep, hip, hsteps, _⟩ | ⟨s', io', hstep, hip, hsteps⟩
      · rw [hstep]
        exact (hsteps.trans hcount).trans hip.symm
      · rw [hstep]
        exact (hsteps.trans (congrArg (· + 1) hcount)).trans hip.symm

/-- **Every run of a program without brackets ends**, behind the last instruction or at one that
fails. By induction on the instructions that are left. -/
theorem exists_run_straight (hp : m.program.Paired)
    (hstraight : ∀ op ∈ m.program.instructions, op ≠ .loopOpen ∧ op ≠ .loopClose) (h : s.InRange m)
    (hcount : s.steps = s.ip) (hio : io₀.Later io) :
    ∃ halt, (∀ fuel : Nat, (m.program.size : Int) ≤ s.ip + fuel →
      m.run fuel none s io = some halt) ∧
      ((halt.stop = .finished ∧ halt.state.steps = m.program.size) ∨
        ∃ f, halt.stop = .failed f ∧ s.ip ≤ halt.state.ip ∧ halt.state.ip < m.program.size ∧
          halt.state.steps = halt.state.ip ∧ f.Declared io₀ ∧ ∀ e, f = .execution e →
            e.ip = halt.state.ip) := by
  induction hleft : (m.program.size - s.ip).toNat generalizing s io with
  | zero =>
      have hle := h.ip_le
      have hf : m.finished s = true := by simp only [finished, decide_eq_true_eq]; omega
      exact ⟨⟨.finished, s, io⟩, fun fuel _ => run_finished fuel hf,
        .inl ⟨rfl, show s.steps = _ by omega⟩⟩
  | succ left ih =>
      have hf : m.finished s = false := by simp only [finished, decide_eq_false_iff_not]; omega
      have hsafe := step_safe hp h hio
      rcases step_straight hp hstraight h hf io with
        ⟨f, s', io', hstep, hip, hsteps, hat⟩ | ⟨s', io', hstep, hip, hsteps⟩
      · rw [hstep] at hsafe
        refine ⟨⟨.failed f, s', io'⟩, fun fuel hfuel => ?_,
          .inr ⟨f, rfl, Int.le_of_eq hip.symm, ?_, ?_,
          hsafe.fault f rfl, fun e he => ?_⟩⟩
        · obtain ⟨fuel, rfl⟩ := Nat.exists_eq_succ_of_ne_zero (n := fuel) (by omega)
          exact run_fail fuel hf (by simp) hstep
        · show s'.ip < _
          omega
        · exact (hsteps.trans hcount).trans hip.symm
        · exact (hat e he).trans hip.symm
      · rw [hstep] at hsafe
        have hs' : s'.InRange m := hsafe.state
        obtain ⟨halt, hrun, hend⟩ := ih hs' (by omega) hsafe.streams (by omega)
        refine ⟨halt, fun fuel hfuel => ?_, hend.imp_right ?_⟩
        · obtain ⟨fuel, rfl⟩ := Nat.exists_eq_succ_of_ne_zero (n := fuel) (by omega)
          rw [run_done fuel hf (by simp) hstep]
          exact hrun fuel (by omega)
        · rintro ⟨f, hstop, hle, hrest⟩
          exact ⟨f, hstop, by omega, hrest⟩

/-! ## Reachable states -/

/-- **Only a jump back can keep a program running.** In every reachable state of a loaded program:
attempts in a row that all execute an instruction, none of them a jump back, move the instruction
pointer forward one by one, so that there are no more of them than instructions from it on. Attempts
that execute more instructions than the program has, whatever fails in between, contain a jump back.
And a program without brackets ends, on all streams: with as many steps as it has instructions, or
with a fault at one of them. -/
theorem reachable_forward {source : List UInt8} {p : Program}
    (hload : Program.load source = .ok p) (config : Config) {io₀ io : Streams} {s : State}
    (h : Reachable ⟨p, config⟩ io₀ s io) :
    (∀ log s', Thread ⟨p, config⟩ s log s' → (∀ a ∈ log, a.executed = true ∧ ¬a.JumpsBack) →
      (∀ a ∈ log, a.state.ip < a.outcome.state.ip) ∧ (log.length : Int) ≤ p.size - s.ip) ∧
    (∀ log s', Thread ⟨p, config⟩ s log s' → p.size < log.countP Attempt.executed →
      ∃ a ∈ log, a.JumpsBack) ∧
    ((∀ op ∈ p.instructions, op ≠ .loopOpen ∧ op ≠ .loopClose) → ∀ io',
      ∃ halt, (∀ fuel : Nat, (p.size : Int) ≤ s.ip + fuel → run ⟨p, config⟩ fuel none s io' =
        some halt) ∧
        ((halt.stop = .finished ∧ halt.state.steps = p.size) ∨
          ∃ f, halt.stop = .failed f ∧ s.ip ≤ halt.state.ip ∧ halt.state.ip < p.size ∧
            halt.state.steps = halt.state.ip ∧ f.Declared io' ∧ ∀ e, f = .execution e →
              e.ip = halt.state.ip)) := by
  have hp := Program.paired_of_load hload
  have hs := (reachable_inRange (m := ⟨p, config⟩) hp h).1
  have hforward : ∀ {log s'}, Thread ⟨p, config⟩ s log s' → (∀ a ∈ log, ¬a.JumpsBack) →
      (∀ a ∈ log, a.executed = true → a.state.ip < a.outcome.state.ip) ∧
        (log.countP Attempt.executed : Int) ≤ p.size - s.ip := by
    intro log s' hthread hback
    obtain ⟨hall, hcount⟩ := hthread.forward hp hs hback
    have hle : s'.ip ≤ p.size := (hthread.inRange hp hs).1.ip_le
    exact ⟨hall, by omega⟩
  refine ⟨fun log s' hthread hall => ?_, fun log s' hthread hmany => ?_, fun hstraight io' => ?_⟩
  · obtain ⟨hmoves, hcount⟩ := hforward hthread fun a ha => (hall a ha).2
    rw [List.countP_eq_length.mpr fun a ha => (hall a ha).1] at hcount
    exact ⟨fun a ha => hmoves a ha (hall a ha).1, hcount⟩
  · by_contra hnone
    have hcount := (hforward hthread fun a ha hback => hnone ⟨a, ha, hback⟩).2
    have := hs.ip_nonneg
    omega
  · exact exists_run_straight (m := ⟨p, config⟩) hp hstraight hs (reachable_straight hp hstraight h)
      (.refl io')

/-- Two steps of `+[]` that go forward, a jump back within four, and `+,` on an empty input, which
ends. -/
theorem reachable_forward_spinning :
    let m : Machine :=
      ⟨⟨[0x2B, 0x5B, 0x5D], #[.increment, .loopOpen, .loopClose], #[0, 1, 2],
        #[none, some 2, some 1]⟩,
        { tapeLength := 2 }⟩
    let straight : Machine :=
      ⟨⟨[0x2B, 0x2C], #[.increment, .read], #[0, 1], #[none, none]⟩,
        { eof := .check, tapeLength := 2 }⟩
    Program.load [0x2B, 0x5B, 0x5D] = .ok m.program ∧ m.Reachable {} m.start {} ∧
      (∀ a ∈ (m.trail 2 m.start {}).attempts, a.state.ip < a.outcome.state.ip) ∧
      (∃ a ∈ (m.trail 4 m.start {}).attempts, a.JumpsBack) ∧
      Program.load [0x2B, 0x2C] = .ok straight.program ∧ straight.Reachable {} straight.start {} ∧
      ∃ halt, ∀ fuel ≥ 2, straight.run fuel none straight.start {} = some halt := by
  intro m straight
  have hload : Program.load [0x2B, 0x5B, 0x5D] = .ok m.program := by decide
  have hload' : Program.load [0x2B, 0x2C] = .ok straight.program := by decide
  have hstart : m.Reachable {} m.start {} := .start
  have hstart' : straight.Reachable {} straight.start {} := .start
  obtain ⟨hmoves, hjumps, _⟩ := reachable_forward hload m.config hstart
  obtain ⟨_, _, hends⟩ := reachable_forward hload' straight.config hstart'
  obtain ⟨halt, hrun, _⟩ := hends (by decide) {}
  have hfirst : ∀ a ∈ (m.trail 2 m.start {}).attempts, a.executed = true ∧ ¬a.JumpsBack := by
    have hlog : (m.trail 2 m.start {}).attempts =
        [m.attempt m.start {},
          m.attempt (m.step m.start {}).state (m.step m.start {}).streams] := rfl
    rw [hlog, List.forall_mem_cons, List.forall_mem_singleton]
    exact ⟨⟨by decide, fun h => absurd h.2.1 (by decide)⟩,
      ⟨by decide, fun h => absurd h.2.1 (by decide)⟩⟩
  exact ⟨hload, hstart, (hmoves _ _ (trail_thread m 2 m.start {}) hfirst).1,
    hjumps _ _ (trail_thread m 4 m.start {}) (by decide), hload', hstart', halt,
    fun fuel hfuel => hrun fuel (show (2 : Int) ≤ 0 + fuel by omega)⟩

end Machine

end TapeLang
