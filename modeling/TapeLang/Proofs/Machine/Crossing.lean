import TapeLang.Proofs.Machine.Thread

/-!
# How control crosses the brackets of a loop

* `Step.FallsThrough` — a step that goes to the next instruction if it completes;
  `perform_fallsThrough` — so do all instructions but brackets.
* `Program.Loop` — two brackets of a program that belong together.
* `Machine.Flow` — the ways that control takes on a completed step: on to the next instruction, into
  a loop, past it, out of it or back; `attempt_flow` — every completed attempt takes one of them.
* `Flow.enters`, `Flow.leaves`, `Flow.begins` — what each of these ways means for any loop,
  whichever instruction is executed; `Attempt.Crosses` is all three.
* `session_crosses` — of every loop and every completed attempt of a session: the loop is entered at
  its opening bracket and left behind the closing one, on a zero, and its body is begun on any other
  value.
-/

namespace TapeLang

/-- **A loop of a program**: the brackets at `i` and `j` belong together. -/
abbrev Program.Loop (p : Program) (i j : Nat) : Prop :=
  Instruction.brackets.Partners p.instructions.toList i j

theorem State.ip_next (s : State) : s.next.ip = s.ip + 1 := rfl

theorem State.ip_goTo (s : State) (ip : Int) : (s.goTo ip).ip = ip := rfl

theorem State.steps_goTo (s : State) (ip : Int) : (s.goTo ip).steps = s.steps + 1 := rfl

/-- **A step that goes on to the next instruction** if it completes. -/
def Step.FallsThrough (s : State) (r : Step) : Prop :=
  r.fault = none → r.state.ip = s.ip + 1

theorem Step.fallsThrough_next {s s' : State} {io : Streams} (h : s'.ip = s.ip) :
    (Step.done s'.next io).FallsThrough s :=
  fun _ => congrArg (· + 1) h

theorem Step.fallsThrough_fail {s s' : State} {io : Streams} {f : Fault} :
    (Step.fail f s' io).FallsThrough s :=
  nofun

namespace Machine

open State (InRange)

variable {m : Machine} {s s' : State} {io : Streams}

/-! ## Instructions that are no brackets -/

theorem move_fallsThrough (d : Direction) : (m.move d s io).FallsThrough s := by
  unfold move
  split
  · exact Step.fallsThrough_next rfl
  · exact Step.fallsThrough_fail
  · exact Step.fallsThrough_fail

theorem adjust_fallsThrough (d : Direction) : (m.adjust d s io).FallsThrough s := by
  unfold adjust
  split
  · exact Step.fallsThrough_fail
  · split
    · exact Step.fallsThrough_next rfl
    · exact Step.fallsThrough_fail
    · exact Step.fallsThrough_fail

theorem write_fallsThrough : (write s io).FallsThrough s := by
  unfold write
  split
  · exact Step.fallsThrough_fail
  · split
    · exact Step.fallsThrough_fail
    · exact Step.fallsThrough_next rfl

theorem readNothing_fallsThrough (io' : Streams) : (m.readNothing s io').FallsThrough s := by
  unfold readNothing
  dsimp only
  split
  · exact Step.fallsThrough_next rfl
  · split
    · exact Step.fallsThrough_fail
    · exact Step.fallsThrough_next rfl
  · exact Step.fallsThrough_fail

theorem readByte_fallsThrough (b : UInt8) (io' : Streams) :
    (m.readByte b s io').FallsThrough s := by
  unfold readByte
  split
  · exact Step.fallsThrough_fail
  · exact Step.fallsThrough_next rfl

theorem read_fallsThrough : (m.read s io).FallsThrough s := by
  unfold read
  split
  · exact readNothing_fallsThrough io
  · split
    · exact Step.fallsThrough_fail
    · exact readByte_fallsThrough _ _
    · exact readNothing_fallsThrough _

theorem perform_fallsThrough (i : Nat) {op : Instruction} (hopen : op ≠ .loopOpen)
    (hclose : op ≠ .loopClose) :
    (m.perform i op s io).FallsThrough s := by
  cases op with
  | moveRight => exact move_fallsThrough .up
  | moveLeft => exact move_fallsThrough .down
  | increment => exact adjust_fallsThrough .up
  | decrement => exact adjust_fallsThrough .down
  | write => exact write_fallsThrough
  | read => exact read_fallsThrough
  | loopOpen => exact absurd rfl hopen
  | loopClose => exact absurd rfl hclose

/-! ## The ways of control -/

/-- **The ways of control**: where a completed step leads to from state `s`, by the instruction that
it executes. A bracket changes nothing but the instruction pointer and the number of steps. -/
inductive Flow (m : Machine) (s : State) : Option Instruction → State → Prop
  /-- The program has ended. -/
  | stay : (m.program.size : Int) ≤ s.ip → Flow m s none s
  /-- An instruction that is no bracket. -/
  | on {k : Nat} {op : Instruction} {s' : State} : s.ip = k → m.program.instructions[k]? = some op →
      op ≠ .loopOpen → op ≠ .loopClose → s'.ip = k + 1 → Flow m s (some op) s'
  /-- Into the body of a loop. -/
  | enter {k l : Nat} : s.ip = k → m.program.Loop k l → s.current ≠ 0 →
    Flow m s (some .loopOpen) s.next
  /-- Past a loop. -/
  | skip {k l : Nat} : s.ip = k → m.program.Loop k l → s.current = 0 →
      Flow m s (some .loopOpen) (s.goTo (l + 1))
  /-- Out of a loop. -/
  | leave {k l : Nat} : s.ip = l → m.program.Loop k l → s.current = 0 →
    Flow m s (some .loopClose) s.next
  /-- Back into the body of a loop. -/
  | back {k l : Nat} : s.ip = l → m.program.Loop k l → s.current ≠ 0 →
      Flow m s (some .loopClose) (s.goTo (k + 1))

/-- **Every completed step of a loaded program takes one of the ways of control.** -/
theorem attempt_flow (hp : m.program.Paired) (h : s.InRange m)
    (hdone : (m.attempt s io).outcome.fault = none) :
    m.Flow s (m.attempt s io).op (m.attempt s io).outcome.state := by
  rcases attempt_eq h io with ⟨hfinished, heq⟩ | ⟨i, op, hip, hop, heq⟩
  · rw [heq]
    exact .stay (by simpa [finished] using hfinished)
  · rw [heq] at hdone ⊢
    dsimp only at hdone ⊢
    by_cases hopen : op = .loopOpen
    · subst hopen
      obtain ⟨j, hj, _, hpair⟩ := hp.partner_open hop
      rw [perform, branch_eq h.toFits, hj]
      by_cases hzero : s.current = 0
      · simpa [hzero, Step.done] using Flow.skip hip hpair hzero
      · simpa [hzero, Step.done] using Flow.enter hip hpair hzero
    · by_cases hclose : op = .loopClose
      · subst hclose
        obtain ⟨j, hj, _, hpair⟩ := hp.partner_close hop
        rw [perform, branch_eq h.toFits, hj]
        by_cases hzero : s.current = 0
        · simpa [hzero, Step.done] using Flow.leave hip hpair hzero
        · simpa [hzero, Step.done] using Flow.back hip hpair hzero
      · have hnext := perform_fallsThrough i hopen hclose hdone
        exact .on hip hop hopen hclose (hip ▸ hnext)

end Machine

/-! ## Crossing a bracket -/

/-- The instruction pointer stands in the loop from `i` to `j`, its two brackets included. -/
def State.Within (s : State) (i j : Nat) : Prop :=
  (i : Int) ≤ s.ip ∧ s.ip ≤ j

/-- **How an attempt crosses the brackets at `i` and `j`**: into the loop to its opening bracket,
out of the loop from one of its brackets on a zero, and from a bracket to the body on any other
value. -/
structure Attempt.Crosses (a : Attempt) (i j : Nat) : Prop where
  enters : ¬a.state.Within i j → a.outcome.state.Within i j → a.outcome.state.ip = i
  leaves : a.state.Within i j → ¬a.outcome.state.Within i j →
    a.outcome.state.ip = j + 1 ∧
      ((a.state.ip = i ∧ a.op = some .loopOpen) ∨ (a.state.ip = j ∧ a.op = some .loopClose)) ∧
      a.state.cell = .ok 0 ∧ a.outcome.state.cell = .ok 0
  begins : a.state.ip = i ∨ a.state.ip = j → a.outcome.state.ip = i + 1 →
    ∃ v, a.state.cell = .ok v ∧ a.outcome.state.cell = .ok v ∧ v ≠ 0

namespace Machine

open State (Within)

variable {m : Machine} {s s' : State} {op : Option Instruction} {i j : Nat}

theorem ne_of_partners {k : Nat} {x : Instruction} (hpair : m.program.Loop i j)
    (hx : m.program.instructions[k]? = some x) (hopen : x ≠ .loopOpen) (hclose : x ≠ .loopClose) :
    k ≠ i ∧ k ≠ j := by
  rw [← Array.getElem?_toList] at hx
  constructor
  · rintro rfl
    exact hopen (Option.some.inj (hx.symm.trans hpair.opens))
  · rintro rfl
    exact hclose (Option.some.inj (hx.symm.trans hpair.closes))

variable (hflow : m.Flow s op s') (hpair : m.program.Loop i j)

include hflow hpair

/-- **A loop is entered at its opening bracket**, also by a jump past or back into another loop. -/
theorem Flow.enters (hout : ¬s.Within i j) (hin : s'.Within i j) : s'.ip = i := by
  have hlt := hpair.lt
  unfold Within at hout hin
  cases hflow with
  | stay hend => exact absurd hin hout
  | on hip hop hopen hclose hnext => omega
  | enter hip hpair' hne =>
      rw [State.ip_next] at hin ⊢
      omega
  | skip hip hpair' hzero =>
      have hnest := hpair.nested_or_apart hpair'
      have hlt' := hpair'.lt
      rw [State.ip_goTo] at hin ⊢
      omega
  | leave hip hpair' hzero =>
      rw [State.ip_next] at hin ⊢
      omega
  | back hip hpair' hne =>
      have hnest := hpair.nested_or_apart hpair'
      have hlt' := hpair'.lt
      rw [State.ip_goTo] at hin ⊢
      omega

/-- **A loop is left from one of its brackets, on a zero, to the place behind it.** -/
theorem Flow.leaves (hin : s.Within i j) (hout : ¬s'.Within i j) :
    s'.ip = j + 1 ∧ ((s.ip = i ∧ op = some .loopOpen) ∨ (s.ip = j ∧ op = some .loopClose)) ∧
      s.current = 0 ∧
      s'.cell = s.cell := by
  have hlt := hpair.lt
  unfold Within at hout hin
  cases hflow with
  | stay hend => exact absurd hin hout
  | on hip hop hopen hclose hnext =>
      have hne := ne_of_partners hpair hop hopen hclose
      omega
  | enter hip hpair' hne =>
      have hnest := hpair.nested_or_apart hpair'
      have hlt' := hpair'.lt
      rw [State.ip_next] at hout
      omega
  | skip hip hpair' hzero =>
      have hnest := hpair.nested_or_apart hpair'
      have hlt' := hpair'.lt
      rw [State.ip_goTo] at hout ⊢
      exact ⟨by omega, .inl ⟨by omega, rfl⟩, hzero, rfl⟩
  | leave hip hpair' hzero =>
      have hnest := hpair.nested_or_apart hpair'
      have hlt' := hpair'.lt
      rw [State.ip_next] at hout ⊢
      exact ⟨by omega, .inr ⟨by omega, rfl⟩, hzero, rfl⟩
  | back hip hpair' hne =>
      have hnest := hpair.nested_or_apart hpair'
      have hlt' := hpair'.lt
      rw [State.ip_goTo] at hout
      omega

/-- **From a bracket the body of its loop is begun on a value that is not zero.** -/
theorem Flow.begins (hat : s.ip = i ∨ s.ip = j) (hbody : s'.ip = i + 1) :
    s.current ≠ 0 ∧ s'.cell = s.cell := by
  have hlt := hpair.lt
  cases hflow with
  | stay hend =>
      have := (Program.lt_size_of_partners hpair).2
      omega
  | on hip hop hopen hclose hnext =>
      have hne := ne_of_partners hpair hop hopen hclose
      rcases hat with hat | hat <;> omega
  | enter hip hpair' hne => exact ⟨hne, rfl⟩
  | skip hip hpair' hzero =>
      have hnest := hpair.nested_or_apart hpair'
      have hlt' := hpair'.lt
      rw [State.ip_goTo] at hbody
      omega
  | leave hip hpair' hzero =>
      have hnest := hpair.nested_or_apart hpair'
      have hlt' := hpair'.lt
      rw [State.ip_next] at hbody
      omega
  | back hip hpair' hne => exact ⟨hne, rfl⟩

end Machine

/-! ## Sessions -/

namespace Machine

variable {m : Machine} {s : State} {io : Streams} {i j : Nat}

theorem attempt_crosses (hp : m.program.Paired) (h : s.InRange m) (hpair : m.program.Loop i j)
    (hdone : (m.attempt s io).outcome.fault = none) : (m.attempt s io).Crosses i j := by
  have hflow := attempt_flow hp h hdone
  refine ⟨hflow.enters hpair, ?_, ?_⟩
  · intro hin hout
    obtain ⟨hip, hat, hzero, hsame⟩ := hflow.leaves hpair hin hout
    have hcell : s.cell = .ok 0 := by rw [h.cell_eq, hzero]
    exact ⟨hip, hat, hcell, hsame.trans hcell⟩
  · intro hat hbody
    obtain ⟨hne, hsame⟩ := hflow.begins hpair hat hbody
    exact ⟨s.current, h.cell_eq, hsame.trans h.cell_eq, hne⟩

/-- **Loops are entered at their opening bracket and left on a zero.** Take any pair of brackets of
a loaded program, and any attempt that calls on a fresh interpreter make and that completes. If it
leads into the loop, it leads to the opening bracket. If it leads out of the loop, it leads behind
the closing bracket, one of the two brackets has been executed, and the current cell is zero. And if
it leads from one of the two brackets to the first place of the body, the current cell is not
zero. -/
theorem session_crosses {source : List UInt8} {p : Program} (hload : Program.load source = .ok p)
    (config : Config) {io₀ io : Streams} {log : List Attempt} {s : State}
    (h : Session ⟨p, config⟩ io₀ log s io) {i j : Nat}
    (hopen : p.instructions[i]? = some .loopOpen) (hjump : p.jumps[i]? = some (some j)) :
    ∀ a ∈ log, a.outcome.fault = none → a.Crosses i j := by
  have hp := Program.paired_of_load hload
  have hpair : p.Loop i j := by
    obtain ⟨j', hj', _, hpair⟩ := hp.partner_open hopen
    obtain rfl : j = j' := by simpa [Program.partner, hjump] using hj'
    exact hpair
  intro a ha hdone
  obtain ⟨hs, heq⟩ := (h.thread.inRange hp (inRange_start _)).2 a ha
  rw [heq] at hdone ⊢
  exact attempt_crosses hp hs hpair hdone

/-- The run of `+[-]`, which makes every turn of its loop once. -/
theorem session_crosses_countdown :
    let m : Machine :=
      ⟨⟨[0x2B, 0x5B, 0x2D, 0x5D], #[.increment, .loopOpen, .decrement, .loopClose], #[0, 1, 2, 3],
        #[none, some 3, none, some 1]⟩, { tapeLength := 2 }⟩
    ∃ log s io, Program.load [0x2B, 0x5B, 0x2D, 0x5D] = .ok m.program ∧ m.Session {} log s io ∧
      log.map (·.outcome.fault) = [none, none, none, none] ∧ log.map (·.outcome.state.ip) =
        [1, 2, 3, 4] ∧
      ∀ a ∈ log, a.outcome.fault = none → a.Crosses 1 3 := by
  intro m
  have hload : Program.load [0x2B, 0x5B, 0x2D, 0x5D] = .ok m.program := by decide
  have hstart : m.Session {} [] m.start {} := .start
  have hsession := hstart.call (show m.call 4 (.run none) m.start {} = some _ from rfl)
  exact ⟨_, _, _, hload, hsession, rfl, rfl, session_crosses hload m.config hsession rfl rfl⟩

end Machine

end TapeLang
