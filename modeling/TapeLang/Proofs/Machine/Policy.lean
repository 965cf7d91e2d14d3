import TapeLang.Machine.Attempt
import TapeLang.Proofs.Machine.Effect
import TapeLang.Proofs.Machine.Reachable

/-!
# A check that is never tripped can be dropped

* `Axis` — the three things that a policy is about; `Config.Replaces`, `Config.Unchecks` — the modes
  in which two configurations differ, and that all these were checks.
* `Fault.Trips` — a fault of an axis whose mode was replaced.
* `shift_replaced` — inside its range a number is moved in every mode alike.
* `move_unchecked`, `adjust_unchecked`, `read_unchecked`, `step_unchecked` — a step that trips none
  of the replaced checks is the same step without them.
* `trail_of_unchecks`, `advance_of_unchecks`, `run_of_unchecks` — and so is a whole run;
  `unchecked_agrees` — all together.
-/

namespace TapeLang

/-- What a policy is about. -/
inductive Axis
  | cell | pointer | input
  deriving DecidableEq, Repr

def ExecutionError.Cause.axis? : ExecutionError.Cause → Option Axis
  | .arithmeticOverflow _ => some .cell
  | .arithmeticUnderflow _ => some .cell
  | .pointerOverflow _ => some .pointer
  | .pointerUnderflow => some .pointer
  | .endOfInput => some .input
  | .stepLimit _ => none
  | .io _ => none

/-- The mode of the axis is another in `c'` than in `c`. -/
def Config.Replaces (c c' : Config) : Axis → Prop
  | .cell => c'.cellOverflow ≠ c.cellOverflow
  | .pointer => c'.pointerOverflow ≠ c.pointerOverflow
  | .input => c'.eof ≠ c.eof

def Config.Checks (c : Config) : Axis → Prop
  | .cell => c.cellOverflow = .check
  | .pointer => c.pointerOverflow = .check
  | .input => c.eof = .check

/-- **`c'` is `c` with some of its checks replaced** by other modes. -/
structure Config.Unchecks (c c' : Config) : Prop where
  tapeLength : c'.tapeLength = c.tapeLength
  cellWidth : c'.cellWidth = c.cellWidth
  checks : ∀ x, c.Replaces c' x → c.Checks x

/-- The fault is an error of an axis whose mode was replaced. -/
def Fault.Trips (c c' : Config) (f : Fault) : Prop :=
  ∃ e x, f = .execution e ∧ e.cause.axis? = some x ∧ c.Replaces c' x

theorem shift_replaced {value delta bound : Int} {mode mode' : Overflow}
    (h : mode' ≠ mode → mode = .check ∧ ∃ w, shift value delta bound mode = .ok w) :
    shift value delta bound mode' = shift value delta bound mode := by
  by_cases hm : mode' = mode
  · rw [hm]
  · obtain ⟨rfl, w, hw⟩ := h hm
    by_cases hr : 0 ≤ value + delta ∧ value + delta < bound
    · rw [shift_of_mem _ hr.1 hr.2, shift_of_mem _ hr.1 hr.2]
    · rw [shift_check hr] at hw
      cases hw

namespace Machine

variable {p : Program} {c c' : Config} {s : State} {io : Streams}

theorem start_unchecked (h : c.Unchecks c') : start ⟨p, c'⟩ = start ⟨p, c⟩ := by
  simp only [start, h.tapeLength, h.cellWidth]

theorem error_trips {cause : ExecutionError.Cause} (x : Axis) (hx : cause.axis? = some x)
    (hr : c.Replaces c' x) :
    (error s cause).Trips c c' :=
  ⟨_, x, rfl, hx, hr⟩

/-! ## One step -/

theorem move_unchecked (h : c.Unchecks c') (d : Direction)
    (hf : ∀ f, (move ⟨p, c⟩ d s io).fault = some f → ¬f.Trips c c') :
    move ⟨p, c'⟩ d s io = move ⟨p, c⟩ d s io := by
  have hshift : shift s.dp d.delta c.tapeLength c'.pointerOverflow =
      shift s.dp d.delta c.tapeLength c.pointerOverflow := by
    refine shift_replaced fun hr => ⟨h.checks .pointer hr, ?_⟩
    cases hs : shift s.dp d.delta c.tapeLength c.pointerOverflow with
    | ok dp => exact ⟨dp, rfl⟩
    | error e =>
        rw [move_eq] at hf
        simp only [hs] at hf
        exact absurd (error_trips .pointer (by cases d <;> rfl) hr) (hf _ rfl)
  simp only [move, h.tapeLength, hshift]

theorem adjust_unchecked (h : c.Unchecks c') (d : Direction)
    (hf : ∀ f, (adjust ⟨p, c⟩ d s io).fault = some f → ¬f.Trips c c') :
    adjust ⟨p, c'⟩ d s io = adjust ⟨p, c⟩ d s io := by
  have hmodulus : c'.cellModulus = c.cellModulus := by
    rw [Config.cellModulus, h.cellWidth, Config.cellModulus]
  unfold adjust at hf ⊢
  cases hp : s.tape.locate .get s.dp with
  | error e => rfl
  | ok place =>
      simp only [hp] at hf
      have hshift : shift (s.tape.load place) d.delta c'.cellModulus c'.cellOverflow =
          shift (s.tape.load place) d.delta c.cellModulus c.cellOverflow := by
        rw [hmodulus]
        refine shift_replaced fun hr => ⟨h.checks .cell hr, ?_⟩
        cases hs : shift (s.tape.load place) d.delta c.cellModulus c.cellOverflow with
        | ok v => exact ⟨v, rfl⟩
        | error e =>
            obtain ⟨rfl, _⟩ := (shift_eq_error_iff (Int.natCast_pos.mpr c.cellModulus_pos)).mp hs
            simp only [hs] at hf
            exact absurd (error_trips .cell (by cases d <;> rfl) hr) (hf _ rfl)
      simp only [hshift]

theorem readNothing_unchecked (h : c.Unchecks c')
    (hf : ∀ f, (readNothing ⟨p, c⟩ s io).fault = some f → ¬f.Trips c c') :
    readNothing ⟨p, c'⟩ s io = readNothing ⟨p, c⟩ s io := by
  by_cases hr : c'.eof = c.eof
  · simp only [readNothing, hr]
  · have hcheck : c.eof = .check := h.checks .input hr
    simp only [readNothing, hcheck] at hf
    exact absurd (error_trips .input rfl hr) (hf _ rfl)

theorem readByte_unchecked (h : c.Unchecks c') (b : UInt8) :
    readByte ⟨p, c'⟩ b s io = readByte ⟨p, c⟩ b s io := by
  simp only [readByte, Config.cellModulus, h.cellWidth]

theorem read_unchecked (h : c.Unchecks c')
    (hf : ∀ f, (read ⟨p, c⟩ s io).fault = some f → ¬f.Trips c c') :
    read ⟨p, c'⟩ s io = read ⟨p, c⟩ s io := by
  unfold read at hf ⊢
  split
  · rename_i heof
    rw [if_pos heof] at hf
    exact readNothing_unchecked h hf
  · rename_i heof
    rw [if_neg heof] at hf
    rcases hnext : io.input.next with ⟨_ | ⟨b, rest⟩⟩ | _ | g
    · rw [hnext] at hf
      exact readNothing_unchecked h hf
    · exact readByte_unchecked h b
    · rw [hnext] at hf
      exact readNothing_unchecked h hf
    · rfl

theorem perform_unchecked (h : c.Unchecks c') (i : Nat) (op : Instruction)
    (hf : ∀ f, (perform ⟨p, c⟩ i op s io).fault = some f → ¬f.Trips c c') :
    perform ⟨p, c'⟩ i op s io = perform ⟨p, c⟩ i op s io := by
  cases op with
  | moveRight => exact move_unchecked h .up hf
  | moveLeft => exact move_unchecked h .down hf
  | increment => exact adjust_unchecked h .up hf
  | decrement => exact adjust_unchecked h .down hf
  | write => rfl
  | read => exact read_unchecked h hf
  | loopOpen => rfl
  | loopClose => rfl

/-- **A step that trips none of the replaced checks is the same without them.** -/
theorem step_unchecked (h : c.Unchecks c')
    (hf : ∀ f, (step ⟨p, c⟩ s io).fault = some f → ¬f.Trips c c') :
    step ⟨p, c'⟩ s io = step ⟨p, c⟩ s io := by
  have hfinished : finished ⟨p, c'⟩ s = finished ⟨p, c⟩ s := rfl
  unfold step at hf ⊢
  rw [hfinished]
  split
  · rfl
  · rename_i hrun
    rw [if_neg hrun] at hf
    cases hs : p.slot s.ip with
    | error f => rfl
    | ok i =>
        simp only [hs] at hf ⊢
        exact perform_unchecked h i _ hf

/-! ## Whole runs -/

theorem trail_of_unchecks (h : c.Unchecks c') (n : Nat) (s : State) (io : Streams)
    (hf : ∀ a ∈ (trail ⟨p, c⟩ n s io).attempts, ∀ f, a.outcome.fault = some f → ¬f.Trips c c') :
    trail ⟨p, c'⟩ n s io = trail ⟨p, c⟩ n s io := by
  induction n generalizing s io with
  | zero => rfl
  | succ n ih =>
      obtain ⟨hfirst, hlater⟩ := List.forall_mem_cons.mp hf
      have hstep : step ⟨p, c'⟩ s io = step ⟨p, c⟩ s io := step_unchecked h hfirst
      have hattempt : attempt ⟨p, c'⟩ s io = attempt ⟨p, c⟩ s io := by
        rw [attempt, hstep]
        rfl
      rw [trail, trail, hattempt, ih _ _ hlater]

theorem advance_of_unchecks (h : c.Unchecks c') (n : Nat) (s : State) (io : Streams)
    (hf : ∀ f, (advance ⟨p, c⟩ n s io).stop = .failed f → ¬f.Trips c c') :
    advance ⟨p, c'⟩ n s io = advance ⟨p, c⟩ n s io := by
  induction n generalizing s io with
  | zero => rfl
  | succ n ih =>
      cases hfin : finished ⟨p, c⟩ s with
      | true =>
          have hfin' : finished ⟨p, c'⟩ s = true := hfin
          rw [advance_finished _ hfin', advance_finished _ hfin]
      | false =>
          have hfin' : finished ⟨p, c'⟩ s = false := hfin
          cases hs : step ⟨p, c⟩ s io with
          | mk fault s₁ io₁ =>
              cases fault with
              | none =>
                  have hs' : step ⟨p, c'⟩ s io = .done s₁ io₁ :=
                    (step_unchecked h (by rw [hs]; exact nofun)).trans hs
                  rw [advance_done n hfin hs] at hf
                  rw [advance_done n hfin' hs', advance_done n hfin hs, ih _ _ hf]
              | some f =>
                  rw [advance_fail n hfin hs] at hf
                  have hs' : step ⟨p, c'⟩ s io = .fail f s₁ io₁ := by
                    refine (step_unchecked h fun g hg => ?_).trans hs
                    rw [hs] at hg
                    exact hf g (congrArg Stop.failed (Option.some.inj hg))
                  rw [advance_fail n hfin' hs', advance_fail n hfin hs]

/-- A run that succeeds under checks succeeds in the same way without them. -/
theorem run_of_unchecks (h : c.Unchecks c') {fuel : Nat} {limit : Option Int} {halt : Halt}
    (hr : run ⟨p, c⟩ fuel limit s io = some halt) (hstop : halt.stop = .finished) :
    run ⟨p, c'⟩ fuel limit s io = some halt := by
  cases limit with
  | none =>
      obtain ⟨rfl, hne⟩ := runFor_eq_some_iff.mp hr
      have hadvance := advance_of_unchecks h fuel s io fun f hf => nomatch hstop.symm.trans hf
      exact runFor_eq_some_iff.mpr ⟨hadvance, hne⟩
  | some k =>
      obtain rfl := Option.some.inj hr
      rw [runUpTo_eq] at hstop
      simp only at hstop
      split at hstop
      · cases hstop
      · have hadvance := advance_of_unchecks h _ s io fun f hf => nomatch hstop.symm.trans hf
        refine congrArg some ?_
        rw [runUpTo_eq, runUpTo_eq, hadvance]

/-- **A run that never trips a check does not depend on the policy.** Let any of the checks of a
configuration be replaced by other modes. If none of the first `n` attempts raises an error of a
replaced axis, they are the same attempts without those checks: each finds and leaves the same state
and the same streams, and raises the same. So a program that succeeds with all three checks succeeds
in every mode, with the same state and the same output. -/
theorem unchecked_agrees (p : Program) (c : Config) (io : Streams) :
    (∀ c', c.Unchecks c' → ∀ n,
      (∀ a ∈ (trail ⟨p, c⟩ n (start ⟨p, c⟩) io).attempts, ∀ f, a.outcome.fault = some f →
        ¬f.Trips c c') →
        trail ⟨p, c'⟩ n (start ⟨p, c'⟩) io = trail ⟨p, c⟩ n (start ⟨p, c⟩) io) ∧
      ((∀ x, c.Checks x) → ∀ cellOverflow pointerOverflow eof,
        let m : Machine := ⟨p, { c with cellOverflow, pointerOverflow, eof }⟩
        ∀ fuel limit halt, run ⟨p, c⟩ fuel limit (start ⟨p, c⟩) io = some halt →
          halt.stop = .finished →
          m.run fuel limit m.start io = some halt) := by
  refine ⟨?_, ?_⟩
  · intro c' h n hf
    rw [start_unchecked h]
    exact trail_of_unchecks h n _ io hf
  · intro hchecks cellOverflow pointerOverflow eof m fuel limit halt hr hstop
    have h : c.Unchecks m.config := ⟨rfl, rfl, fun x _ => hchecks x⟩
    have hstart : m.start = start ⟨p, c⟩ := start_unchecked h
    rw [hstart]
    exact run_of_unchecks h hr hstop

/-- A move beyond the start is refused again and again, also when the other two checks are replaced;
and a program that adds and reads succeeds in other modes as it does under checks. -/
theorem unchecked_agrees_refused_move :
    let c : Config :=
      { cellOverflow := .check, pointerOverflow := .check, eof := .check, tapeLength := 2 }
    let c' : Config :=
      { cellOverflow := .wrap, pointerOverflow := .check, eof := .zero, tapeLength := 2 }
    let p : Program := ⟨[0x2B, 0x3C], #[.increment, .moveLeft], #[0, 1], #[none, none]⟩
    let q : Program := ⟨[0x2B, 0x2C], #[.increment, .read], #[0, 1], #[none, none]⟩
    let refused : Fault := .execution ⟨.pointerUnderflow, 1, 0⟩
    (trail ⟨p, c⟩ 3 (start ⟨p, c⟩) {}).faults = [none, some refused, some refused] ∧
      trail ⟨p, c'⟩ 3 (start ⟨p, c'⟩) {} = trail ⟨p, c⟩ 3 (start ⟨p, c⟩) {} ∧
      ∃ halt, run ⟨q, c⟩ 2 none (start ⟨q, c⟩) ⟨.ofBytes [0x41], {}⟩ = some halt ∧
        halt.stop = .finished ∧
        run ⟨q, c'⟩ 2 none (start ⟨q, c'⟩) ⟨.ofBytes [0x41], {}⟩ = some halt := by
  intro c c' p q refused
  have hfaults : (trail ⟨p, c⟩ 3 (start ⟨p, c⟩) {}).faults =
    [none, some refused, some refused] := rfl
  have hunchecks : c.Unchecks c' := by
    refine ⟨rfl, rfl, ?_⟩
    rintro (_ | _ | _) _ <;> rfl
  have hspared : ∀ a ∈ (trail ⟨p, c⟩ 3 (start ⟨p, c⟩) {}).attempts, ∀ f, a.outcome.fault = some f →
    ¬f.Trips c c' := by
    rintro a ha f hf ⟨e, x, rfl, hx, hr⟩
    have hmem : some (.execution e) ∈ [none, some refused, some refused] := by
      rw [← hfaults, ← hf]
      exact List.mem_map_of_mem ha
    obtain rfl : e = ⟨.pointerUnderflow, 1, 0⟩ := by simpa [refused] using hmem
    cases hx
    exact hr rfl
  refine ⟨hfaults, (unchecked_agrees p c {}).1 c' hunchecks 3 hspared, _, rfl, rfl, ?_⟩
  exact (unchecked_agrees q c _).2
    (by rintro (_ | _ | _) <;> rfl) .wrap .check .zero 2 none _ rfl rfl

end Machine

end TapeLang
