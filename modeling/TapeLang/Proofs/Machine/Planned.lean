import TapeLang.Proofs.Machine.Runs

/-!
# Runs on an output whose write calls raise

What a run comes to on an output that takes every byte tells what it comes to on one that does not.

* `Streams.under` — the streams with a plan of faults for the output; `Output.Plain` — an output
  that has no such plan, and has stored a byte for each call.
* `PlansNone`, `Refused` — the two ways in which a plan meets the next write calls: it raises nothing
  in them, or it raises in the first.
* `Exchange.under`, `step_under` — one exchange and one step: they are the same under the plan, or a
  write call raises what is planned.
* `Halt.StoppedAt`, `Runs.under` — by induction on the run: it is the same as long as the plan
  raises nothing, and otherwise the first fault of the plan stops it, with all that came before
  written.
-/

namespace TapeLang

/-- The streams with a plan of faults for the write calls. -/
def Streams.under (io : Streams) (plan : Nat → Option StreamFault) : Streams :=
  ⟨io.input, { io.output with plan }⟩

/-- **An output that takes every byte**, and has stored one for each call. -/
structure Output.Plain (output : Output) : Prop where
  plan : ∀ j, output.plan j = none
  writes : output.writes = output.bytes.size

theorem Output.plain_empty : Output.Plain {} :=
  ⟨fun _ => rfl, rfl⟩

variable {plan : Nat → Option StreamFault} {first next last : Nat} {io io' io₁ : Streams}
  {g : StreamFault}

/-- No fault is planned for the write calls from `first` up to `last`. -/
def PlansNone (plan : Nat → Option StreamFault) (first last : Nat) : Prop :=
  ∀ j, first ≤ j → j < last → plan j = none

theorem plansNone_self (plan : Nat → Option StreamFault) (first : Nat) :
    PlansNone plan first first :=
  fun _ hj hlt => absurd hlt (Nat.not_lt_of_le hj)

theorem PlansNone.trans (h : PlansNone plan first next) (h' : PlansNone plan next last) :
    PlansNone plan first last := by
  intro j hj hlt
  by_cases hnext : j < next
  · exact h j hj hnext
  · exact h' j (Nat.le_of_not_lt hnext) hlt

/-- **Streams behind a write call that raises what is planned**, where `io'` are the streams that it
would have led to. -/
structure Refused (plan : Nat → Option StreamFault) (g : StreamFault) (io io' io₁ : Streams) :
    Prop where
  planned : plan io.output.bytes.size = some g
  bytes : io₁.output.bytes = io.output.bytes
  input : io₁.input = io.input
  lt : io.output.bytes.size < io'.output.bytes.size

namespace Exchange

theorem plain (e : Exchange) (hio : io.output.Plain) : (e.streams io).output.Plain := by
  cases e with
  | silent => exact hio
  | read => exact hio
  | write b =>
      rw [streams, Output.next, hio.plan]
      exact ⟨hio.plan, by simp [Output.accept, hio.writes]⟩

/-- **One exchange**: under the plan it raises what is planned for the byte that it writes, or it is
the same. -/
theorem under (e : Exchange) (hio : io.output.Plain) (plan : Nat → Option StreamFault) :
    (∃ g, e.response (io.under plan) = .error g ∧
      Refused plan g io (e.streams io) (e.streams (io.under plan))) ∨
    e.response (io.under plan) = e.response io ∧
      e.streams (io.under plan) = (e.streams io).under plan ∧
      PlansNone plan io.output.bytes.size (e.streams io).output.bytes.size := by
  cases e with
  | silent => exact .inr ⟨rfl, rfl, plansNone_self _ _⟩
  | read => exact .inr ⟨rfl, rfl, plansNone_self _ _⟩
  | write b =>
      have hnext : io.output.next = none := hio.plan _
      have hplan : (io.under plan).output.next = plan io.output.bytes.size :=
        congrArg plan hio.writes
      have hsize : (streams (.write b) io).output.bytes.size = io.output.bytes.size + 1 := by
        simp [streams, hnext, Output.accept]
      cases hg : plan io.output.bytes.size with
      | some g =>
          rw [hg] at hplan
          refine .inl ⟨g, by simp only [response, hplan], hg, ?_, ?_, by omega⟩
          · simp only [streams, hplan]
            rfl
          · simp only [streams, hplan]
            rfl
      | none =>
          rw [hg] at hplan
          refine .inr ⟨by simp only [response, hplan, hnext], ?_, ?_⟩
          · simp only [streams, hplan, hnext]
            rfl
          · intro j hj hlt
            obtain rfl : j = io.output.bytes.size := by omega
            exact hg

end Exchange

/-- **What a run comes to when write call `k` raises**, where `h` is what the same run comes to if
no call raises: it has written what comes before. -/
structure Halt.StoppedAt (plan : Nat → Option StreamFault) (first k : Nat) (h h' : Halt) :
    Prop where
  lt : k < h.streams.output.bytes.size
  before : PlansNone plan first k
  stop : ∃ g, plan k = some g ∧ h'.stop = .failed (Machine.streamFault h'.state g)
  bytes : h'.streams.output.bytes.toList = h.streams.output.bytes.toList.take k
  reads : h'.streams.input.reads ≤ h.streams.input.reads

namespace Machine

variable {m : Machine} {limit : Option Int} {s s' : State} {f : Option Fault}
  {h : Halt}

/-- **One step**: under the plan it fails with what is planned for the byte that it writes, or it is
the same. -/
theorem step_under (hio : io.output.Plain) (hs : m.step s io = ⟨f, s', io'⟩)
    (plan : Nat → Option StreamFault) :
    (∃ g io₁, m.step s (io.under plan) = .fail (streamFault s g) s io₁ ∧
      Refused plan g io io' io₁) ∨
    m.step s (io.under plan) = ⟨f, s', io'.under plan⟩ ∧
      PlansNone plan io.output.bytes.size io'.output.bytes.size := by
  obtain ⟨fault, state, _, hstep⟩ := m.step_governed s
  have hstreams : (m.exchange s).streams io = io' := by rw [← step_streams, hs]
  rcases (m.exchange s).under hio plan with ⟨g, hraises, hrefused⟩ | ⟨hanswer, hsame, hnone⟩
  · exact .inl ⟨g, _, by rw [hstep, hraises], hstreams ▸ hrefused⟩
  · refine .inr ⟨?_, hstreams ▸ hnone⟩
    rw [hstep] at hs ⊢
    rw [hanswer, hsame]
    cases hr : (m.exchange s).response io with
    | error g =>
        rw [hr] at hs
        cases hs
        rfl
    | ok b =>
        rw [hr] at hs
        cases hs
        rfl

theorem bytes_step (hs : m.step s io = ⟨f, s', io'⟩) :
    io.output.bytes.toList <+: io'.output.bytes.toList := by
  obtain rfl : (m.exchange s).streams io = io' := by rw [← step_streams, hs]
  cases m.exchange s with
  | silent => exact List.prefix_rfl
  | read => exact List.prefix_rfl
  | write b =>
      cases hw : io.output.next <;> simp [Exchange.streams, hw, Output.accept, Output.reject]

theorem Runs.bytes (hr : m.Runs limit s io h) :
    io.output.bytes.toList <+: h.streams.output.bytes.toList := by
  induction hr with
  | finished _ => exact List.prefix_rfl
  | limited _ _ _ => exact List.prefix_rfl
  | failed _ _ hs => exact bytes_step hs
  | step _ _ hs _ ih => exact (bytes_step hs).trans ih

theorem Runs.stoppedAt (hr : m.Runs limit s io h) (hrefused : Refused plan g io h.streams io₁) :
    h.StoppedAt plan io.output.bytes.size io.output.bytes.size
      ⟨.failed (streamFault s g), s, io₁⟩ := by
  refine ⟨hrefused.lt, plansNone_self _ _, ⟨g, hrefused.planned, rfl⟩, ?_, ?_⟩
  · rw [hrefused.bytes, ← Array.length_toList]
    exact List.prefix_iff_eq_take.mp hr.bytes
  · rw [hrefused.input]
    exact hr.reads_le

/-- **A run under a plan**: if the plan raises nothing in the calls that the run makes, it is the
same run. Otherwise the first fault of the plan stops it. -/
theorem Runs.under (hr : m.Runs limit s io h) (hio : io.output.Plain)
    (plan : Nat → Option StreamFault) :
    (PlansNone plan io.output.bytes.size h.streams.output.bytes.size ∧
      m.Runs limit s (io.under plan) ⟨h.stop, h.state, h.streams.under plan⟩) ∨
    ∃ k h', m.Runs limit s (io.under plan) h' ∧ h.StoppedAt plan io.output.bytes.size k h' := by
  induction hr with
  | finished hf => exact .inl ⟨plansNone_self _ _, .finished hf⟩
  | limited hf hlimit hk => exact .inl ⟨plansNone_self _ _, .limited hf hlimit hk⟩
  | failed hf hlimit hs =>
      rcases step_under hio hs plan with ⟨g, io₁, hfail, hrefused⟩ | ⟨hsame, hnone⟩
      · have hstopped := Runs.stoppedAt (.failed hf hlimit hs) hrefused
        exact .inr ⟨_, _, .failed hf hlimit hfail, hstopped⟩
      · exact .inl ⟨hnone, .failed hf hlimit hsame⟩
  | @step s s' io io' h hf hlimit hs hrest ih =>
      have hplain : io'.output.Plain := by
        have := (m.exchange s).plain hio
        rwa [← step_streams, hs] at this
      rcases step_under hio hs plan with ⟨g, io₁, hfail, hrefused⟩ | ⟨hsame, hnone⟩
      · -- What the step would have written, the run would have written too.
        have hlater := Nat.lt_of_lt_of_le hrefused.lt hrest.bytes.length_le
        have hstopped := Runs.stoppedAt (.step hf hlimit hs hrest) { hrefused with lt := hlater }
        exact .inr ⟨_, _, .failed hf hlimit hfail, hstopped⟩
      · rcases ih hplain with ⟨hnone', hrun⟩ | ⟨k, h', hrun, hstopped⟩
        · exact .inl ⟨hnone.trans hnone', .step hf hlimit hsame hrun⟩
        · have hbefore := hnone.trans hstopped.before
          exact .inr ⟨k, h', .step hf hlimit hsame hrun, { hstopped with before := hbefore }⟩

end Machine

end TapeLang
