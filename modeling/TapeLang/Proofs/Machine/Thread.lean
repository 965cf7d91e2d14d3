import TapeLang.Machine.Attempt
import TapeLang.Proofs.Machine.Safety
import TapeLang.Proofs.Machine.Exchange

/-!
# Attempts in a row

The attempts of one machine hang together by its states, those on one pair of streams by the
streams. When several machines share their streams, each has a thread of its own, and all attempts
together are one link after the other.

* `Thread` — attempts of one machine; `Linked` — attempts on one pair of streams.
* `trail_thread`, `trail_linked`, `Session.trail_eq` — attempts that follow each other at once are
  both, and those of a session follow each other at once. `reachable_iff_session` — every reachable
  state has a session.
* `reading?_attempt`, `writing?_attempt` — what an attempt has got from the streams is what its
  exchange asks for.
* `Thread.alone` — a thread is made by what the streams have brought to it: alone on streams that
  bring the same, the machine makes the same attempts.
* `attempt_eq`, `Thread.inRange` — the attempts of a loaded program that are begun in range are all
  made in range.
-/

namespace TapeLang

/-- **Attempts of one machine**, from state `s` to state `s'`. What happens to the streams in
between is left open. -/
inductive Thread (m : Machine) : State → List Attempt → State → Prop
  | nil {s : State} : Thread m s [] s
  | cons {s s' : State} {io : Streams} {log : List Attempt} :
      Thread m (m.step s io).state log s' → Thread m s (m.attempt s io :: log) s'

/-- **Attempts on one pair of streams**, whichever machines make them. -/
inductive Linked : Streams → List Attempt → Streams → Prop
  | nil {io : Streams} : Linked io [] io
  | cons {a : Attempt} {log : List Attempt} {io : Streams} :
      Linked a.outcome.streams log io → Linked a.streams (a :: log) io

namespace Machine

variable {m : Machine} {s s' : State} {io io₀ : Streams}

/-! ## Trails and sessions -/

theorem trail_thread (m : Machine) (n : Nat) (s : State) (io : Streams) :
    Thread m s (m.trail n s io).attempts (m.trail n s io).state := by
  induction n generalizing s io with
  | zero => exact .nil
  | succ n ih => exact .cons (ih _ _)

theorem trail_linked (m : Machine) (n : Nat) (s : State) (io : Streams) :
    Linked io (m.trail n s io).attempts (m.trail n s io).streams := by
  induction n generalizing s io with
  | zero => exact .nil
  | succ n ih => exact .cons (a := m.attempt s io) (ih _ _)

theorem trail_add (m : Machine) (n k : Nat) (s : State) (io : Streams) :
    m.trail (n + k) s io =
      let first := m.trail n s io
      let later := m.trail k first.state first.streams
      { later with attempts := first.attempts ++ later.attempts } := by
  induction n generalizing s io with
  | zero => simp [trail]
  | succ n ih =>
      rw [Nat.succ_add]
      simp only [trail, ih, List.cons_append]

theorem trail_advanceAttempts (n : Nat) (s : State) (io : Streams) :
    m.trail (m.advanceAttempts n s io).length s io =
      ⟨m.advanceAttempts n s io, (m.advance n s io).state, (m.advance n s io).streams⟩ := by
  induction n generalizing s io with
  | zero => rfl
  | succ n ih =>
      unfold advanceAttempts advance
      split
      · rfl
      · simp only [attempt]
        cases hstep : m.step s io with
        | mk fault s₁ io₁ =>
            cases fault with
            | none => simp only [List.length_cons, trail, attempt, hstep, ih]
            | some f => simp only [List.length_cons, List.length_nil, trail, attempt, hstep]

theorem trail_runAttempts {fuel : Nat} {limit : Option Int} {h : Halt}
    (hr : m.run fuel limit s io = some h) :
    m.trail (m.runAttempts fuel limit s io).length s io = ⟨m.runAttempts fuel limit s io, h.state,
      h.streams⟩ := by
  cases limit with
  | none =>
      obtain ⟨rfl, _⟩ := runFor_eq_some_iff.mp hr
      exact trail_advanceAttempts fuel s io
  | some k =>
      obtain rfl := Option.some.inj hr
      rw [runUpTo_eq]
      exact trail_advanceAttempts _ s io

theorem trail_callAttempts {fuel : Nat} {c : Call} {a : Answer} (hc : m.call fuel c s io = some a) :
    m.trail (m.callAttempts fuel c s io).length s io = ⟨m.callAttempts fuel c s io, a.state,
      a.streams⟩ := by
  cases c with
  | step =>
      obtain rfl := Option.some.inj hc
      unfold stepAnswer
      split <;> rfl
  | run limit =>
      obtain ⟨h, hr, rfl⟩ := Option.map_eq_some_iff.mp hc
      exact trail_runAttempts hr
  | execute limit =>
      obtain ⟨h, hr, rfl⟩ := Option.map_eq_some_iff.mp hc
      exact trail_runAttempts hr

/-- **The attempts of a session follow each other at once.** -/
theorem Session.trail_eq {log : List Attempt} (h : m.Session io₀ log s io) :
    m.trail log.length m.start io₀ = ⟨log, s, io⟩ := by
  induction h with
  | start => rfl
  | call _ hc ih =>
      rw [List.length_append, trail_add]
      simp only [ih, trail_callAttempts hc]

theorem Session.thread {log : List Attempt} (h : m.Session io₀ log s io) :
    Thread m m.start log s := by
  have hthread := trail_thread m log.length m.start io₀
  rwa [h.trail_eq] at hthread

theorem Session.linked {log : List Attempt} (h : m.Session io₀ log s io) : Linked io₀ log io := by
  have hlinked := trail_linked m log.length m.start io₀
  rwa [h.trail_eq] at hlinked

/-- Whatever calls lead to, they lead to by some attempts. -/
theorem reachable_iff_session : m.Reachable io₀ s io ↔ ∃ log, m.Session io₀ log s io := by
  constructor
  · intro h
    induction h with
    | start => exact ⟨[], .start⟩
    | call _ hc ih => exact ih.imp' _ fun _ hlog => .call hlog hc
  · rintro ⟨log, h⟩
    induction h with
    | start => exact .start
    | call _ hc ih => exact .call ih hc

/-! ## What an attempt gets from the streams -/

theorem step_streams (m : Machine) (s : State) (io : Streams) :
    (m.step s io).streams = (m.exchange s).streams io := by
  obtain ⟨_, _, _, hstep⟩ := m.step_governed s
  rw [hstep]
  cases (m.exchange s).response io <;> rfl

theorem reading?_attempt (m : Machine) (s : State) (io : Streams) :
    (m.attempt s io).reading? = if m.exchange s = .read then some io.input.next else none := by
  simp only [Attempt.reading?, attempt, step_streams]
  cases m.exchange s with
  | silent => simp [Exchange.streams]
  | read => simp [Exchange.streams, Input.advance]
  | write b => cases hnext : io.output.next <;> simp [Exchange.streams, hnext]

theorem writing?_attempt (m : Machine) (s : State) (io : Streams) :
    (m.attempt s io).writing? =
      match m.exchange s with
      | .write _ => some io.output.next
      | _ => none := by
  simp only [Attempt.writing?, attempt, step_streams]
  cases m.exchange s with
  | silent => simp [Exchange.streams]
  | read => simp [Exchange.streams]
  | write b =>
      cases hnext : io.output.next <;>
        simp [Exchange.streams, hnext, Output.accept, Output.reject]

end Machine

/-! ## A machine alone -/

/-- **Streams that bring this**: the next reads bring `readings`, and the next writes raise what
`writings` tells. -/
structure Streams.Brings (io : Streams) (readings : List Reading)
    (writings : List (Option StreamFault)) : Prop where
  input : readings <+: io.input.pending
  output : ∀ j w, writings[j]? = some w → io.output.plan (io.output.writes + j) = w

theorem Streams.Brings.response {io io' : Streams} {m : Machine} {s : State}
    {readings : List Reading} {writings : List (Option StreamFault)}
    (h : io'.Brings ((m.attempt s io).reading?.toList ++ readings)
      ((m.attempt s io).writing?.toList ++ writings)) :
    (m.exchange s).response io' = (m.exchange s).response io ∧
      ((m.exchange s).streams io').Brings readings writings := by
  rw [Machine.reading?_attempt, Machine.writing?_attempt] at h
  obtain ⟨hin, hout⟩ := h
  cases he : m.exchange s with
  | silent =>
      rw [he] at hin hout
      exact ⟨rfl, by simpa [Exchange.streams] using hin, by simpa [Exchange.streams] using hout⟩
  | read =>
      rw [he] at hin hout
      obtain ⟨rest, hrest⟩ := hin
      have hnext : io'.input.next = io.input.next := by simp [Input.next, ← hrest]
      refine ⟨by simp only [Exchange.response, hnext], ⟨rest, ?_⟩,
        by simpa [Exchange.streams] using hout⟩
      simp [Exchange.streams, Input.advance, ← hrest]
  | write b =>
      rw [he] at hin hout
      have hnext : io'.output.next = io.output.next := hout 0 _ rfl
      refine ⟨by simp only [Exchange.response, hnext], ?_, ?_⟩
      · cases hw : io'.output.next <;> simpa [Exchange.streams, hw] using hin
      · intro j w hj
        have hlater := hout (j + 1) w (by simpa using hj)
        cases hw : io'.output.next <;>
          simpa [Exchange.streams, hw, Output.accept, Output.reject, Nat.add_assoc,
            Nat.add_comm 1 j] using hlater

/-- **Alone on streams that bring the same, a machine makes the same attempts**: it comes to the
same state, and the same is raised on the way. -/
theorem Thread.alone {m : Machine} {s s' : State} {log : List Attempt} (h : Thread m s log s')
    {io : Streams}
    (hio : io.Brings (log.filterMap Attempt.reading?) (log.filterMap Attempt.writing?)) :
    (m.trail log.length s io).state = s' ∧
      (m.trail log.length s io).faults = log.map (·.outcome.fault) := by
  induction h generalizing io with
  | nil => exact ⟨rfl, rfl⟩
  | @cons s s' io₁ log _ ih =>
      have hbrings : io.Brings ((m.attempt s io₁).reading?.toList ++ log.filterMap Attempt.reading?)
          ((m.attempt s io₁).writing?.toList ++ log.filterMap Attempt.writing?) := by
        simpa only [List.filterMap_eq_flatMap_toList, List.flatMap_cons] using hio
      -- The streams enter a step by their response alone, and that is the same on both sides.
      obtain ⟨hresponse, hrest⟩ := hbrings.response
      obtain ⟨fault, state, _, hstep⟩ := m.step_governed s
      have hstate : (m.step s io).state = (m.step s io₁).state := by
        rw [hstep, hstep, hresponse]
        cases (m.exchange s).response io₁ <;> rfl
      have hfault : (m.step s io).fault = (m.step s io₁).fault := by
        rw [hstep, hstep, hresponse]
        cases (m.exchange s).response io₁ <;> rfl
      rw [← Machine.step_streams] at hrest
      obtain ⟨hend, hfaults⟩ := ih hrest
      rw [← hstate] at hend hfaults
      refine ⟨hend, ?_⟩
      simp only [List.map_cons]
      exact congrArg₂ List.cons hfault hfaults

/-! ## Attempts in range -/

namespace Machine

open State (InRange)

variable {m : Machine} {s s' : State}

/-- What an attempt in range is: nothing when the program has ended, and else the instruction at the
pointer. -/
theorem attempt_eq (h : s.InRange m) (io : Streams) :
    (m.finished s = true ∧ m.attempt s io = ⟨none, s, io, .done s io⟩) ∨
      ∃ i op, s.ip = (i : Nat) ∧ m.program.instructions[i]? = some op ∧
        m.attempt s io = ⟨some op, s, io, m.perform i op s io⟩ := by
  cases hf : m.finished s with
  | true => exact .inl ⟨rfl, by simp [attempt, upcoming, step, hf]⟩
  | false =>
      obtain ⟨i, op, hip, hop⟩ := exists_instruction h hf
      refine .inr ⟨i, op, hip, hop, ?_⟩
      simp [attempt, upcoming, hf, get_eq hip hop, Except.toOption, step_eq_perform hip hop]

end Machine

/-- **The attempts of a loaded program stay in range** when the first is made there. -/
theorem Thread.inRange {m : Machine} {s s' : State} {log : List Attempt} (hp : m.program.Paired)
    (h : Thread m s log s') (hs : s.InRange m) :
    s'.InRange m ∧ ∀ a ∈ log, a.state.InRange m ∧ a = m.attempt a.state a.streams := by
  induction h with
  | nil => exact ⟨hs, List.forall_mem_nil _⟩
  | @cons s s' io log _ ih =>
      obtain ⟨hend, hall⟩ := ih (Machine.step_safe hp hs (.refl io)).state
      refine ⟨hend, ?_⟩
      intro a ha
      rcases List.mem_cons.mp ha with rfl | ha
      · exact ⟨hs, rfl⟩
      · exact hall a ha

end TapeLang
