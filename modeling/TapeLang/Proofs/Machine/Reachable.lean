import TapeLang.Machine.Call

/-!
# What every call keeps

* `runUpTo_eq`, `runFor_eq_some_iff` — a run, with or without a limit, is an `advance` and a look at
  why it stopped.
* `advance_finished`, `advance_done`, `advance_fail` — one step of a run; `exists_succ_of_stopped` —
  there is one.
* `advance_preserves`, `run_preserves`, `Reachable.preserves` — what one step keeps is kept by every
  sequence of calls.
* `advance_failed`, `call_raises` — a call raises nothing but what some step of it raised, and the
  step limit.
-/

namespace TapeLang.Machine

variable {m : Machine} {s : State} {io io₀ : Streams}

/-! ## Runs as sequences of steps -/

theorem runUpTo_eq (m : Machine) (limit : Int) (s : State) (io : Streams) :
    m.runUpTo limit s io =
      let h := m.advance (limit - s.steps).toNat s io
      { h with
        stop := if h.stop = .paused then .failed (error h.state (.stepLimit limit))
          else h.stop } := by
  unfold runUpTo
  generalize m.advance (limit - s.steps).toNat s io = h
  obtain ⟨_ | _ | _, s', io'⟩ := h <;> rfl

theorem runFor_eq_some_iff {fuel : Nat} {h : Halt} :
    m.runFor fuel s io = some h ↔ m.advance fuel s io = h ∧ h.stop ≠ .paused := by
  unfold runFor
  constructor
  · split
    · intro e
      cases e
    · rename_i hne
      intro e
      obtain rfl := Option.some.inj e
      exact ⟨rfl, fun hp => hne (m.advance fuel s io).state (m.advance fuel s io).streams
        (by rw [← hp])⟩
  · rintro ⟨rfl, hne⟩
    split
    · rename_i heq
      exact absurd (by rw [heq]) hne
    · rfl

theorem advance_finished (n : Nat) (h : m.finished s = true) :
    m.advance n s io = ⟨.finished, s, io⟩ := by
  cases n <;> simp [advance, h]

theorem advance_done {s' : State} {io' : Streams} (n : Nat) (hf : m.finished s = false)
    (hs : m.step s io = .done s' io') : m.advance (n + 1) s io = m.advance n s' io' := by
  simp [advance, hf, hs, Step.done]

theorem advance_fail {f : Fault} {s' : State} {io' : Streams} (n : Nat) (hf : m.finished s = false)
    (hs : m.step s io = .fail f s' io') : m.advance (n + 1) s io = ⟨.failed f, s', io'⟩ := by
  simp [advance, hf, hs, Step.fail]

theorem exists_succ_of_stopped {n : Nat} {h : Halt} (hf : m.finished s = false)
    (hrun : m.advance n s io = h) (hstop : h.stop ≠ .paused) : ∃ n', n = n' + 1 := by
  cases n with
  | zero => simp [← hrun, advance, hf] at hstop
  | succ n => exact ⟨n, rfl⟩

/-! ## Invariants -/

section

variable {P : State → Streams → Prop}
  (hstep : ∀ s io, P s io → P (m.step s io).state (m.step s io).streams)

include hstep

/-- **What one step keeps is kept by any number of steps.** -/
theorem advance_preserves (n : Nat) (h : P s io) :
    P (m.advance n s io).state (m.advance n s io).streams := by
  induction n generalizing s io with
  | zero => exact h
  | succ n ih =>
      have hnext := hstep s io h
      unfold advance
      split
      · exact h
      · generalize m.step s io = r at hnext
        obtain ⟨_ | f, s', io'⟩ := r
        · exact ih hnext
        · exact hnext

theorem run_preserves {fuel : Nat} {limit : Option Int} {halt : Halt} (h : P s io)
    (hr : m.run fuel limit s io = some halt) : P halt.state halt.streams := by
  cases limit with
  | none =>
      obtain ⟨rfl, _⟩ := runFor_eq_some_iff.mp hr
      exact advance_preserves hstep fuel h
  | some k =>
      obtain rfl := Option.some.inj hr
      rw [runUpTo_eq]
      exact advance_preserves hstep _ h

theorem call_preserves {fuel : Nat} {c : Call} {a : Answer} (h : P s io)
    (hc : m.call fuel c s io = some a) :
    P a.state a.streams := by
  cases c with
  | step =>
      obtain rfl := Option.some.inj hc
      have hnext := hstep s io h
      unfold stepAnswer
      split <;> exact hnext
  | run limit =>
      obtain ⟨halt, hr, rfl⟩ := Option.map_eq_some_iff.mp hc
      exact run_preserves hstep h hr
  | execute limit =>
      obtain ⟨halt, hr, rfl⟩ := Option.map_eq_some_iff.mp hc
      exact run_preserves hstep h hr

/-- **What one step keeps holds in every reachable state** if it holds at the start. -/
theorem Reachable.preserves (hstart : P m.start io₀) (h : m.Reachable io₀ s io) : P s io := by
  induction h with
  | start => exact hstart
  | call _ hc ih => exact call_preserves hstep ih hc

/-! ## What is raised -/

variable {Q : Fault → Prop} (hraise : ∀ s io, P s io → ∀ f, (m.step s io).fault = some f → Q f)

include hraise

theorem advance_failed (n : Nat) (h : P s io) {f : Fault}
    (hf : (m.advance n s io).stop = .failed f) : Q f := by
  induction n generalizing s io with
  | zero =>
      unfold advance at hf
      simp only at hf
      split at hf <;> cases hf
  | succ n ih =>
      have hnext := hstep s io h
      have hfault := hraise s io h
      unfold advance at hf
      split at hf
      · cases hf
      · generalize m.step s io = r at hnext hfault hf
        obtain ⟨_ | g, s', io'⟩ := r
        · exact ih hnext hf
        · cases hf
          exact hfault f rfl

theorem run_failed {fuel : Nat} {limit : Option Int} {halt : Halt} (h : P s io)
    (hr : m.run fuel limit s io = some halt) {f : Fault} (hf : halt.stop = .failed f) :
    Q f ∨ ∃ s k, f = error s (.stepLimit k) := by
  cases limit with
  | none =>
      obtain ⟨rfl, _⟩ := runFor_eq_some_iff.mp hr
      exact .inl (advance_failed hstep hraise fuel h hf)
  | some k =>
      obtain rfl := Option.some.inj hr
      rw [runUpTo_eq] at hf
      simp only at hf
      split at hf
      · cases hf
        exact .inr ⟨_, k, rfl⟩
      · exact .inl (advance_failed hstep hraise _ h hf)

/-- **A call raises what one of its steps raised, or that its step limit is reached.** -/
theorem call_raises {fuel : Nat} {c : Call} {a : Answer} (h : P s io)
    (hc : m.call fuel c s io = some a) {f : Fault} (hf : a.reply = .error f) :
    Q f ∨ ∃ s k, f = error s (.stepLimit k) := by
  cases c with
  | step =>
      obtain rfl := Option.some.inj hc
      have hfault := hraise s io h
      unfold stepAnswer at hf
      split at hf
      · rename_i g hg
        cases hf
        exact .inl (hfault f hg)
      · cases hf
  | run limit =>
      obtain ⟨halt, hr, rfl⟩ := Option.map_eq_some_iff.mp hc
      simp only [runReply] at hf
      split at hf
      · rename_i g hg
        cases hf
        exact run_failed hstep hraise h hr hg
      · cases hf
  | execute limit =>
      obtain ⟨halt, hr, rfl⟩ := Option.map_eq_some_iff.mp hc
      simp only [Halt.execution] at hf
      split at hf
      · cases hf
      · rename_i g _ hg
        cases hf
        exact run_failed hstep hraise h hr hg
      · cases hf

end

end TapeLang.Machine
