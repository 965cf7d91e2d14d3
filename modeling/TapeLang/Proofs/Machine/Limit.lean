import TapeLang.Machine.Stepping
import TapeLang.Proofs.Machine.Failure

/-!
# Runs with a step limit

* `Halt.ReportsSuccess`, `Halt.ReportsLimit`, `Halt.leastLimit` — how a run is reported, and the
  room that it needs.
* `step_outcome` — what a step of an unfinished program comes to, as far as runs are concerned.
* `runUpTo_finished`, `runUpTo_limit`, `runUpTo_fail`, `runUpTo_done` — what a run with a limit does
  next, and `limited_induction` — induction along it.
* `GoesOn`, `haltAt`, `exists_steps` — the run makes the calls of `step` that anyone would make
  until the program has ended, a step has failed or the limit is reached.
* `runUpTo_steps_le`, `runUpTo_runUpTo`, `runUpTo_of_advance` — the limit is kept, a run can be gone
  on with, and a limit that leaves enough room makes no difference.
* `MadeOf`, `execute_upTo` — all of it together, in terms of what is reported.
-/

namespace TapeLang

namespace Halt

/-- The run is reported as a success. -/
def ReportsSuccess (h : Halt) : Prop :=
  ∃ x, h.execution = .ok x ∧ x.error = none

/-- The run is reported to have reached a step limit. -/
def ReportsLimit (h : Halt) : Prop :=
  ∃ x e k, h.execution = .ok x ∧ x.error = some e ∧ e.cause = .stepLimit k

/-- The least limit that lets a run come to this end: a step that fails is not counted, but needs
room. -/
def leastLimit (h : Halt) : Int :=
  if h.stop = .finished then h.state.steps else h.state.steps + 1

theorem steps_le_leastLimit (h : Halt) : h.state.steps ≤ h.leastLimit := by
  unfold leastLimit
  split <;> omega

theorem reports_of_finished {h : Halt} (hf : h.stop = .finished) :
    h.ReportsSuccess ∧ ¬h.ReportsLimit := by
  have hx : h.execution = .ok ⟨none, h.state⟩ := by rw [execution, hf]
  refine ⟨⟨_, hx, rfl⟩, ?_⟩
  rintro ⟨x, e, k, hx', he, _⟩
  cases hx.symm.trans hx'
  cases he

theorem not_reportsSuccess_of_failed {h : Halt} {f : Fault} (hf : h.stop = .failed f) :
    ¬h.ReportsSuccess := by
  rintro ⟨x, hx, hnone⟩
  rw [execution, hf] at hx
  cases f with
  | execution e =>
      cases hx
      cases hnone
  | _ => cases hx

theorem reportsLimit_iff_of_failed {h : Halt} {f : Fault} (hf : h.stop = .failed f) :
    h.ReportsLimit ↔ f.isStepLimit = true := by
  cases f with
  | execution e =>
      have hx : h.execution = .ok ⟨some e, h.state⟩ := by rw [execution, hf]
      constructor
      · rintro ⟨x, e', k, hx', he, hk⟩
        cases hx.symm.trans hx'
        cases he
        simp [Fault.isStepLimit, hk]
      · intro hlimit
        cases hk : e.cause with
        | stepLimit k => exact ⟨_, e, k, hx, rfl, hk⟩
        | _ => simp [Fault.isStepLimit, hk] at hlimit
  | _ =>
      constructor
      · rintro ⟨x, e', k, hx', _⟩
        rw [execution, hf] at hx'
        cases hx'
      · intro hlimit
        cases hlimit

end Halt

namespace Machine

variable {m : Machine} {s s' : State} {io io' : Streams} {k : Int}

/-! ## One step of a run -/

/-- A step that fails leaves the program unfinished, counts nothing and is not due to a step limit;
any other counts. -/
theorem step_outcome (hf : m.finished s = false) (io : Streams) :
    (∃ f s' io', m.step s io = .fail f s' io' ∧ m.finished s' = false ∧ s'.steps = s.steps ∧
      f.isStepLimit = false) ∨
      ∃ s' io', m.step s io = .done s' io' ∧ s'.steps = s.steps + 1 := by
  have hatomic := step_atomic hf io
  cases hs : m.step s io with
  | mk fault s' io' =>
      rw [hs] at hatomic
      cases fault with
      | none => exact .inr ⟨s', io', rfl, hatomic.counted rfl⟩
      | some f =>
          have hkept : s' = { s with reachedEof := s'.reachedEof } := hatomic.kept f rfl
          refine .inl ⟨f, s', io', rfl, ?_, ?_, hatomic.unlimited f rfl⟩
          · rw [hkept]
            exact hf
          · rw [hkept]

theorem runUpTo_finished (hf : m.finished s = true) : m.runUpTo k s io = ⟨.finished, s, io⟩ := by
  rw [runUpTo_eq, advance_finished _ hf]
  rfl

theorem runUpTo_limit (hf : m.finished s = false) (hk : k ≤ s.steps) :
    m.runUpTo k s io = ⟨.failed (error s (.stepLimit k)), s, io⟩ := by
  have hzero : (k - s.steps).toNat = 0 := by omega
  rw [runUpTo_eq, hzero]
  simp [advance, hf]

theorem runUpTo_fail {f : Fault} (hf : m.finished s = false) (hk : s.steps < k)
    (hs : m.step s io = .fail f s' io') :
    m.runUpTo k s io = ⟨.failed f, s', io'⟩ := by
  have hsucc : (k - s.steps).toNat = (k - s.steps - 1).toNat + 1 := by omega
  rw [runUpTo_eq, hsucc, advance_fail _ hf hs]
  rfl

theorem runUpTo_done (hf : m.finished s = false) (hk : s.steps < k)
    (hs : m.step s io = .done s' io') (hsteps : s'.steps = s.steps + 1) :
    m.runUpTo k s io = m.runUpTo k s' io' := by
  have hsucc : (k - s.steps).toNat = (k - s'.steps).toNat + 1 := by omega
  rw [runUpTo_eq, runUpTo_eq, hsucc, advance_done _ hf hs]

/-- **Induction along a run with limit `k`.** -/
theorem limited_induction (k : Int) {P : State → Streams → Prop}
    (finished : ∀ s io, m.finished s = true → P s io)
    (limit : ∀ s io, m.finished s = false → k ≤ s.steps → P s io)
    (fail : ∀ s io f s' io', m.finished s = false → s.steps < k → m.step s io = .fail f s' io' →
      s'.steps = s.steps → f.isStepLimit = false → P s io)
    (done : ∀ s io s' io', m.finished s = false → s.steps < k → m.step s io = .done s' io' →
      s'.steps = s.steps + 1 → P s' io' → P s io)
    (s : State) (io : Streams) : P s io := by
  induction hd : (k - s.steps).toNat generalizing s io with
  | zero =>
      cases hf : m.finished s with
      | true => exact finished s io hf
      | false => exact limit s io hf (by omega)
  | succ d ih =>
      cases hf : m.finished s with
      | true => exact finished s io hf
      | false =>
          rcases step_outcome hf io with ⟨f, s', io', hs, _, hsteps, hlimit⟩ | ⟨s', io', hs, hsteps⟩
          · exact fail s io f s' io' hf (by omega) hs hsteps hlimit
          · exact done s io s' io' hf (by omega) hs hsteps (ih s' io' (by omega))

/-! ## A run is the steps it consists of -/

/-- Whether a run with limit `k` calls `step` once more behind the attempt `r`. -/
def GoesOn (m : Machine) (k : Int) (r : Step) : Prop :=
  r.fault = none ∧ m.finished r.state = false ∧ r.state.steps < k

/-- What a run with limit `k` comes to when `r` was the last attempt. -/
def haltAt (m : Machine) (k : Int) (r : Step) : Halt where
  stop :=
    match r.fault with
    | some f => .failed f
    | none => if m.finished r.state then .finished else .failed (error r.state (.stepLimit k))
  state := r.state
  streams := r.streams

theorem steps_succ_done (n : Nat) (hs : m.step s io = .done s' io') :
    m.steps (n + 1) s io = m.steps n s' io' := by
  rw [steps, hs]
  rfl

theorem steps_succ_fail {f : Fault} (n : Nat) (hs : m.step s io = .fail f s' io') :
    m.steps (n + 1) s io = .fail f s' io' := by
  rw [steps, hs]
  rfl

/-- **A run with a limit makes the calls of `step` up to the first behind which it does not go
on.** -/
theorem exists_steps (k : Int) (s : State) (io : Streams) :
    ∃ n, (∀ j < n, m.GoesOn k (m.steps j s io)) ∧ ¬m.GoesOn k (m.steps n s io) ∧
      m.runUpTo k s io = m.haltAt k (m.steps n s io) := by
  induction s, io using limited_induction (m := m) k with
  | finished s io hf =>
      refine ⟨0, fun j hj => absurd hj (Nat.not_lt_zero j), fun h => ?_, ?_⟩
      · cases hf.symm.trans h.2.1
      · rw [runUpTo_finished hf]
        simp [haltAt, steps, Step.done, hf]
  | limit s io hf hk =>
      refine ⟨0, fun j hj => absurd hj (Nat.not_lt_zero j),
        fun h => absurd h.2.2 (Int.not_lt.mpr hk), ?_⟩
      rw [runUpTo_limit hf hk]
      simp [haltAt, steps, Step.done, hf]
  | fail s io f s' io' hf hk hs =>
      refine ⟨1, ?_, ?_, ?_⟩
      · intro j hj
        obtain rfl : j = 0 := by omega
        exact ⟨rfl, hf, hk⟩
      · rw [steps_succ_fail 0 hs]
        intro h
        cases h.1
      · rw [runUpTo_fail hf hk hs, steps_succ_fail 0 hs]
        rfl
  | done s io s' io' hf hk hs hsteps ih =>
      obtain ⟨n, hgoes, hends, hrun⟩ := ih
      refine ⟨n + 1, ?_, ?_, ?_⟩
      · rintro (_ | j) hj
        · exact ⟨rfl, hf, hk⟩
        · rw [steps_succ_done j hs]
          exact hgoes j (by omega)
      · rw [steps_succ_done n hs]
        exact hends
      · rw [runUpTo_done hf hk hs hsteps, steps_succ_done n hs, hrun]

theorem steps_fault (n : Nat) (s : State) (io : Streams) :
    ∀ f, (m.steps n s io).fault = some f →
      m.finished (m.steps n s io).state = false ∧ f.isStepLimit = false := by
  induction n generalizing s io with
  | zero => exact nofun
  | succ n ih =>
      cases hf : m.finished s with
      | true =>
          have hs : m.step s io = .done s io := by rw [step, if_pos hf]
          rw [steps_succ_done n hs]
          exact ih s io
      | false =>
          rcases step_outcome hf io with ⟨g, s', io', hs, hf', _, hlimit⟩ | ⟨s', io', hs, _⟩
          · rw [steps_succ_fail n hs]
            rintro f ⟨⟩
            exact ⟨hf', hlimit⟩
          · rw [steps_succ_done n hs]
            exact ih s' io'

/-! ## Limits -/

/-- **The limit is kept**, unless it was passed before. -/
theorem runUpTo_steps_le (k : Int) (s : State) (io : Streams) :
    (m.runUpTo k s io).state.steps ≤ max s.steps k := by
  induction s, io using limited_induction (m := m) k with
  | finished s io hf => rw [runUpTo_finished hf]; exact Int.le_max_left _ _
  | limit s io hf hk => rw [runUpTo_limit hf hk]; exact Int.le_max_left _ _
  | fail s io f s' io' hf hk hs hsteps =>
      rw [runUpTo_fail hf hk hs]
      exact hsteps ▸ Int.le_max_left _ _
  | done s io s' io' hf hk hs hsteps ih =>
      rw [runUpTo_done hf hk hs hsteps]
      omega

/-- **A run can be gone on with**: stopped at a limit first, it comes to what it would have come to
at once. -/
theorem runUpTo_runUpTo {k k' : Int} (hk' : k ≤ k') (s : State) (io : Streams)
    (h : (m.runUpTo k s io).ReportsSuccess ∨ (m.runUpTo k s io).ReportsLimit) :
    m.runUpTo k' (m.runUpTo k s io).state (m.runUpTo k s io).streams = m.runUpTo k' s io := by
  induction s, io using limited_induction (m := m) k with
  | finished s io hf => rw [runUpTo_finished hf]
  | limit s io hf hk => rw [runUpTo_limit hf hk]
  | fail s io f s' io' hf hk hs _ hlimit =>
      rw [runUpTo_fail hf hk hs] at h
      rcases h with hsuccess | hlimit'
      · exact absurd hsuccess (Halt.not_reportsSuccess_of_failed rfl)
      · rw [Halt.reportsLimit_iff_of_failed rfl, hlimit] at hlimit'
        cases hlimit'
  | done s io s' io' hf hk hs hsteps ih =>
      rw [runUpTo_done hf hk hs hsteps] at h ⊢
      rw [ih h, runUpTo_done hf (by omega) hs hsteps]

theorem steps_le_advance (n : Nat) (s : State) (io : Streams) :
    s.steps ≤ (m.advance n s io).state.steps := by
  induction n generalizing s io with
  | zero => exact Int.le_refl _
  | succ n ih =>
      cases hf : m.finished s with
      | true => simp [advance_finished _ hf]
      | false =>
          rcases step_outcome hf io with ⟨f, s', io', hs, _, hsteps, _⟩ | ⟨s', io', hs, hsteps⟩
          · rw [advance_fail n hf hs]
            exact Int.le_of_eq hsteps.symm
          · have := ih s' io'
            rw [advance_done n hf hs]
            omega

theorem lt_leastLimit (hf : m.finished s = false) {n : Nat}
    (hstop : (m.advance n s io).stop ≠ .paused) :
    s.steps < (m.advance n s io).leastLimit := by
  obtain ⟨n, rfl⟩ := exists_succ_of_stopped hf rfl hstop
  rcases step_outcome hf io with ⟨f, s', io', hs, _, hsteps, _⟩ | ⟨s', io', hs, hsteps⟩
  · rw [advance_fail n hf hs, Halt.leastLimit, if_neg (by simp)]
    show s.steps < s'.steps + 1
    omega
  · have hle := (m.advance n s' io').steps_le_leastLimit
    have := steps_le_advance (m := m) n s' io'
    rw [advance_done n hf hs]
    omega

/-- **A limit that leaves room for all of an unlimited run makes no difference; any other is
reached.** -/
theorem runUpTo_of_advance (k : Int) (s : State) (io : Streams) :
    ∀ n, (m.advance n s io).stop ≠ .paused →
      ((m.advance n s io).leastLimit ≤ k → m.runUpTo k s io = m.advance n s io) ∧
        (m.finished s = false → k < (m.advance n s io).leastLimit →
          (m.runUpTo k s io).ReportsLimit) := by
  -- Along the run with the limit: it is the one that ends in any case, and the other is made of the
  -- same steps.
  induction s, io using limited_induction (m := m) k with
  | finished s io hf =>
      intro n _
      rw [advance_finished n hf, runUpTo_finished hf]
      exact ⟨fun _ => rfl, fun hf' => nomatch hf.symm.trans hf'⟩
  | limit s io hf hk =>
      intro n hstop
      have hlt := lt_leastLimit hf hstop
      refine ⟨fun hle => by omega, fun _ _ => ?_⟩
      rw [runUpTo_limit hf hk, Halt.reportsLimit_iff_of_failed rfl]
      rfl
  | fail s io f s' io' hf hk hs hsteps =>
      intro n hstop
      obtain ⟨n, rfl⟩ := exists_succ_of_stopped hf rfl hstop
      rw [advance_fail n hf hs, runUpTo_fail hf hk hs]
      refine ⟨fun _ => rfl, fun _ hlt => ?_⟩
      rw [Halt.leastLimit, if_neg (by simp)] at hlt
      dsimp only at hlt
      omega
  | done s io s' io' hf hk hs hsteps ih =>
      intro n hstop
      obtain ⟨n, rfl⟩ := exists_succ_of_stopped hf rfl hstop
      rw [advance_done n hf hs] at hstop ⊢
      rw [runUpTo_done hf hk hs hsteps]
      obtain ⟨hsame, hother⟩ := ih n hstop
      refine ⟨hsame, fun _ hlt => ?_⟩
      cases hf' : m.finished s' with
      | false => exact hother hf' hlt
      | true =>
          -- The program has ended with this step, for which there was room.
          rw [advance_finished n hf', Halt.leastLimit, if_pos rfl] at hlt
          dsimp only at hlt
          omega

/-! ## What is reported -/

theorem reports_haltAt {r : Step}
    (hr : ∀ f, r.fault = some f → m.finished r.state = false ∧ f.isStepLimit = false) :
    ((m.haltAt k r).ReportsSuccess ↔ m.finished r.state = true) ∧
      ((m.haltAt k r).ReportsLimit ↔ r.fault = none ∧ m.finished r.state = false) ∧
      ((m.haltAt k r).ReportsLimit →
        (m.haltAt k r).execution = .ok ⟨some ⟨.stepLimit k, r.state.ip, r.state.dp⟩, r.state⟩) := by
  cases hrf : r.fault with
  | some f =>
      obtain ⟨hf, hlimit⟩ := hr f hrf
      have hstop : (m.haltAt k r).stop = .failed f := by simp only [haltAt, hrf]
      have hno : ¬(m.haltAt k r).ReportsLimit := by
        simp [Halt.reportsLimit_iff_of_failed hstop, hlimit]
      simp [hf, Halt.not_reportsSuccess_of_failed hstop, hno]
  | none =>
      cases hf : m.finished r.state with
      | true =>
          have hstop : (m.haltAt k r).stop = .finished := by simp [haltAt, hrf, hf]
          simp [Halt.reports_of_finished hstop]
      | false =>
          have hstop :
              (m.haltAt k r).stop = .failed (error r.state (.stepLimit k)) := by
            simp [haltAt, hrf, hf]
          have hyes : (m.haltAt k r).ReportsLimit := by
            rw [Halt.reportsLimit_iff_of_failed hstop]
            rfl
          refine ⟨by simp [Halt.not_reportsSuccess_of_failed hstop], by simp [hyes], fun _ => ?_⟩
          rw [Halt.execution, hstop]
          rfl

/-- **A run with limit `k` that has ended as `h`, against the `n` calls of `step` that it is made
of.** -/
structure MadeOf (m : Machine) (k : Int) (s : State) (io : Streams) (n : Nat) (h : Halt) :
    Prop where
  /-- In front of the last call no step has failed, the program goes on and the limit is not
  reached. -/
  goesOn : ∀ j < n, m.GoesOn k (m.steps j s io)
  /-- Behind the last call one of the three is so. -/
  ends : ¬m.GoesOn k (m.steps n s io)
  state : h.state = (m.steps n s io).state
  streams : h.streams = (m.steps n s io).streams
  failed : ∀ f, (m.steps n s io).fault = some f → h.stop = .failed f
  success_iff : h.ReportsSuccess ↔ m.finished h.state = true
  limit_iff : h.ReportsLimit ↔ (m.steps n s io).fault = none ∧ m.finished h.state = false ∧
    k ≤ h.state.steps
  limit_eq : h.ReportsLimit → h.execution = .ok ⟨some ⟨.stepLimit k, h.state.ip, h.state.dp⟩,
    h.state⟩

theorem exists_madeOf (m : Machine) (k : Int) (s : State) (io : Streams) :
    ∃ n, m.MadeOf k s io n (m.runUpTo k s io) := by
  obtain ⟨n, hgoes, hends, hrun⟩ := exists_steps (m := m) k s io
  obtain ⟨hsuccess, hlimit, heq⟩ := reports_haltAt (k := k) (steps_fault (m := m) n s io)
  rw [← hrun] at hsuccess hlimit heq
  have hstate : (m.runUpTo k s io).state = (m.steps n s io).state := by rw [hrun]; rfl
  rw [← hstate] at hsuccess hlimit heq
  refine ⟨n, hgoes, hends, hstate, by rw [hrun]; rfl, ?_, hsuccess, ?_, heq⟩
  · intro f hf
    rw [hrun]
    simp only [haltAt, hf]
  · rw [hlimit]
    refine ⟨fun ⟨hf, hfin⟩ => ⟨hf, hfin, ?_⟩, fun ⟨hf, hfin, _⟩ => ⟨hf, hfin⟩⟩
    rw [hstate] at hfin ⊢
    exact Int.not_lt.mp fun hlt => hends ⟨hf, hfin, hlt⟩

/-- **Step limits compose and agree with unlimited runs.** For every state, reachable or not, and
every limit `k`: a run with limit `k` is made of the calls of `step` up to the first behind which
the program has ended, a step has failed or the limit is reached, and reports just this; an ended
program is not touched; the count of steps stays within the limit, unless it was beyond it at first;
a run that succeeds or reaches its limit can be gone on with under a higher limit; and a limit with
room for an unlimited run makes no difference to it, while any other is reached. -/
theorem execute_upTo (m : Machine) (s : State) (io : Streams) (k : Int) :
    (∃ n, m.MadeOf k s io n (m.runUpTo k s io)) ∧
      (m.finished s = true → m.runUpTo k s io = ⟨.finished, s, io⟩) ∧
      (m.runUpTo k s io).state.steps ≤ max s.steps k ∧
      (∀ k', k ≤ k' → (m.runUpTo k s io).ReportsSuccess ∨ (m.runUpTo k s io).ReportsLimit →
        m.runUpTo k' (m.runUpTo k s io).state (m.runUpTo k s io).streams = m.runUpTo k' s io) ∧
      ∀ fuel u, m.run fuel none s io = some u →
        (u.leastLimit ≤ k → m.runUpTo k s io = u) ∧
          (m.finished s = false → k < u.leastLimit → (m.runUpTo k s io).ReportsLimit) := by
  refine ⟨exists_madeOf m k s io, runUpTo_finished, runUpTo_steps_le k s io, ?_, ?_⟩
  · exact fun k' hk' h => runUpTo_runUpTo hk' s io h
  · intro fuel u hu
    obtain ⟨rfl, hstop⟩ := runFor_eq_some_iff.mp hu
    exact runUpTo_of_advance k s io fuel hstop

/-- Two steps, made at once without a limit or one after the other under limits. -/
theorem execute_upTo_two_steps :
    let m : Machine := ⟨⟨[0x2B, 0x2E], #[.increment, .write], #[0, 1], #[none, none]⟩,
      { tapeLength := 2 }⟩
    let u : Halt := m.advance 2 m.start {}
    let h : Halt := m.runUpTo 1 m.start {}
    m.run 2 none m.start {} = some u ∧ u.leastLimit = 2 ∧ h.ReportsLimit ∧ h.state.steps ≤ max 0 1 ∧
      m.runUpTo 2 h.state h.streams = m.runUpTo 2 m.start {} ∧ m.runUpTo 2 m.start {} = u := by
  intro m u h
  have hu : m.run 2 none m.start {} = some u := rfl
  have hleast : u.leastLimit = 2 := by decide
  obtain ⟨_, _, hsteps, hgoesOn, hunlimited⟩ := execute_upTo m m.start {} 1
  have hlimit : h.ReportsLimit := (hunlimited 2 u hu).2 (by decide) (by decide)
  have hsame := ((execute_upTo m m.start {} 2).2.2.2.2 2 u hu).1 (by decide)
  exact ⟨hu, hleast, hlimit, hsteps, hgoesOn 2 (by decide) (.inr hlimit), hsame⟩

end Machine

end TapeLang
