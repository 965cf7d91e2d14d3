import TapeLang.Command.Supply
import TapeLang.Proofs.Machine.Consumed
import TapeLang.Proofs.Machine.Limit

/-!
# What a run comes to

* `Machine.Runs` — a run that stops, as a relation without fuel: `runs_iff_run` says that it is what
  `run` computes.
* `Halt.SameAs`, `Runs.sameAs` — a run on streams that agree as far as it reads comes to the same.
* `Streams.ZerosBehind`, `Runs.runSupplied_zeros` — and so does a run that is supplied with zero
  bytes, if the other reads them from its input.
* `Runs.exists_trail`, `Runs.bytesWritten` — a run is attempts in a row, and counts the bytes that
  it writes.
* `run_of_reading` — a run that makes a read call which raises a fault fails with it.
-/

namespace TapeLang

open Command (Supply)

theorem Streams.AgreeUpTo.exists_step {m : Machine} {r : Nat} {s s₁ : State}
    {io io₁ io' : Streams} {f : Option Fault} (h : io.AgreeUpTo r io')
    (hs : m.step s io = ⟨f, s₁, io₁⟩) (hr : io₁.input.reads ≤ r) :
    ∃ io₁', m.step s io' = ⟨f, s₁, io₁'⟩ ∧ io₁.AgreeUpTo r io₁' := by
  obtain ⟨hfault, hstate, hagree⟩ := h.step m s (by rwa [hs])
  rw [hs] at hfault hstate hagree
  cases hs' : m.step s io' with
  | mk f' s₁' io₁' =>
      rw [hs'] at hfault hstate hagree
      obtain rfl : f' = f := hfault
      obtain rfl : s₁' = s₁ := hstate
      exact ⟨io₁', rfl, hagree⟩

/-- **Two runs that come to the same**, but for the input that is left. -/
structure Halt.SameAs (h h' : Halt) : Prop where
  stop : h'.stop = h.stop
  state : h'.state = h.state
  output : h'.streams.output = h.streams.output
  reads : h'.streams.input.reads = h.streams.input.reads

namespace Machine

/-- **A run that stops**, perhaps at a step limit, and what it comes to. -/
inductive Runs (m : Machine) (limit : Option Int) : State → Streams → Halt → Prop
  | finished {s : State} {io : Streams} : m.finished s = true → Runs m limit s io ⟨.finished, s, io⟩
  | limited {s : State} {io : Streams} {k : Int} : m.finished s = false → limit = some k →
    k ≤ s.steps →
      Runs m limit s io ⟨.failed (error s (.stepLimit k)), s, io⟩
  | failed {s s' : State} {io io' : Streams} {f : Fault} : m.finished s = false →
    (∀ k ∈ limit, s.steps < k) →
      m.step s io = .fail f s' io' → Runs m limit s io ⟨.failed f, s', io'⟩
  | step {s s' : State} {io io' : Streams} {h : Halt} : m.finished s = false →
    (∀ k ∈ limit, s.steps < k) →
      m.step s io = .done s' io' → Runs m limit s' io' h → Runs m limit s io h

variable {m : Machine} {limit : Option Int} {s s' : State} {io io' : Streams} {h : Halt}

/-! ## Runs with fuel -/

theorem steps_of_done (hf : m.finished s = false) (hs : m.step s io = .done s' io') :
    s'.steps = s.steps + 1 := by
  rcases step_outcome hf io with ⟨f, s₁, io₁, hfail, _⟩ | ⟨s₁, io₁, hdone, hsteps⟩
  · cases hs.symm.trans hfail
  · cases hs.symm.trans hdone
    exact hsteps

theorem run_finished (fuel : Nat) (hf : m.finished s = true) :
    m.run fuel limit s io = some ⟨.finished, s, io⟩ := by
  cases limit with
  | none => exact runFor_eq_some_iff.mpr ⟨advance_finished fuel hf, nofun⟩
  | some k => exact congrArg some (runUpTo_finished hf)

theorem run_fail {f : Fault} (fuel : Nat) (hf : m.finished s = false)
    (hk : ∀ k ∈ limit, s.steps < k) (hs : m.step s io = .fail f s' io') :
    m.run (fuel + 1) limit s io = some ⟨.failed f, s', io'⟩ := by
  cases limit with
  | none => exact runFor_eq_some_iff.mpr ⟨advance_fail fuel hf hs, nofun⟩
  | some k => exact congrArg some (runUpTo_fail hf (hk k rfl) hs)

theorem run_done (fuel : Nat) (hf : m.finished s = false) (hk : ∀ k ∈ limit, s.steps < k)
    (hs : m.step s io = .done s' io') : m.run (fuel + 1) limit s io = m.run fuel limit s' io' := by
  cases limit with
  | none => simp only [run, runFor, advance_done fuel hf hs]
  | some k => exact congrArg some (runUpTo_done hf (hk k rfl) hs (steps_of_done hf hs))

theorem runs_of_run {fuel : Nat} (hr : m.run fuel limit s io = some h) : m.Runs limit s io h := by
  cases limit with
  | some k =>
      obtain rfl := Option.some.inj hr
      clear hr
      induction s, io using limited_induction (m := m) k with
      | finished s io hf => exact runUpTo_finished hf ▸ .finished hf
      | limit s io hf hk => exact runUpTo_limit hf hk ▸ .limited hf rfl hk
      | fail s io f s' io' hf hk hs =>
          exact runUpTo_fail hf hk hs ▸ .failed hf (by simpa using hk) hs
      | done s io s' io' hf hk hs hsteps ih =>
          exact .step hf (by simpa using hk) hs (runUpTo_done hf hk hs hsteps ▸ ih)
  | none =>
      induction fuel generalizing s io with
      | zero =>
          obtain ⟨rfl, hstop⟩ := runFor_eq_some_iff.mp hr
          cases hf : m.finished s with
          | true => exact advance_finished 0 hf ▸ .finished hf
          | false => exact absurd (by simp [advance, hf]) hstop
      | succ fuel ih =>
          cases hf : m.finished s with
          | true =>
              obtain rfl := Option.some.inj ((run_finished (fuel + 1) hf).symm.trans hr)
              exact .finished hf
          | false =>
              rcases step_outcome hf io with ⟨f, s', io', hs, _⟩ | ⟨s', io', hs, _⟩
              · obtain rfl := Option.some.inj ((run_fail fuel hf (by simp) hs).symm.trans hr)
                exact .failed hf (by simp) hs
              · exact .step hf (by simp) hs (ih ((run_done fuel hf (by simp) hs).symm.trans hr))

theorem Runs.run (hr : m.Runs limit s io h) : ∃ n, ∀ fuel ≥ n, m.run fuel limit s io = some h := by
  induction hr with
  | finished hf => exact ⟨0, fun fuel _ => run_finished fuel hf⟩
  | limited hf hlimit hk =>
      subst hlimit
      exact ⟨0, fun _ _ => congrArg some (runUpTo_limit hf hk)⟩
  | failed hf hk hs =>
      refine ⟨1, fun fuel hfuel => ?_⟩
      obtain ⟨fuel, rfl⟩ := Nat.exists_eq_add_of_le' hfuel
      exact run_fail fuel hf hk hs
  | step hf hk hs _ ih =>
      obtain ⟨n, hn⟩ := ih
      refine ⟨n + 1, fun fuel hfuel => ?_⟩
      obtain ⟨fuel, rfl⟩ := Nat.exists_eq_add_of_le' (Nat.le_trans (Nat.le_add_left 1 n) hfuel)
      exact (run_done fuel hf hk hs).trans (hn fuel (Nat.le_of_succ_le_succ hfuel))

/-- **Runs are what `run` computes** with as much fuel as they need, or more. -/
theorem runs_iff_run : m.Runs limit s io h ↔ ∃ n, ∀ fuel ≥ n, m.run fuel limit s io = some h := by
  refine ⟨Runs.run, ?_⟩
  rintro ⟨n, hn⟩
  exact runs_of_run (hn n (Nat.le_refl n))

theorem Runs.unique {h' : Halt} (hr : m.Runs limit s io h) (hr' : m.Runs limit s io h') :
    h' = h := by
  obtain ⟨n, hn⟩ := hr.run
  obtain ⟨n', hn'⟩ := hr'.run
  have heq :=
    (hn (max n n') (Nat.le_max_left _ _)).symm.trans (hn' (max n n') (Nat.le_max_right _ _))
  exact (Option.some.inj heq).symm

/-! ## Streams that agree as far as a run reads -/

theorem Runs.reads_le (hr : m.Runs limit s io h) : io.input.reads ≤ h.streams.input.reads := by
  induction hr with
  | finished _ => exact Nat.le_refl _
  | limited _ _ _ => exact Nat.le_refl _
  | @failed s s' io io' f hf hk hs =>
      have := m.reads_le_step s io
      rwa [hs] at this
  | @step s s' io io' h hf hk hs _ ih =>
      have := m.reads_le_step s io
      rw [hs] at this
      exact Nat.le_trans this ih

/-- **A run on streams that agree as far as it reads comes to the same.** -/
theorem Runs.sameAs {r : Nat} (hr : m.Runs limit s io h) (hreads : h.streams.input.reads ≤ r)
    (hio : io.AgreeUpTo r io') : ∃ h', m.Runs limit s io' h' ∧ h.SameAs h' := by
  induction hr generalizing io' with
  | finished hf => exact ⟨_, .finished hf, rfl, rfl, hio.output, hio.reads⟩
  | limited hf hlimit hk => exact ⟨_, .limited hf hlimit hk, rfl, rfl, hio.output, hio.reads⟩
  | failed hf hk hs =>
      obtain ⟨_, hs', hagree⟩ := hio.exists_step hs hreads
      exact ⟨_, .failed hf hk hs', rfl, rfl, hagree.output, hagree.reads⟩
  | step hf hk hs hrest ih =>
      obtain ⟨_, hs', hagree⟩ := hio.exists_step hs (Nat.le_trans hrest.reads_le hreads)
      obtain ⟨h', hrun, hsame⟩ := ih hreads hagree
      exact ⟨h', .step hf hk hs' hrun, hsame⟩

/-! ## Zero bytes behind the input -/

theorem reads_iff_exchange (m : Machine) (s : State) : m.reads s = true ↔ m.exchange s = .read := by
  unfold reads exchange
  cases m.finished s with
  | true => simp
  | false =>
      cases hget : m.program.get s.ip with
      | error f => simp
      | ok op =>
          cases op with
          | read => cases s.reachedEof <;> simp
          | write => cases s.cell <;> simp
          | _ => simp

end Machine

/-- **Streams that bring what others bring**, up to read call `r`, when zero bytes come behind their
own input. -/
structure Streams.ZerosBehind (r : Nat) (io io' : Streams) : Prop where
  reads : io'.input.reads = io.input.reads
  items : ∀ j, io.input.reads + j < r → io'.input.pending.getD j (.chunk [0]) = io.input.item j
  output : io'.output = io.output

namespace Machine

variable {m : Machine} {limit : Option Int} {s s' : State} {io io' : Streams} {h : Halt}

/-- Streams that have been supplied are still such, and hold what the step at hand reads. -/
theorem supplied_zeros {r : Nat} (hio : io.ZerosBehind r io') (fetched : Nat) :
    io.ZerosBehind r (m.supplied .zeros s io' fetched).1 ∧
      (m.reads s = true → (m.supplied .zeros s io' fetched).1.input.pending ≠ []) := by
  unfold supplied
  split
  · rename_i hneeds
    have hpending : io'.input.pending = [] := List.isEmpty_iff.mp (Bool.and_eq_true_iff.mp hneeds).2
    have hblock : (Input.ofBytes (Supply.zeros.block io'.output fetched)).pending =
        List.replicate Command.blockSize (.chunk [0]) := List.map_replicate
    refine ⟨⟨hio.reads, ?_, hio.output⟩, fun _ => ?_⟩
    · intro j hj
      rw [← hio.items j hj, hpending]
      simp only [Supply.fetch, hblock, List.getD_eq_getElem?_getD, List.getElem?_replicate]
      split <;> rfl
    · simp only [Supply.fetch, hblock]
      exact nofun
  · rename_i hneeds
    refine ⟨hio, ?_⟩
    intro hreads hpending
    exact hneeds (Bool.and_eq_true_iff.mpr ⟨hreads, List.isEmpty_iff.mpr hpending⟩)

theorem step_zeros {r : Nat} {s₁ : State} {io₁ : Streams} {f : Option Fault}
    (hio : io.ZerosBehind r io') (hholds : m.reads s = true → io'.input.pending ≠ [])
    (hs : m.step s io = ⟨f, s₁, io₁⟩) (hr : io₁.input.reads ≤ r) :
    ∃ io₁', m.step s io' = ⟨f, s₁, io₁'⟩ ∧ io₁.ZerosBehind r io₁' := by
  have hstreams : (m.exchange s).streams io = io₁ := by rw [← step_streams, hs]
  -- For this one step the two agree, since only its own read counts.
  have hagree : io.AgreeUpTo io₁.input.reads io' := by
    refine ⟨hio.reads, ?_, hio.output⟩
    intro j hj
    rw [← hstreams] at hj
    have hread : m.exchange s = .read := by
      by_contra hne
      have := reads_step_of_exchange_ne_read hne io
      rw [step_streams] at this
      omega
    rw [hread] at hj
    have hlt : io.input.reads + j < io.input.reads + 1 := hj
    obtain rfl : j = 0 := by omega
    have hone : io₁.input.reads = io.input.reads + 1 := by
      rw [← hstreams, hread]
      rfl
    rw [← hio.items 0 (by omega)]
    cases hp : io'.input.pending with
    | nil => exact absurd hp (hholds ((reads_iff_exchange m s).mpr hread))
    | cons x rest => simp [Input.item, hp]
  obtain ⟨io₁', hs', hagree'⟩ := hagree.exists_step hs (Nat.le_refl _)
  have hstreams' : (m.exchange s).streams io' = io₁' := by rw [← step_streams, hs']
  refine ⟨io₁', hs', hagree'.reads, ?_, hagree'.output⟩
  intro j hj
  rw [← hstreams, ← hstreams']
  rw [← hstreams] at hj
  cases he : m.exchange s with
  | silent =>
      rw [he] at hj
      exact hio.items j hj
  | read =>
      rw [he] at hj
      have hj' : io.input.reads + (j + 1) < r := by
        simp only [Exchange.streams, Input.advance] at hj
        omega
      have hitem := hio.items (j + 1) hj'
      show io'.input.pending.tail.getD j (.chunk [0]) = io.input.advance.item j
      rw [Input.item_advance, ← hitem]
      cases io'.input.pending <;> simp
  | write b =>
      rw [he] at hj
      have hnext : io'.output.next = io.output.next := by rw [hio.output]
      cases hw : io.output.next with
      | none =>
          simp only [Exchange.streams, hw] at hj
          simp only [Exchange.streams, hnext, hw]
          exact hio.items j hj
      | some g =>
          simp only [Exchange.streams, hw] at hj
          simp only [Exchange.streams, hnext, hw]
          exact hio.items j hj

theorem runSupplied_succ (supply : Supply) (fuel fetched : Nat) (hk : ∀ k ∈ limit, s.steps < k) :
    m.runSupplied supply limit (fuel + 1) s io fetched =
      match m.advance 1 s (m.supplied supply s io fetched).1 with
      | ⟨.paused, s₁, io₁⟩ =>
          m.runSupplied supply limit fuel s₁ io₁ (m.supplied supply s io fetched).2
      | halt => some halt := by
  have hany : ¬limit.any (fun k => decide (k ≤ s.steps)) = true := by
    cases limit with
    | none => exact Bool.false_ne_true
    | some k => simpa using hk k rfl
  exact if_neg hany

/-- **A run that is supplied with zero bytes comes to what a run comes to that reads them from its
input.** -/
theorem Runs.runSupplied_zeros {r : Nat} (hr : m.Runs limit s io h)
    (hreads : h.streams.input.reads ≤ r) (hio : io.ZerosBehind r io') (fetched : Nat) :
    ∃ h' n, (∀ fuel ≥ n, m.runSupplied .zeros limit fuel s io' fetched = some h') ∧
      h.SameAs h' := by
  induction hr generalizing io' fetched with
  | @finished s io hf =>
      by_cases hk : ∀ k ∈ limit, s.steps < k
      · obtain ⟨hbehind, _⟩ := supplied_zeros (m := m) (s := s) hio fetched
        refine ⟨⟨.finished, s, (m.supplied .zeros s io' fetched).1⟩, 1, ?_, rfl, rfl,
          hbehind.output, hbehind.reads⟩
        intro fuel hfuel
        obtain ⟨fuel, rfl⟩ := Nat.exists_eq_add_of_le' hfuel
        rw [runSupplied_succ _ _ _ hk, advance_finished 1 hf]
      · refine ⟨⟨.finished, s, io'⟩, 1, ?_, rfl, rfl, hio.output, hio.reads⟩
        intro fuel hfuel
        obtain ⟨fuel, rfl⟩ := Nat.exists_eq_add_of_le' hfuel
        obtain ⟨k, hlimit, hle⟩ : ∃ k, limit = some k ∧ k ≤ s.steps := by simpa using hk
        rw [runSupplied, hlimit, if_pos (by simpa using hle)]
        exact run_finished 0 hf
  | @limited s io k hf hlimit hk =>
      refine ⟨⟨.failed (error s (.stepLimit k)), s, io'⟩, 1, ?_, rfl, rfl, hio.output, hio.reads⟩
      intro fuel hfuel
      obtain ⟨fuel, rfl⟩ := Nat.exists_eq_add_of_le' hfuel
      rw [runSupplied, hlimit, if_pos (by simpa using hk)]
      exact congrArg some (runUpTo_limit hf hk)
  | @failed s s₁ io io₁ f hf hk hs =>
      obtain ⟨hbehind, hholds⟩ := supplied_zeros (m := m) (s := s) hio fetched
      obtain ⟨io₁', hs', hbehind'⟩ := step_zeros hbehind hholds hs hreads
      refine ⟨⟨.failed f, s₁, io₁'⟩, 1, ?_, rfl, rfl, hbehind'.output, hbehind'.reads⟩
      intro fuel hfuel
      obtain ⟨fuel, rfl⟩ := Nat.exists_eq_add_of_le' hfuel
      rw [runSupplied_succ _ _ _ hk, advance_fail 0 hf hs']
  | @step s s₁ io io₁ h hf hk hs hrest ih =>
      obtain ⟨hbehind, hholds⟩ := supplied_zeros (m := m) (s := s) hio fetched
      obtain ⟨io₁', hs', hbehind'⟩ :=
        step_zeros hbehind hholds hs (Nat.le_trans hrest.reads_le hreads)
      cases hf₁ : m.finished s₁ with
      | true =>
          -- The supplied run looks for the end of the program as soon as the step is made.
          have heq := hrest.unique (.finished hf₁)
          subst heq
          refine ⟨⟨.finished, s₁, io₁'⟩, 1, ?_, rfl, rfl, hbehind'.output, hbehind'.reads⟩
          intro fuel hfuel
          obtain ⟨fuel, rfl⟩ := Nat.exists_eq_add_of_le' hfuel
          rw [runSupplied_succ _ _ _ hk, advance_done 0 hf hs', advance_finished 0 hf₁]
      | false =>
          obtain ⟨h', n, hn, hsame⟩ := ih hreads hbehind' (m.supplied .zeros s io' fetched).2
          refine ⟨h', n + 1, ?_, hsame⟩
          intro fuel hfuel
          obtain ⟨fuel, rfl⟩ := Nat.exists_eq_add_of_le' (Nat.le_trans (Nat.le_add_left 1 n) hfuel)
          rw [runSupplied_succ _ _ _ hk, advance_done 0 hf hs']
          simp only [advance, hf₁, Bool.false_eq_true, if_false]
          exact hn fuel (Nat.le_of_succ_le_succ hfuel)

/-! ## What a run counts -/

theorem Runs.exists_trail (hr : m.Runs limit s io h) :
    ∃ n, (m.trail n s io).state = h.state ∧ (m.trail n s io).streams = h.streams := by
  obtain ⟨n, hn⟩ := hr.run
  have htrail := trail_runAttempts (hn n (Nat.le_refl n))
  exact ⟨_, by rw [htrail], by rw [htrail]⟩

/-- **A run counts the bytes that it writes.** -/
theorem Runs.bytesWritten (hp : m.program.Paired) (hs : s.InRange m) (hr : m.Runs limit s io h) :
    h.state.bytesWritten + io.output.bytes.size = s.bytesWritten + h.streams.output.bytes.size := by
  obtain ⟨n, hstate, hstreams⟩ := hr.exists_trail
  have hthread := trail_thread m n s io
  have hlinked := trail_linked m n s io
  have haccounted := hthread.accounted hp hs
  have hcount := hthread.bytesWritten haccounted
  have hbytes := hlinked.bytes fun a ha => ⟨m.config, haccounted a ha⟩
  rw [hstate] at hcount
  rw [hstreams] at hbytes
  have hsize : h.streams.output.bytes.size =
      io.output.bytes.size + (m.trail n s io).attempts.countP (·.written?.isSome) := by
    rw [hbytes, Array.size_append]
    exact congrArg (io.output.bytes.size + ·) List.length_filterMap_eq_countP
  omega

/-! ## Attempts that do not complete -/

theorem attempt_of_mem {n : Nat} {a : Attempt} (ha : a ∈ m.advanceAttempts n s io) :
    a = m.attempt a.state a.streams := by
  induction n generalizing s io with
  | zero => cases ha
  | succ n ih =>
      unfold advanceAttempts at ha
      split at ha
      · cases ha
      · dsimp only at ha
        split at ha
        · rcases List.mem_cons.mp ha with rfl | ha
          · rfl
          · exact ih ha
        · obtain rfl := List.mem_singleton.mp ha
          rfl

theorem advance_of_mem {n : Nat} {a : Attempt} {f : Fault} (ha : a ∈ m.advanceAttempts n s io)
    (hf : a.outcome.fault = some f) :
    m.advance n s io = ⟨.failed f, a.outcome.state, a.outcome.streams⟩ := by
  induction n generalizing s io with
  | zero => cases ha
  | succ n ih =>
      unfold advanceAttempts at ha
      unfold advance
      split at ha
      · cases ha
      · rename_i hfinished
        rw [if_neg hfinished]
        simp only [attempt] at ha
        cases hs : m.step s io with
        | mk fault s₁ io₁ =>
            rw [hs] at ha
            cases fault with
            | none =>
                rcases List.mem_cons.mp ha with rfl | ha
                · cases hf
                · exact ih ha
            | some g =>
                obtain rfl := List.mem_singleton.mp ha
                cases hf
                rfl

/-- **A run fails with the attempt that does not complete.** -/
theorem run_of_mem {fuel : Nat} {a : Attempt} {f : Fault} (ha : a ∈ m.runAttempts fuel limit s io)
    (hf : a.outcome.fault = some f) :
    m.run fuel limit s io = some ⟨.failed f, a.outcome.state, a.outcome.streams⟩ := by
  cases limit with
  | none => exact runFor_eq_some_iff.mpr ⟨advance_of_mem ha hf, nofun⟩
  | some k =>
      have hadvance := advance_of_mem (n := (k - s.steps).toNat) ha hf
      simp only [run, runUpTo, hadvance]

theorem outcome_of_reading {g : StreamFault} (h : (m.attempt s io).reading? = some (.fault g)) :
    m.step s io = .fail (streamFault s g) s ⟨io.input.advance, io.output⟩ := by
  rw [reading?_attempt] at h
  split at h
  · rename_i hread
    obtain ⟨fault, state, _, hstep⟩ := m.step_governed s
    have hresponse : (m.exchange s).response io = .error g := by
      rw [hread, Exchange.response, Option.some.inj h]
    rw [hstep, hresponse, hread]
    rfl
  · cases h

/-- **A run whose read call raises a fault fails with it**, having written what it has written
before. -/
theorem run_of_reading {fuel : Nat} {a : Attempt} {g : StreamFault}
    (ha : a ∈ m.runAttempts fuel limit s io) (hg : a.reading? = some (.fault g)) :
    m.run fuel limit s io =
      some ⟨.failed (streamFault a.state g), a.state,
        ⟨a.streams.input.advance, a.streams.output⟩⟩ := by
  have hattempt : a = m.attempt a.state a.streams := by
    cases limit with
    | none => exact attempt_of_mem ha
    | some k => exact attempt_of_mem ha
  rw [hattempt] at hg
  have houtcome : a.outcome = .fail (streamFault a.state g) a.state ⟨a.streams.input.advance,
    a.streams.output⟩ :=
    (congrArg Attempt.outcome hattempt).trans (outcome_of_reading hg)
  rw [run_of_mem ha (congrArg Step.fault houtcome), houtcome]
  rfl

end Machine

end TapeLang
