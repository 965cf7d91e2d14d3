import TapeLang.Proofs.Machine.Exchange

/-!
# Faults of the streams leave no trace behind a retry

* `Streams.Disturbed` — streams that do what others do without faults, but with faults put in
  between: reads that raise, and write calls that raise up to some call. `Streams.faultsLeft` bounds
  how many may still come.
* `Input.next_of_filter`, `Disturbed.response`, `Disturbed.step` — one read, one exchange and one
  step: either a fault is used up and nothing else happens, or both runs do the same.
* `persist_agrees`, `exists_persist` — by induction on the calls that are made: who calls again
  after every such fault comes to where the undisturbed run is, and does so after finitely many
  calls.
* `persist_eq_steps` — both together.
-/

namespace TapeLang

def Reading.isFault : Reading → Bool
  | .fault _ => true
  | _ => false

namespace Streams

/-- **`io'` is `io` with faults put in**: `io` raises none. The input of `io'` brings what that of
`io` brings, but for the reads that raise; its output has stored the same, and its write calls may
raise up to call `calls`. -/
structure Disturbed (calls : Nat) (io io' : Streams) : Prop where
  input : io'.input.pending.filter (!·.isFault) = io.input.pending
  reliable : ∀ call, io.output.plan call = none
  recovers : ∀ call, calls ≤ call → io'.output.plan call = none
  bytes : io'.output.bytes = io.output.bytes

/-- A bound to the faults that are still to come. -/
def faultsLeft (calls : Nat) (io : Streams) : Nat :=
  io.input.pending.countP Reading.isFault + (calls - io.output.writes)

end Streams

/-- One read on an input with faults put in: it raises, or it brings what the input without them
brings. -/
theorem Input.next_of_filter {input input' : Input}
    (h : input'.pending.filter (!·.isFault) = input.pending) :
    (∃ g, input'.next = .fault g ∧ input'.advance.pending.filter (!·.isFault) = input.pending ∧
      input'.advance.pending.countP Reading.isFault < input'.pending.countP Reading.isFault) ∨
    input'.next = input.next ∧ input'.next.isFault = false ∧
      input'.advance.pending.filter (!·.isFault) = input.advance.pending ∧
      input'.advance.pending.countP Reading.isFault ≤ input'.pending.countP Reading.isFault := by
  obtain ⟨pending, reads⟩ := input
  obtain ⟨pending', reads'⟩ := input'
  dsimp only at h
  subst h
  rcases pending' with _ | ⟨r, rest⟩
  · exact .inr ⟨rfl, rfl, rfl, Nat.le_refl _⟩
  · cases hr : r.isFault with
    | true =>
        cases r with
        | fault g => exact .inl ⟨g, rfl, by simp [advance, hr], by simp [advance, hr]⟩
        | chunk bytes => cases hr
        | nothing => cases hr
    | false => exact .inr ⟨by simp [next, hr], hr, by simp [advance, hr], by simp [advance, hr]⟩

namespace Streams.Disturbed

variable {calls : Nat} {io io' : Streams}

/-- **One exchange**: a fault is used up, or both streams answer the same. -/
theorem response (h : Disturbed calls io io') (e : Exchange) :
    (∃ g, e.response io' = .error g ∧ Disturbed calls io (e.streams io') ∧
      (e.streams io').faultsLeft calls < io'.faultsLeft calls) ∨
    ∃ b, e.response io' = .ok b ∧ e.response io = .ok b ∧
      Disturbed calls (e.streams io) (e.streams io') ∧
      (e.streams io').faultsLeft calls ≤ io'.faultsLeft calls := by
  cases e with
  | silent => exact .inr ⟨none, rfl, rfl, h, Nat.le_refl _⟩
  | read =>
      rcases Input.next_of_filter h.input with ⟨g, hg, hrest, hlt⟩ | ⟨hnext, hfault, hrest, hle⟩
      · exact .inl ⟨g, by simp only [Exchange.response, hg],
          ⟨hrest, h.reliable, h.recovers, h.bytes⟩,
          Nat.add_lt_add_right hlt _⟩
      · have hok : Exchange.read.response io' = .ok io'.input.next.byte? := by
          unfold Exchange.response
          cases hr : io'.input.next with
          | fault g => cases hr ▸ hfault
          | _ => rfl
        refine .inr ⟨_, hok, ?_, ⟨hrest, h.reliable, h.recovers, h.bytes⟩,
          Nat.add_le_add_right hle _⟩
        rw [← hok]
        simp only [Exchange.response, hnext]
  | write b =>
      have hnext : io.output.next = none := h.reliable _
      cases hnext' : io'.output.next with
      | some g =>
          have hlt : io'.output.writes < calls := by
            by_contra hle
            cases (h.recovers _ (Nat.le_of_not_lt hle)).symm.trans hnext'
          refine .inl ⟨g, by simp only [Exchange.response, hnext'], ?_, ?_⟩
          · rw [Exchange.streams, hnext']
            exact ⟨h.input, h.reliable, h.recovers, h.bytes⟩
          · rw [Exchange.streams, hnext']
            simp only [faultsLeft, Output.reject]
            omega
      | none =>
          refine .inr ⟨none, by simp only [Exchange.response, hnext'],
            by simp only [Exchange.response, hnext], ?_, ?_⟩
          · rw [Exchange.streams, Exchange.streams, hnext, hnext']
            exact ⟨h.input, h.reliable, h.recovers, congrArg (·.push b) h.bytes⟩
          · rw [Exchange.streams, hnext']
            simp only [faultsLeft, Output.accept]
            omega

/-- **One step**: a stream keeps it from completing and nothing has changed, or it does the same on
both streams. -/
theorem step (h : Disturbed calls io io') (m : Machine) (s : State) :
    (∃ f io'', m.step s io' = .fail f s io'' ∧ f.ofStream = true ∧ Disturbed calls io io'' ∧
      io''.faultsLeft calls < io'.faultsLeft calls) ∨
    ∃ fault s₁ io₁ io₁', m.step s io = ⟨fault, s₁, io₁⟩ ∧ m.step s io' = ⟨fault, s₁, io₁'⟩ ∧
      (∀ f, fault = some f → f.ofStream = false) ∧ Disturbed calls io₁ io₁' ∧
      io₁'.faultsLeft calls ≤ io'.faultsLeft calls := by
  obtain ⟨fault, state, hown, hstep⟩ := m.step_governed s
  rcases h.response (m.exchange s) with ⟨g, hg, hrest, hlt⟩ | ⟨b, hb', hb, hrest, hle⟩
  · exact .inl ⟨_, _, by rw [hstep, hg], Machine.streamFault_ofStream s g, hrest, hlt⟩
  · exact .inr ⟨fault b, state b, _, _, by rw [hstep, hb], by rw [hstep, hb'], hown b, hrest, hle⟩

end Streams.Disturbed

namespace Machine

variable {m : Machine} {calls : Nat}

/-! ## Whole runs -/

/-- **Who calls again after every fault of a stream comes to where the undisturbed run is.** -/
theorem persist_agrees (attempts : Nat) :
    ∀ {n : Nat} {s : State} {io io' : Streams} {r : Step}, io.Disturbed calls io' →
      m.persist attempts n s io' = some r →
      r.fault = (m.steps n s io).fault ∧ r.state = (m.steps n s io).state ∧
        r.streams.output.bytes = (m.steps n s io).streams.output.bytes := by
  -- On the calls, not on the steps: a call that a fault ends brings the run no step further.
  induction attempts with
  | zero =>
      intro n s io io' r h hr
      cases n with
      | zero =>
          cases hr
          exact ⟨rfl, rfl, h.bytes⟩
      | succ n => cases hr
  | succ attempts ih =>
      intro n s io io' r h hr
      cases n with
      | zero =>
          cases hr
          exact ⟨rfl, rfl, h.bytes⟩
      | succ n =>
          rw [persist] at hr
          rcases h.step m s with
            ⟨f, io'', hfail, hstream, hrest, _⟩ | ⟨fault, s₁, io₁, io₁', hs, hs', hown, hrest, _⟩
          · simp only [hfail, Step.fail, hstream, if_true] at hr
            exact ih hrest hr
          · rw [hs'] at hr
            rw [steps, hs]
            cases fault with
            | none => exact ih hrest hr
            | some f =>
                simp only [hown f rfl, Bool.false_eq_true, if_false] at hr
                cases hr
                exact ⟨rfl, rfl, hrest.bytes⟩

/-- As many calls are enough as there are steps to be made and faults to come. -/
theorem exists_persist (attempts : Nat) :
    ∀ {n : Nat} {s : State} {io io' : Streams}, io.Disturbed calls io' →
      n + io'.faultsLeft calls ≤ attempts →
      ∃ r, m.persist attempts n s io' = some r := by
  induction attempts with
  | zero =>
      intro n s io io' h hle
      obtain rfl : n = 0 := by omega
      exact ⟨_, rfl⟩
  | succ attempts ih =>
      intro n s io io' h hle
      cases n with
      | zero => exact ⟨_, rfl⟩
      | succ n =>
          rw [persist]
          rcases h.step m s with
            ⟨f, io'', hfail, hstream, hrest, hlt⟩ |
            ⟨fault, s₁, io₁, io₁', _, hs', hown, hrest, hle'⟩
          · simp only [hfail, Step.fail, hstream, if_true]
            exact ih hrest (by omega)
          · rw [hs']
            cases fault with
            | none => exact ih hrest (by omega)
            | some f => exact ⟨_, by simp only [hown f rfl, Bool.false_eq_true, if_false]; rfl⟩

/-- **Faults of the streams leave no trace behind a retry.** A step that a stream keeps from
completing is called again: then, for every `n`, it takes finitely many calls until `n` steps have
completed or an error has arisen that is none of the streams'; and the error, if there is one, the
whole state and the bytes written are those of the run without faults. -/
theorem persist_eq_steps (m : Machine) (s : State) {io io' : Streams} (h : io.Disturbed calls io')
    (n : Nat) :
    (∀ attempts, n + io'.faultsLeft calls ≤ attempts → ∃ r, m.persist attempts n s io' = some r) ∧
      ∀ attempts r, m.persist attempts n s io' = some r →
        r.fault = (m.steps n s io).fault ∧ r.state = (m.steps n s io).state ∧
          r.streams.output.bytes = (m.steps n s io).streams.output.bytes :=
  ⟨fun attempts hle => exists_persist attempts h hle, fun attempts _ hr =>
    persist_agrees attempts h hr⟩

/-- Reading a byte and writing it, where the first read and the first write raise: four calls for
two steps. -/
theorem persist_eq_steps_echo :
    let m : Machine :=
      ⟨⟨[0x2C, 0x2E], #[.read, .write], #[0, 1], #[none, none]⟩, { tapeLength := 2 }⟩
    let io : Streams := ⟨.ofBytes [0x41], {}⟩
    let io' : Streams :=
      ⟨⟨[.fault ⟨.invalid, "closed"⟩, .chunk [0x41]], 0⟩,
        { plan := Output.failingFrom 0 true ⟨.system none, "full"⟩ }⟩
    io.Disturbed 1 io' ∧
      ∃ r, m.persist 4 2 m.start io' = some r ∧ r.fault = none ∧
        r.state = (m.steps 2 m.start io).state ∧
        r.streams.output.bytes = #[0x41] := by
  intro m io io'
  have h : io.Disturbed 1 io' := by
    refine ⟨rfl, fun _ => rfl, ?_, rfl⟩
    intro call hcall
    have hlater : call ≠ 0 := by omega
    simp [io', Output.failingFrom, hlater]
  obtain ⟨hends, hagrees⟩ := persist_eq_steps m m.start h 2
  obtain ⟨r, hr⟩ := hends 4 (by decide)
  obtain ⟨hfault, hstate, hbytes⟩ := hagrees 4 r hr
  exact ⟨h, r, hr, hfault, hstate, hbytes⟩

end Machine

end TapeLang
