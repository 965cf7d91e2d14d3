import TapeLang.Proofs.Machine.Account

/-!
# A run depends on no more of its input than it has consumed

* `Input.item` — what a later read call will bring; `Streams.AgreeUpTo` — streams that bring the
  same up to some call.
* `AgreeUpTo.response`, `AgreeUpTo.step` — a step that has not asked beyond that call does the same
  on both.
* `Trail.SameAs`, `trail_sameAs` — and so do attempts in a row, by induction on their number.
* `reads_trail_of_ne_read`, `reads_trail_of_reachedEof` — attempts that are no reads, and those
  behind the end of the input, ask for nothing.
* `trail_consumed` — all together, for the attempts of a loaded program on two inputs.
-/

namespace TapeLang

/-- What the read call behind `j` others brings. Behind its last item an input has ended. -/
def Input.item (input : Input) (j : Nat) : Reading :=
  input.pending.getD j (.chunk [])

namespace Input

variable (input : Input)

theorem next_eq_item : input.next = input.item 0 := by
  obtain ⟨_ | ⟨r, rest⟩, reads⟩ := input <;> rfl

theorem item_advance (j : Nat) : input.advance.item j = input.item (j + 1) := by
  obtain ⟨_ | ⟨r, rest⟩, reads⟩ := input <;> simp [item, advance]

end Input

/-- **Streams that are alike up to read call `r`**, counted from the first that was ever made: they
bring the same until then, and what is written goes to the same output. -/
structure Streams.AgreeUpTo (r : Nat) (io io' : Streams) : Prop where
  reads : io'.input.reads = io.input.reads
  items : ∀ j, io.input.reads + j < r → io'.input.item j = io.input.item j
  output : io'.output = io.output

namespace Streams.AgreeUpTo

variable {r : Nat} {io io' : Streams}

/-- **One exchange** that does not ask beyond call `r` has the same answer. -/
theorem response (h : io.AgreeUpTo r io') (e : Exchange) (hr : (e.streams io).input.reads ≤ r) :
    e.response io' = e.response io ∧ (e.streams io).AgreeUpTo r (e.streams io') := by
  cases e with
  | silent => exact ⟨rfl, h⟩
  | read =>
      have hlt : io.input.reads + 0 < r := hr
      have hnext : io'.input.next = io.input.next := by
        rw [Input.next_eq_item, Input.next_eq_item, h.items 0 hlt]
      refine ⟨by simp only [Exchange.response, hnext], congrArg (· + 1) h.reads, ?_, h.output⟩
      intro j hj
      have hj' : io.input.reads + (j + 1) < r := by
        simp only [Exchange.streams, Input.advance] at hj
        omega
      simp only [Exchange.streams, Input.item_advance, h.items (j + 1) hj']
  | write b =>
      have hnext : io'.output.next = io.output.next := by rw [h.output]
      refine ⟨by simp only [Exchange.response, hnext], ?_⟩
      cases hw : io.output.next with
      | none =>
          simp only [Exchange.streams, hnext, hw]
          exact ⟨h.reads, h.items, by rw [h.output]⟩
      | some g =>
          simp only [Exchange.streams, hnext, hw]
          exact ⟨h.reads, h.items, by rw [h.output]⟩

/-- **One step** that does not ask beyond call `r` does the same. -/
theorem step (h : io.AgreeUpTo r io') (m : Machine) (s : State)
    (hr : (m.step s io).streams.input.reads ≤ r) :
    (m.step s io').fault = (m.step s io).fault ∧ (m.step s io').state = (m.step s io).state ∧
      (m.step s io).streams.AgreeUpTo r (m.step s io').streams := by
  rw [Machine.step_streams] at hr
  obtain ⟨hresponse, hrest⟩ := h.response (m.exchange s) hr
  obtain ⟨fault, state, _, hstep⟩ := m.step_governed s
  rw [← Machine.step_streams, ← Machine.step_streams] at hrest
  refine ⟨?_, ?_, hrest⟩
  · rw [hstep, hstep, hresponse]
    cases (m.exchange s).response io <;> rfl
  · rw [hstep, hstep, hresponse]
    cases (m.exchange s).response io <;> rfl

end Streams.AgreeUpTo

/-- **Attempts that are the same to all appearances**: what is raised, the state they lead to with
its tape and its counters, what is written and how often the streams are called. -/
structure Trail.SameAs (t t' : Trail) : Prop where
  faults : t'.faults = t.faults
  state : t'.state = t.state
  output : t'.streams.output = t.streams.output
  reads : t'.streams.input.reads = t.streams.input.reads

namespace Machine

open State (InRange)

variable {m : Machine} {s : State} {io io' : Streams}

/-! ## Attempts in a row -/

theorem reads_le_step (m : Machine) (s : State) (io : Streams) :
    io.input.reads ≤ (m.step s io).streams.input.reads := by
  rw [step_streams]
  cases m.exchange s with
  | silent => exact Nat.le_refl _
  | read => exact Nat.le_succ _
  | write b => cases hw : io.output.next <;> simp [Exchange.streams, hw]

theorem reads_le_trail (n : Nat) (s : State) (io : Streams) :
    io.input.reads ≤ (m.trail n s io).streams.input.reads := by
  induction n generalizing s io with
  | zero => exact Nat.le_refl _
  | succ n ih => exact Nat.le_trans (m.reads_le_step s io) (ih _ _)

/-- **Attempts that do not ask beyond read call `r` are the same on streams that agree up to
it.** -/
theorem trail_sameAs {r : Nat} (n : Nat) (s : State) {io io' : Streams} (h : io.AgreeUpTo r io')
    (hr : (m.trail n s io).streams.input.reads ≤ r) :
    (m.trail n s io).SameAs (m.trail n s io') ∧
      (m.trail n s io).streams.AgreeUpTo r (m.trail n s io').streams := by
  induction n generalizing s io io' with
  | zero => exact ⟨⟨rfl, rfl, h.output, h.reads⟩, h⟩
  | succ n ih =>
      -- The calls are counted upwards, so that what the last attempt keeps to, the first one does.
      have hfirst : (m.step s io).streams.input.reads ≤ r := Nat.le_trans (reads_le_trail n _ _) hr
      obtain ⟨hfault, hstate, hstreams⟩ := h.step m s hfirst
      obtain ⟨hsame, hrest⟩ := ih (m.step s io).state hstreams hr
      simp only [trail, attempt, hstate]
      exact ⟨⟨congrArg₂ List.cons hfault hsame.faults, hsame.state, hsame.output, hsame.reads⟩,
        hrest⟩

/-! ## Attempts that ask for nothing -/

theorem upcoming_of_exchange_read (h : m.exchange s = .read) : m.upcoming s = some .read := by
  unfold exchange at h
  unfold upcoming
  split at h
  · cases h
  · rename_i hf
    rw [if_neg hf]
    cases hget : m.program.get s.ip with
    | error f =>
        rw [hget] at h
        cases h
    | ok op =>
        rw [hget] at h
        cases op with
        | read => rfl
        | write =>
            dsimp only at h
            split at h <;> cases h
        | _ => cases h

theorem reads_step_of_exchange_ne_read (h : m.exchange s ≠ .read) (io : Streams) :
    (m.step s io).streams.input.reads = io.input.reads := by
  rw [step_streams]
  cases he : m.exchange s with
  | silent => rfl
  | read => exact absurd he h
  | write b => cases hw : io.output.next <;> simp [Exchange.streams, hw]

theorem reads_trail_of_ne_read (n : Nat) (s : State) (io : Streams)
    (h : ∀ a ∈ (m.trail n s io).attempts, a.op ≠ some .read) :
    (m.trail n s io).streams.input.reads = io.input.reads := by
  induction n generalizing s io with
  | zero => rfl
  | succ n ih =>
      obtain ⟨hfirst, hlater⟩ := List.forall_mem_cons.mp h
      have hexchange : m.exchange s ≠ .read := fun he => hfirst (upcoming_of_exchange_read he)
      exact (ih _ _ hlater).trans (reads_step_of_exchange_ne_read hexchange io)

theorem reads_trail_of_reachedEof (hp : m.program.Paired) (n : Nat) (hs : s.InRange m)
    (heof : s.reachedEof = true) (io : Streams) :
    (m.trail n s io).streams.input.reads = io.input.reads := by
  induction n generalizing s io with
  | zero => rfl
  | succ n ih =>
      obtain ⟨hasks, heof'⟩ := attempt_asksNoMore hs heof io
      have hfirst : (m.step s io).streams.input = io.input := hasks.behind
      exact (ih (step_safe hp hs (.refl io)).state heof' _).trans (congrArg Input.reads hfirst)

/-! ## Two inputs -/

/-- **A run depends on no more of its input than it has consumed.** Let two inputs bring the same at
their first `r` read calls. If the first `n` attempts on the one make no more calls than that, they
are the same on the other: the same is raised, and they lead to the same state, the same output and
the same numbers of calls. So attempts none of which is a read are the same on every input; and when
the end of the input has been found, all that follows is the same too, whatever the inputs hold
behind it. -/
theorem trail_consumed {source : List UInt8} {p : Program} (hload : Program.load source = .ok p)
    (config : Config) (n : Nat) (output : Output) (xs ys : List Reading) (r : Nat)
    (hitems : ∀ j < r, ys.getD j (.chunk []) = xs.getD j (.chunk [])) :
    let m : Machine := ⟨p, config⟩
    let on (zs : List Reading) (k : Nat) : Trail := m.trail k m.start ⟨⟨zs, 0⟩, output⟩
    ((on xs n).streams.input.reads ≤ r → (on xs n).SameAs (on ys n)) ∧
      ((∀ a ∈ (on xs n).attempts, a.op ≠ some .read) → ∀ zs, (on xs n).SameAs (on zs n)) ∧
      ((on xs n).streams.input.reads ≤ r → (on xs n).state.reachedEof = true →
        ∀ k, (on xs k).SameAs (on ys k)) := by
  intro m on
  have hp : m.program.Paired := Program.paired_of_load hload
  have hagree : Streams.AgreeUpTo r ⟨⟨xs, 0⟩, output⟩ ⟨⟨ys, 0⟩, output⟩ :=
    ⟨rfl, fun j hj => hitems j (Nat.zero_add j ▸ hj), rfl⟩
  refine ⟨fun hr => (trail_sameAs n m.start hagree hr).1, ?_, ?_⟩
  · intro hsilent zs
    have hnone : (on xs n).streams.input.reads = 0 := reads_trail_of_ne_read n m.start _ hsilent
    have hagree₀ : Streams.AgreeUpTo 0 ⟨⟨xs, 0⟩, output⟩ ⟨⟨zs, 0⟩, output⟩ :=
      ⟨rfl, fun j hj => absurd hj (Nat.not_lt_zero _), rfl⟩
    exact (trail_sameAs n m.start hagree₀ (Nat.le_of_eq hnone)).1
  · intro hr heof k
    refine (trail_sameAs k m.start hagree ?_).1
    -- Up to the end of the input the calls are among those of the first `n` attempts, and none
    -- comes behind it.
    rcases Nat.le_total k n with hle | hle
    · obtain ⟨d, rfl⟩ := Nat.exists_eq_add_of_le hle
      have hadd := trail_add m k d m.start ⟨⟨xs, 0⟩, output⟩
      refine Nat.le_trans ?_ hr
      show _ ≤ (m.trail (k + d) m.start _).streams.input.reads
      rw [hadd]
      exact reads_le_trail d _ _
    · obtain ⟨d, rfl⟩ := Nat.exists_eq_add_of_le hle
      have hs : (on xs n).state.InRange m :=
        ((trail_thread m n m.start _).inRange hp (inRange_start m)).1
      have hlater := reads_trail_of_reachedEof hp d hs heof (on xs n).streams
      show (m.trail (n + d) m.start _).streams.input.reads ≤ r
      rw [trail_add]
      exact hlater.symm ▸ hr

/-- Two inputs that differ behind their end only, where one goes on and the other raises: three
reads and a write come to the same on both. -/
theorem trail_consumed_behind_end :
    let p : Program := ⟨[0x2C, 0x2C, 0x2C, 0x2E], #[.read, .read, .read, .write], #[0, 1, 2, 3],
      #[none, none, none, none]⟩
    let m : Machine := ⟨p, { eof := .zero, tapeLength := 2 }⟩
    let on (zs : List Reading) (k : Nat) : Trail := m.trail k m.start ⟨⟨zs, 0⟩, {}⟩
    let xs : List Reading := [.chunk [0x41], .nothing, .chunk [0x42]]
    let ys : List Reading := [.chunk [0x41], .nothing, .fault ⟨.invalid, "closed"⟩]
    Program.load p.source = .ok p ∧ (∀ j < 2, ys.getD j (.chunk []) = xs.getD j (.chunk [])) ∧
      (on xs 2).streams.input.reads = 2 ∧ (on xs 2).state.reachedEof = true ∧
      (on ys 4).faults = [none, none, none, none] ∧ (on ys 4).streams.output.bytes = #[0] := by
  intro p m on xs ys
  have hload : Program.load p.source = .ok p := by decide
  have hitems : ∀ j < 2, ys.getD j (.chunk []) = xs.getD j (.chunk []) := by decide
  have hreads : (on xs 2).streams.input.reads = 2 := by decide +kernel
  have hend : (on xs 2).state.reachedEof = true := by decide +kernel
  have hfaults : (on xs 4).faults = [none, none, none, none] := by decide +kernel
  have hbytes : (on xs 4).streams.output.bytes = #[0] := by decide +kernel
  have hsame : (on xs 4).SameAs (on ys 4) :=
    (trail_consumed hload m.config 2 {} xs ys 2 hitems).2.2 (Nat.le_of_eq hreads) hend 4
  exact ⟨hload, hitems, hreads, hend, hsame.faults.trans hfaults,
    (congrArg Output.bytes hsame.output).trans hbytes⟩

end Machine

end TapeLang
