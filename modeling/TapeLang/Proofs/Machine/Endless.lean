import TapeLang.Proofs.Machine.Loops

/-!
# Loops that never end

* `Machine.Endless` — states and streams that no step leaves and where the program goes on;
  `Endless.steps`, `Endless.run`, `Endless.call_step`, `Endless.call_execute` — in one of them steps
  never fail or end, and a run stops only at its limit.
* `Program.Inert` — a loop whose body writes, or opens and closes loops of its own; `Output.Takes` —
  an output that takes all that is written.
* `State.Circles`, `step_inert`, `endless_inert` — such a loop is closed: on a value that is not
  zero its brackets, and those inside it, lead to places behind the opening one.
* `reachable_inert` — so it never ends, for the reachable states of loaded programs.
-/

namespace TapeLang

open State (Within)

namespace Machine

variable {m : Machine} {P : State → Streams → Prop} {s : State} {io : Streams}

/-! ## Closed sets of states -/

/-- **States and streams that no step leaves**, and in which every step completes and the program
goes on. -/
structure Endless (m : Machine) (P : State → Streams → Prop) : Prop where
  unfinished : ∀ s io, P s io → m.finished s = false
  step : ∀ s io, P s io → ∃ s' io', m.step s io = .done s' io' ∧ P s' io'

namespace Endless

variable (h : m.Endless P)

include h

theorem steps (hs : P s io) (n : Nat) : ∃ s' io', m.steps n s io = .done s' io' ∧ P s' io' := by
  induction n generalizing s io with
  | zero => exact ⟨s, io, rfl, hs⟩
  | succ n ih =>
      obtain ⟨s₁, io₁, hstep, hs₁⟩ := h.step s io hs
      obtain ⟨s', io', hsteps, hs'⟩ := ih hs₁
      exact ⟨s', io', (steps_succ_done n hstep).trans hsteps, hs'⟩

theorem run (hs : P s io) (fuel : Nat) : m.run fuel none s io = none := by
  have hf := h.unfinished s io hs
  induction fuel generalizing s io with
  | zero => simp [Machine.run, runFor, advance, hf]
  | succ fuel ih =>
      obtain ⟨s₁, io₁, hstep, hs₁⟩ := h.step s io hs
      rw [run_done fuel hf (by simp) hstep]
      exact ih hs₁ (h.unfinished s₁ io₁ hs₁)

theorem call_step (hs : P s io) (fuel : Nat) :
    ∃ a, m.call fuel .step s io = some a ∧ a.reply = .ok (.stepped true) := by
  obtain ⟨s₁, io₁, hstep, hs₁⟩ := h.step s io hs
  refine ⟨_, rfl, ?_⟩
  rw [hstep]
  simp [stepAnswer, Step.done, h.unfinished s₁ io₁ hs₁]

/-- **Every step limit is reached.** The run is made of steps, and neither a failure nor the end of
the program is what stops it. -/
theorem call_execute (hs : P s io) (fuel : Nat) (k : Int) :
    ∃ a x, m.call fuel (.execute (some k)) s io = some a ∧ a.reply = .ok (.reported x) ∧
      x.error = some ⟨.stepLimit k, a.state.ip, a.state.dp⟩ := by
  obtain ⟨n, hmade⟩ := exists_madeOf m k s io
  obtain ⟨s', io', hsteps, hs'⟩ := h.steps hs n
  have hends := hmade.ends
  have hstate := hmade.state
  rw [hsteps] at hends hstate
  have hf : m.finished s' = false := h.unfinished s' io' hs'
  have hlimit : k ≤ s'.steps := Int.not_lt.mp fun hlt => hends ⟨rfl, hf, hlt⟩
  have hreports : (m.runUpTo k s io).ReportsLimit := by
    rw [hmade.limit_iff, hsteps, hstate]
    exact ⟨rfl, hf, hlimit⟩
  have hreply := congrArg (Except.map Reply.reported) (hmade.limit_eq hreports)
  exact ⟨_, ⟨some _, _⟩, rfl, hreply, rfl⟩

end Endless

end Machine

/-! ## Inert loops -/

/-- **A loop whose body changes no cell and moves nowhere**: it writes, or opens and closes loops of
its own. -/
structure Program.Inert (p : Program) (i j : Nat) : Prop where
  loop : p.Loop i j
  body : ∀ k op, i < k → k < j → p.instructions[k]? = some op → op = .write ∨ op = .loopOpen ∨
    op = .loopClose

/-- From now on the output takes all that is written. -/
def Output.Takes (o : Output) : Prop :=
  ∀ call ≥ o.writes, o.plan call = none

theorem Output.Takes.next_eq {o : Output} (h : o.Takes) : o.next = none :=
  h o.writes (Nat.le_refl _)

theorem Output.Takes.accept {o : Output} (h : o.Takes) (b : UInt8) : (o.accept b).Takes :=
  fun call hcall => h call (Nat.le_of_succ_le hcall)

/-- **Inside the loop from `i` to `j`**, with the tape and the data pointer of `s`, and an output
that takes all. -/
structure State.Circles (i j : Nat) (s s' : State) (io' : Streams) : Prop where
  within : s'.Within i j
  tape : s'.tape = s.tape
  dp : s'.dp = s.dp
  output : io'.output.Takes

theorem Program.Inert.instruction {p : Program} {i j k : Nat} (h : p.Inert i j) (hik : i ≤ k)
    (hkj : k ≤ j) :
    (p.instructions[k]? = some .write ∧ k < j) ∨ (p.instructions[k]? = some .loopOpen ∧ k < j) ∨
      p.instructions[k]? = some .loopClose := by
  have hlt := h.loop.lt
  rcases Nat.eq_or_lt_of_le hik with rfl | hik
  · exact .inr (.inl ⟨by rw [← Array.getElem?_toList]; exact h.loop.opens, hlt⟩)
  · rcases Nat.eq_or_lt_of_le hkj with rfl | hkj
    · exact .inr (.inr (by rw [← Array.getElem?_toList]; exact h.loop.closes))
    · have hsize : k < p.instructions.size := Nat.lt_trans hkj (lt_size_of_partners h.loop).2
      obtain ⟨op, hop⟩ : ∃ op, p.instructions[k]? = some op := ⟨_, Array.getElem?_eq_getElem hsize⟩
      rcases h.body k op hik hkj hop with rfl | rfl | rfl
      · exact .inl ⟨hop, hkj⟩
      · exact .inr (.inl ⟨hop, hkj⟩)
      · exact .inr (.inr hop)

namespace Machine

open State (Fits Circles)

variable {m : Machine} {s s' : State} {io io' : Streams} {i j : Nat}

/-- **A step inside an inert loop**, on a value that is not zero, leads to a place behind its
opening bracket: a write and an opening bracket lead to the next place, a closing bracket behind its
partner, which is inside the loop as well. -/
theorem step_inert (hp : m.program.Paired) (hloop : m.program.Inert i j) (h : s.Fits m.config)
    (hne : s.current ≠ 0) (hs : Circles i j s s' io) :
    ∃ s'' io'', m.step s' io = .done s'' io'' ∧ Circles i j s s'' io'' ∧ (i : Int) < s''.ip := by
  obtain ⟨⟨hlow, hhigh⟩, htape, hdp, hout⟩ := hs
  have hfits : s'.Fits m.config := h.congr htape hdp
  have hcurrent : s'.current ≠ 0 := by rwa [State.current, htape, hdp]
  obtain ⟨k, hk⟩ : ∃ k : Nat, s'.ip = k := ⟨s'.ip.toNat, by omega⟩
  rcases hloop.instruction (k := k) (by omega) (by omega) with ⟨hop, hkj⟩ | ⟨hop, hkj⟩ | hop
  · have hstep : m.step s' io = _ := (step_eq_perform hk hop io).trans (write_eq hfits io)
    rw [hout.next_eq] at hstep
    refine ⟨_, _, hstep, ⟨?_, htape, hdp, hout.accept _⟩, ?_⟩
    · exact ⟨show (i : Int) ≤ s'.ip + 1 by omega, show s'.ip + 1 ≤ (j : Int) by omega⟩
    · show (i : Int) < s'.ip + 1
      omega
  · obtain ⟨l, hl, _, _⟩ := hp.partner_open hop
    have hstep := step_opening hfits hk hop hl io
    rw [if_neg hcurrent] at hstep
    refine ⟨_, _, hstep, ⟨?_, htape, hdp, hout⟩, ?_⟩
    · exact ⟨show (i : Int) ≤ (k : Int) + 1 by omega, show (k : Int) + 1 ≤ (j : Int) by omega⟩
    · show (i : Int) < (k : Int) + 1
      omega
  · obtain ⟨l, hl, _, hpair⟩ := hp.partner_close hop
    have hlt := hpair.lt
    have hnest := hloop.loop.nested_or_apart hpair
    have hstep := step_closing hfits hk hop hl io
    rw [if_neg hcurrent] at hstep
    refine ⟨_, _, hstep, ⟨?_, htape, hdp, hout⟩, ?_⟩
    · exact ⟨show (i : Int) ≤ (l : Int) + 1 by omega, show (l : Int) + 1 ≤ (j : Int) by omega⟩
    · show (i : Int) < (l : Int) + 1
      omega

/-- **An inert loop is closed** on a value that is not zero. -/
theorem endless_inert (hp : m.program.Paired) (hloop : m.program.Inert i j) (h : s.Fits m.config)
    (hne : s.current ≠ 0) :
    m.Endless (Circles i j s) where
  unfinished s' io hs := by
    have hsize := (Program.lt_size_of_partners hloop.loop).2
    have hhigh := hs.within.2
    simp only [finished, decide_eq_false_iff_not]
    omega
  step s' io hs := by
    obtain ⟨s'', io'', hstep, hs'', _⟩ := step_inert hp hloop h hne hs
    exact ⟨s'', io'', hstep, hs''⟩

/-- **Inert loops never end.** In every reachable state of a loaded program that stands in front of
an opening bracket on a cell that is not zero, where the body of the loop is made of writes and of
brackets of its own, nested in any way, and on streams whose output takes all that is written: any
number of steps completes and leaves the data pointer and all of the tape as they are; behind the
first step the instruction pointer is always behind the opening bracket and not behind the closing
one. Wherever such steps lead, a call of `step` tells that the program goes on, a run fails with
every step limit that it is given, and without one it does not stop. -/
theorem reachable_inert {source : List UInt8} {p : Program} (hload : Program.load source = .ok p)
    (config : Config) {io₀ io : Streams} {s : State} (h : Reachable ⟨p, config⟩ io₀ s io)
    {i j : Nat} (hip : s.ip = i) (hopen : p.instructions[i]? = some .loopOpen)
    (hjump : p.jumps[i]? = some (some j)) {v : Int} (hv : s.cell = .ok v) (hne : v ≠ 0)
    (hbody : ∀ k op, i < k → k < j → p.instructions[k]? = some op →
      op = .write ∨ op = .loopOpen ∨ op = .loopClose)
    {io' : Streams} (hout : ∀ call ≥ io'.output.writes, io'.output.plan call = none) (n : Nat) :
    ∃ s' io'', steps ⟨p, config⟩ n s io' = .done s' io'' ∧ s'.dp = s.dp ∧ s'.tape = s.tape ∧
      (1 ≤ n → (i : Int) < s'.ip ∧ s'.ip ≤ j) ∧
      (∀ fuel, ∃ a, call ⟨p, config⟩ fuel .step s' io'' = some a ∧ a.reply = .ok (.stepped true)) ∧
      (∀ fuel k, ∃ a x, call ⟨p, config⟩ fuel (.execute (some k)) s' io'' = some a ∧
        a.reply = .ok (.reported x) ∧
        x.error = some ⟨.stepLimit k, a.state.ip, a.state.dp⟩) ∧
      ∀ fuel, run ⟨p, config⟩ fuel none s' io'' = none := by
  have hp := Program.paired_of_load hload
  have hs := (reachable_inRange (m := ⟨p, config⟩) hp h).1
  have hloop : p.Inert i j := by
    obtain ⟨j', hj', _, hpair⟩ := hp.partner_open hopen
    obtain rfl : j = j' := by simpa [Program.partner, hjump] using hj'
    exact ⟨hpair, hbody⟩
  have hcurrent : s.current ≠ 0 := by rwa [hs.current_eq hv]
  have hendless := endless_inert (m := ⟨p, config⟩) hp hloop hs.toFits hcurrent
  have hbegin : Circles i j s s io' := by
    have hlt := hloop.loop.lt
    exact ⟨⟨by omega, by omega⟩, rfl, rfl, hout⟩
  obtain ⟨s', io'', hsteps, hs'⟩ := hendless.steps hbegin n
  refine ⟨s', io'', hsteps, hs'.dp, hs'.tape, fun hn => ⟨?_, hs'.within.2⟩, hendless.call_step hs',
    hendless.call_execute hs', hendless.run hs'⟩
  -- The last of the steps is one inside the loop.
  obtain ⟨n, rfl⟩ := Nat.exists_eq_add_of_le' hn
  obtain ⟨s₁, io₁, hfirst, hs₁⟩ := hendless.steps hbegin n
  obtain ⟨s₂, io₂, hlast, _, hlow⟩ := step_inert (m := ⟨p, config⟩) hp hloop hs.toFits hcurrent hs₁
  have hboth := (steps_add hfirst 1).trans (steps_succ_done 0 hlast)
  obtain ⟨_, rfl, _⟩ := Step.mk.inj (hsteps.symm.trans hboth)
  exact hlow

/-- The loop of `+[[.]]`, which contains another. -/
theorem reachable_inert_nested :
    let m : Machine :=
      ⟨⟨[0x2B, 0x5B, 0x5B, 0x2E, 0x5D, 0x5D], #[.increment, .loopOpen, .loopOpen, .write,
        .loopClose, .loopClose],
        #[0, 1, 2, 3, 4, 5], #[none, some 5, some 4, none, some 2, some 1]⟩, { tapeLength := 2 }⟩
    let s := (m.step m.start {}).state
    Program.load [0x2B, 0x5B, 0x5B, 0x2E, 0x5D, 0x5D] = .ok m.program ∧ m.Reachable {} s {} ∧
      s.ip = 1 ∧ s.cell = .ok 1 ∧
      ∃ s' io', m.steps 1000 s {} = .done s' io' ∧ 1 < s'.ip ∧ s'.ip ≤ 5 ∧ s'.cell = .ok 1 ∧
        ∀ fuel k, ∃ a x, m.call fuel (.execute (some k)) s' io' = some a ∧
          a.reply = .ok (.reported x) ∧
          x.error = some ⟨.stepLimit k, a.state.ip, a.state.dp⟩ := by
  intro m s
  have hload : Program.load [0x2B, 0x5B, 0x5B, 0x2E, 0x5D, 0x5D] = .ok m.program := by decide
  have hreach : m.Reachable {} s {} :=
    .call .start (show m.call 0 .step m.start {} = some _ from rfl)
  have hbody : ∀ k op, 1 < k → k < 5 → m.program.instructions[k]? = some op →
      op = .write ∨ op = .loopOpen ∨ op = .loopClose := by
    intro k op hlow hhigh hop
    obtain rfl | rfl | rfl : k = 2 ∨ k = 3 ∨ k = 4 := by omega
    all_goals
      obtain rfl := Option.some.inj hop
      decide
  have hout : ∀ call ≥ ({} : Streams).output.writes, ({} : Streams).output.plan call = none :=
    fun _ _ => rfl
  obtain ⟨s', io', hsteps, hdp, htape, hinside, _, hexecute, _⟩ :=
    reachable_inert hload m.config hreach (i := 1) (j := 5) rfl rfl rfl (v := 1) rfl
      (by decide) hbody hout 1000
  have hcell : s'.cell = s.cell := by rw [State.cell, htape, hdp, State.cell]
  obtain ⟨hlow, hhigh⟩ := hinside (by decide)
  exact ⟨hload, hreach, rfl, rfl, s', io', hsteps, hlow, hhigh, hcell, hexecute⟩

end Machine

end TapeLang
