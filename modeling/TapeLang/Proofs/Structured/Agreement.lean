import TapeLang.Proofs.Machine.Reachable
import TapeLang.Proofs.Structured.Represents

/-!
# The machine agrees with the reference semantics

A machine that jumps between paired brackets over a tape that grows, and the evaluation of a tree
over a plain array, come to the same end.

* `act_done`, `act_fails`, `test_zero`, `test_nonzero` — one action and one test of a loop, as the
  first step of a run. A loop may be tested at either of its brackets: the machine goes on in the
  same way.
* `Eval.leads` — the machine follows every evaluation, by induction on the evaluation.
* `exists_eval` — every run that stops follows an evaluation, by induction on the number of its
  steps.
* `Shows`, `run_iff_eval` — both together: the runs of a loaded program that stop are the
  evaluations of its tree.
-/

namespace TapeLang.Structured

variable {m : Machine} {s : State} {σ : Store m.config} {i : Nat}

theorem finished_eq_false_of_get {op : Instruction} (hip : s.ip = i)
    (hop : m.program.instructions[i]? = some op) :
    m.finished s = false := by
  obtain ⟨hi, _⟩ := Array.getElem?_eq_some_iff.mp hop
  exact Machine.finished_eq_false hip hi

/-! ## One test of a loop -/

/-- Where the instruction pointer may be when a block is to be evaluated: at its first instruction,
or at the closing bracket of the loop that it begins with. -/
def Entered (i : Nat) : Block → Int → Prop
  | .loop body _, ip => ip = (i : Int) ∨ ip = ((i + body.size + 1 : Nat) : Int)
  | _, ip => ip = (i : Int)

theorem entered_self (b : Block) {ip : Int} (h : ip = (i : Int)) : Entered i b ip := by
  cases b with
  | loop body rest => exact .inl h
  | _ => exact h

/-- **One test of a loop**: at either bracket the machine goes behind the loop or into its body, and
never fails. -/
theorem test_step {body rest : Block} (h : Represents s σ) (he : Entered i (.loop body rest) s.ip)
    (hl : (Block.loop body rest).Located m.program i) (io : Streams) :
    m.finished s = false ∧
      m.step s io =
        .done (s.goTo (if σ.cell.val = 0 then ((i + body.size + 2 : Nat) : Int)
          else ((i + 1 : Nat) : Int))) io := by
  obtain ⟨⟨hopen, hij⟩, ⟨hclose, hji⟩, _⟩ := hl
  have hzero : s.current = 0 ↔ σ.cell.val = 0 := by rw [h.current_eq, Int.natCast_eq_zero]
  simp only [← hzero]
  rcases he with hip | hip
  · exact ⟨finished_eq_false_of_get hip hopen, Machine.step_opening h.fits hip hopen hij io⟩
  · exact ⟨finished_eq_false_of_get hip hclose, Machine.step_closing h.fits hip hclose hji io⟩

theorem test_zero {body rest : Block} (h : Represents s σ) (he : Entered i (.loop body rest) s.ip)
    (hl : (Block.loop body rest).Located m.program i) (hc : σ.cell.val = 0) (io : Streams)
    (n : Nat) :
    m.advance (n + 1) s io = m.advance n (s.goTo ((i + body.size + 2 : Nat) : Int)) io := by
  obtain ⟨hf, hs⟩ := test_step h he hl io
  rw [if_pos hc] at hs
  exact Machine.advance_done n hf hs

theorem test_nonzero {body rest : Block} (h : Represents s σ)
    (he : Entered i (.loop body rest) s.ip) (hl : (Block.loop body rest).Located m.program i)
    (hc : σ.cell.val ≠ 0) (io : Streams) (n : Nat) :
    m.advance (n + 1) s io = m.advance n (s.goTo ((i + 1 : Nat) : Int)) io := by
  obtain ⟨hf, hs⟩ := test_step h he hl io
  rw [if_neg hc] at hs
  exact Machine.advance_done n hf hs

/-! ## One action of a run -/

theorem act_done {a : Action} (h : Represents s σ) (hip : s.ip = i)
    (hop : m.program.instructions[i]? = some a.instruction) {io io' : Streams} {σ' : Store m.config}
    (ha : σ.act a i io = .done σ' io') :
    ∃ s', Represents s' σ' ∧ s'.ip = ((i + 1 : Nat) : Int) ∧ ∀ n, m.advance (n + 1) s io =
      m.advance n s' io' := by
  have hsim := act_simulates h hip a io
  rw [ha, ← Machine.step_eq_perform hip hop] at hsim
  obtain ⟨hfault, hstate, hnext, hstreams⟩ := hsim
  refine ⟨_, hstate, hnext, fun n => Machine.advance_done n (finished_eq_false_of_get hip hop) ?_⟩
  rw [Step.done, ← hfault, ← hstreams]

theorem act_fails {a : Action} (h : Represents s σ) (hip : s.ip = i)
    (hop : m.program.instructions[i]? = some a.instruction) {io io' : Streams}
    {σ' : Store m.config} {f : Fault} (ha : σ.act a i io = .failed f σ' io') :
    ∃ s', Represents s' σ' ∧ ∀ n, m.advance (n + 1) s io = ⟨.failed f, s', io'⟩ := by
  have hsim := act_simulates h hip a io
  rw [ha, ← Machine.step_eq_perform hip hop] at hsim
  obtain ⟨hfault, hstate, hstreams⟩ := hsim
  refine ⟨_, hstate, fun n => Machine.advance_fail n (finished_eq_false_of_get hip hop) ?_⟩
  rw [Step.fail, ← hfault, ← hstreams]

/-! ## The machine follows every evaluation -/

/-- **The machine comes from `s` to the given outcome**: after some number of steps it is in front
of the instruction `next`, or it has failed with the fault, and the state and the streams are those
of the outcome. -/
def Leads (m : Machine) (s : State) (io : Streams) (next : Nat) : Outcome m.config → Prop
  | .done σ io' => ∃ k s', Represents s' σ ∧ s'.ip = (next : Int) ∧ ∀ n, m.advance (n + k) s io =
      m.advance n s' io'
  | .failed f σ io' => ∃ k s', Represents s' σ ∧ ∀ n, m.advance (n + k) s io = ⟨.failed f, s', io'⟩

theorem Leads.prepend {s' : State} {io io' : Streams} {next k : Nat} {r : Outcome m.config}
    (hsteps : ∀ n, m.advance (n + k) s io = m.advance n s' io') (h : Leads m s' io' next r) :
    Leads m s io next r := by
  cases r with
  | done σ io'' =>
      obtain ⟨k', s'', hrep, hip, hrun⟩ := h
      exact ⟨k' + k, s'', hrep, hip, fun n => by rw [← Nat.add_assoc, hsteps, hrun]⟩
  | failed f σ io'' =>
      obtain ⟨k', s'', hrep, hrun⟩ := h
      exact ⟨k' + k, s'', hrep, fun n => by rw [← Nat.add_assoc, hsteps, hrun]⟩

/-- **The machine follows every evaluation.** -/
theorem Eval.leads {b : Block} {io : Streams} {r : Outcome m.config}
    (h : Eval m.config i b σ io r) :
    ∀ {s : State}, Represents s σ → Entered i b s.ip → b.Located m.program i →
      Leads m s io (i + b.size) r := by
  induction h with
  | done => exact fun hrep he _ => ⟨0, _, hrep, he, fun _ => rfl⟩
  | act ha _ ih =>
      intro s hrep he hl
      obtain ⟨s', hrep', hip', hsteps⟩ := act_done hrep he hl.1 ha
      have hrest := ih hrep' (entered_self _ hip') hl.2
      rw [Nat.add_assoc, Nat.add_comm 1] at hrest
      exact hrest.prepend hsteps
  | actFails ha =>
      intro s hrep he hl
      obtain ⟨s', hrep', hrun⟩ := act_fails hrep he hl.1 ha
      exact ⟨1, s', hrep', hrun⟩
  | @leave i body rest σ io r hc _ ih =>
      intro s hrep he hl
      have hrest := ih (hrep.goTo _) (entered_self _ rfl) hl.2.2.2
      rw [show i + body.size + 2 + rest.size =
        i + (Block.loop body rest).size by rw [Block.size_loop]; omega] at hrest
      exact hrest.prepend (test_zero hrep he hl hc io)
  | @pass i body rest σ σ' io io' r hc _ _ ihb ihl =>
      intro s hrep he hl
      obtain ⟨k, s', hrep', hip', hrun⟩ :=
        ihb (hrep.goTo ((i + 1 : Nat) : Int)) (entered_self _ rfl) hl.2.2.1
      -- Behind the body the machine is at the closing bracket, where the loop is tested once more.
      have hback : Entered i (.loop body rest) s'.ip := .inr (by rw [hip']; congr 1; omega)
      have hagain := ihl hrep' hback hl
      exact (hagain.prepend hrun).prepend (test_nonzero hrep he hl hc io)
  | @bodyFails i body rest σ σ' io io' f hc _ ihb =>
      intro s hrep he hl
      have hbody := ihb (hrep.goTo ((i + 1 : Nat) : Int)) (entered_self _ rfl) hl.2.2.1
      exact Leads.prepend (r := .failed f σ' io') (test_nonzero hrep he hl hc io) hbody

/-! ## Every run that stops follows an evaluation -/

/-- **A halt comes from the given outcome**: the machine has failed as the outcome has, or at most
`n` steps lead from its state, in front of the instruction `next`, to the halt. -/
def Follows (m : Machine) (h : Halt) (n next : Nat) : Outcome m.config → Prop
  | .done σ io => ∃ s k, k ≤ n ∧ Represents s σ ∧ s.ip = (next : Int) ∧ m.advance k s io = h
  | .failed f σ io => Represents h.state σ ∧ h.stop = .failed f ∧ h.streams = io

theorem Follows.mono {h : Halt} {n n' next next' : Nat} {r : Outcome m.config} (hn : n ≤ n')
    (hnext : next = next') (hf : Follows m h n next r) : Follows m h n' next' r := by
  subst hnext
  cases r with
  | done σ io =>
      obtain ⟨s, k, hk, hrest⟩ := hf
      exact ⟨s, k, Nat.le_trans hk hn, hrest⟩
  | failed f σ io => exact hf

/-- **Every run that stops follows an evaluation.** -/
theorem exists_eval (n : Nat) :
    ∀ {i : Nat} {b : Block} {s : State} {σ : Store m.config} {io : Streams} {h : Halt},
      Represents s σ → Entered i b s.ip → b.Located m.program i → m.advance n s io = h →
        h.stop ≠ .paused →
      ∃ r, Eval m.config i b σ io r ∧ Follows m h n (i + b.size) r := by
  induction n using Nat.strong_induction_on with
  | _ n ih =>
    intro i b s σ io h hrep he hl hrun hstop
    cases b with
    | done => exact ⟨.done σ io, .done, s, n, Nat.le_refl n, hrep, he, hrun⟩
    | act a rest =>
        obtain ⟨hop, hrest⟩ := hl
        obtain ⟨n, rfl⟩ :=
          Machine.exists_succ_of_stopped (finished_eq_false_of_get he hop) hrun hstop
        cases ha : σ.act a i io with
        | done σ' io' =>
            obtain ⟨s', hrep', hip', hsteps⟩ := act_done hrep he hop ha
            rw [hsteps] at hrun
            obtain ⟨r, heval, hfollows⟩ :=
              ih n (by omega) hrep' (entered_self rest hip') hrest hrun hstop
            exact ⟨r, .act ha heval, hfollows.mono (by omega) (by rw [Block.size_act]; omega)⟩
        | failed f σ' io' =>
            obtain ⟨s', hrep', hfail⟩ := act_fails hrep he hop ha
            rw [hfail] at hrun
            subst hrun
            exact ⟨.failed f σ' io', .actFails ha, hrep', rfl, rfl⟩
    | loop body rest =>
        obtain ⟨n, rfl⟩ := Machine.exists_succ_of_stopped (test_step hrep he hl io).1 hrun hstop
        by_cases hc : σ.cell.val = 0
        · rw [test_zero hrep he hl hc] at hrun
          obtain ⟨r, heval, hfollows⟩ :=
            ih n (by omega) (hrep.goTo _) (entered_self rest rfl) hl.2.2.2 hrun hstop
          exact ⟨r, .leave hc heval, hfollows.mono (by omega) (by rw [Block.size_loop]; omega)⟩
        · rw [test_nonzero hrep he hl hc] at hrun
          obtain ⟨r, heval, hfollows⟩ :=
            ih n (by omega) (hrep.goTo _) (entered_self body rfl) hl.2.2.1 hrun hstop
          cases r with
          | done σ' io' =>
              -- The body has used up a step at least, so the rest of the run is shorter.
              obtain ⟨s', k, hk, hrep', hip', hrun'⟩ := hfollows
              have hback : Entered i (.loop body rest) s'.ip := .inr (by rw [hip']; congr 1; omega)
              obtain ⟨r, hloop, hlater⟩ := ih k (by omega) hrep' hback hl hrun' hstop
              exact ⟨r, .pass hc heval hloop, hlater.mono (by omega) rfl⟩
          | failed f σ' io' => exact ⟨.failed f σ' io', .bodyFails hc heval, hfollows⟩

/-! ## Loaded programs -/

/-- **A run that stopped shows an outcome**: it has ended or failed as the evaluator has, with the
same memory, the same counters and the same streams. -/
def Shows {c : Config} (h : Halt) : Outcome c → Prop
  | .done σ io => h.stop = .finished ∧ Agrees h.state σ ∧ h.streams = io
  | .failed f σ io => h.stop = .failed f ∧ Agrees h.state σ ∧ h.streams = io

theorem Shows.unique {c : Config} {h : Halt} {r r' : Outcome c} (hr : Shows h r)
    (hr' : Shows h r') : r = r' := by
  cases r with
  | done σ io =>
      obtain ⟨hstop, hstate, rfl⟩ := hr
      cases r' with
      | done σ' io' =>
          obtain ⟨_, hstate', rfl⟩ := hr'
          rw [hstate.unique hstate']
      | failed f σ' io' => cases hstop.symm.trans hr'.1
  | failed f σ io =>
      obtain ⟨hstop, hstate, rfl⟩ := hr
      cases r' with
      | done σ' io' => cases hstop.symm.trans hr'.1
      | failed f' σ' io' =>
          obtain ⟨hstop', hstate', rfl⟩ := hr'
          cases hstop.symm.trans hstop'
          rw [hstate.unique hstate']

theorem Leads.exists_shows {io : Streams} {next : Nat} {r : Outcome m.config}
    (hnext : m.program.size = next) (h : Leads m s io next r) :
    ∃ fuel halt, m.run fuel none s io = some halt ∧ Shows halt r := by
  cases r with
  | done σ io' =>
      obtain ⟨k, s', hrep, hip, hrun⟩ := h
      have hfin : m.finished s' = true := by simp [Machine.finished, hip, hnext]
      have hhalt := (hrun 0).trans (Machine.advance_finished 0 hfin)
      exact ⟨0 + k, _, Machine.runFor_eq_some_iff.mpr ⟨hhalt, by simp⟩, rfl, hrep.agrees, rfl⟩
  | failed f σ io' =>
      obtain ⟨k, s', hrep, hrun⟩ := h
      exact ⟨0 + k, _, Machine.runFor_eq_some_iff.mpr ⟨hrun 0, by simp⟩, rfl, hrep.agrees, rfl⟩

/-- A halt that comes from an outcome behind the last instruction shows it. -/
theorem Follows.shows {h : Halt} {n next : Nat} {r : Outcome m.config}
    (hnext : m.program.size = next) (hf : Follows m h n next r) : Shows h r := by
  cases r with
  | done σ io =>
      obtain ⟨s, k, _, hrep, hip, rfl⟩ := hf
      have hfin : m.finished s = true := by simp [Machine.finished, hip, hnext]
      rw [Machine.advance_finished k hfin]
      exact ⟨rfl, hrep.agrees, rfl⟩
  | failed f σ io =>
      obtain ⟨hrep, hstop, hstreams⟩ := hf
      exact ⟨hstop, hrep.agrees, hstreams⟩

/-- **The machine agrees with the reference semantics.** A loaded program is the code of a tree. Its
runs that stop show the outcomes of the tree's evaluations, all of them and no others; and every run
that stops shows one. -/
theorem run_iff_eval {source : List UInt8} {p : Program} (hload : Program.load source = .ok p)
    (c : Config) (io : Streams) :
    ∃ b, Block.parse p.instructions.toList = some b ∧
      (∀ r, Eval c 0 b (Store.zero c) io r ↔
        ∃ fuel h, Machine.run ⟨p, c⟩ fuel none (Machine.start ⟨p, c⟩) io = some h ∧ Shows h r) ∧
      ∀ fuel h, Machine.run ⟨p, c⟩ fuel none (Machine.start ⟨p, c⟩) io = some h →
        ∃ r : Outcome c, Shows h r := by
  have hp := Program.paired_of_load hload
  obtain ⟨b, hb⟩ := Block.exists_parse hp.balanced
  have hcode : p.instructions.toList = [] ++ (b.code ++ []) := by
    rw [List.append_nil, List.nil_append, Block.parse_eq_some_iff.mp hb]
  have hlocated : b.Located p 0 := Block.located_of_split hp hcode
  have hsize : p.size = 0 + b.size := by
    rw [Nat.zero_add, Block.size, Block.parse_eq_some_iff.mp hb]
    rfl
  have hrep := represents_start ⟨p, c⟩
  have hentered : Entered 0 b (Machine.start ⟨p, c⟩).ip := entered_self b rfl
  have hshown : ∀ fuel h, Machine.run ⟨p, c⟩ fuel none (Machine.start ⟨p, c⟩) io = some h →
      ∃ r, Eval c 0 b (Store.zero c) io r ∧ Shows h r := by
    intro fuel h hrun
    obtain ⟨hadvance, hstop⟩ := Machine.runFor_eq_some_iff.mp hrun
    obtain ⟨r, heval, hfollows⟩ := exists_eval fuel hrep hentered hlocated hadvance hstop
    exact ⟨r, heval, hfollows.shows hsize⟩
  refine ⟨b, hb, ?_, ?_⟩
  · intro r
    constructor
    · intro heval
      exact (heval.leads (m := ⟨p, c⟩) hrep hentered hlocated).exists_shows hsize
    · rintro ⟨fuel, h, hrun, hr⟩
      obtain ⟨r', heval, hr'⟩ := hshown fuel h hrun
      rwa [hr.unique hr']
  · intro fuel h hrun
    obtain ⟨r, _, hr⟩ := hshown fuel h hrun
    exact ⟨r, hr⟩

/-- The loop that clears a cell, entered with a one: four steps. -/
theorem run_iff_eval_clear :
    Program.load [0x2B, 0x5B, 0x2D, 0x5D] =
        .ok ⟨[0x2B, 0x5B, 0x2D, 0x5D], #[.increment, .loopOpen, .decrement, .loopClose],
          #[0, 1, 2, 3],
          #[none, some 3, none, some 1]⟩ ∧
      ∃ (σ : Store { tapeLength := 2 }) (io : Streams),
        Eval _ 0 (.act (.adjust .up) (.loop (.act (.adjust .down) .done) .done)) (Store.zero _) {}
          (.done σ io) ∧
          σ.steps = 4 := by
  have hload : Program.load [0x2B, 0x5B, 0x2D, 0x5D] =
      .ok ⟨[0x2B, 0x5B, 0x2D, 0x5D], #[.increment, .loopOpen, .decrement, .loopClose],
        #[0, 1, 2, 3],
        #[none, some 3, none, some 1]⟩ := by decide
  obtain ⟨b, hb, hiff, hshows⟩ := run_iff_eval hload { tapeLength := 2 } {}
  cases hb
  obtain ⟨r, hr⟩ := hshows 4 _ rfl
  have heval := (hiff r).mpr ⟨4, _, rfl, hr⟩
  cases r with
  | done σ io =>
      have hsteps := hr.2.1.steps
      exact ⟨hload, σ, io, heval, (Int.ofNat_inj.mp hsteps).symm⟩
  | failed f σ io => cases hr.1

end TapeLang.Structured
