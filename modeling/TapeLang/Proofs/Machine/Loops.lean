import TapeLang.Proofs.Machine.Crossing
import TapeLang.Proofs.Machine.Repetition
import TapeLang.Proofs.Machine.Runs
import TapeLang.Proofs.Program.Pass
import TapeLang.Proofs.Source.Tokens

/-!
# Stretches of steps, and loops ahead

* `steps_add` — steps behind steps; `run_of_steps`, `run_of_steps_fail` — a run that makes so many
  steps, and one that makes them and fails.
* `Machine.LoopAt` — a loop of the program, with its body; `Ahead.loopAt` — the loop that the
  instruction pointer stands in front of.
* `Program.load_of_balanced`, `load_ahead` — code whose brackets pair up is a program as a text, and
  is ahead at its start.
* `LoopAt.test` — a test of a loop, at either of its brackets; `LoopAt.ahead` — behind one that is
  passed the body is ahead.
-/

namespace TapeLang

open Instruction (brackets)

/-! ## Code as a program -/

theorem Brackets.balanced_of_straight {α : Type} [DecidableEq α] {b : Brackets α} {w : List α}
    (h : ∀ x ∈ w, x ≠ b.opening ∧ x ≠ b.closing) : b.Balanced w := by
  induction w with
  | nil => exact balanced_nil
  | cons x w ih =>
      obtain ⟨hx, hlater⟩ := List.forall_mem_cons.mp h
      exact (balanced_singleton hx.1 hx.2).append (ih hlater)

/-- **A source whose instructions pair up is a program.** -/
theorem Program.load_of_balanced {source : List UInt8}
    (h : brackets.Balanced (Source.code source)) :
    ∃ p, load source = .ok p ∧ p.instructions = (Source.code source).toArray := by
  cases hrun : Matching.run {} (Source.code source) with
  | ok m =>
      have hset := Matching.settled_nil.run_ok hrun
      exact ⟨_, load_of_closed hrun (hset.waiting.balanced_iff.mp h), rfl⟩
  | error i =>
      obtain ⟨w, v, hsplit, _, hbal⟩ := Matching.settled_nil.run_error hrun
      rw [List.nil_append] at hsplit
      -- Behind a balanced stretch of code a closing bracket closes nothing.
      have hbegin : w ++ [.loopClose] <+: Source.code source :=
        ⟨v, by rw [hsplit, List.append_assoc, List.singleton_append]⟩
      have hle := h.prefix_le _ hbegin
      have htotal := hbal.total
      simp only [brackets, List.count_append, List.count_singleton] at hle htotal
      simp at hle
      omega

namespace Machine

open State (Fits)

variable {m : Machine} {s s' : State} {io io' : Streams} {n : Nat}

/-! ## Steps in a row -/

/-- **Steps behind steps.** -/
theorem steps_add (hs : m.steps n s io = .done s' io') (k : Nat) :
    m.steps (n + k) s io = m.steps k s' io' := by
  induction n generalizing s io with
  | zero =>
      obtain ⟨_, rfl, rfl⟩ := Step.mk.inj hs
      rw [Nat.zero_add]
  | succ n ih =>
      rw [Nat.add_right_comm]
      cases hstep : m.step s io with
      | mk fault s₁ io₁ =>
          cases fault with
          | none =>
              exact (steps_succ_done (n + k) hstep).trans
                (ih ((steps_succ_done n hstep).symm.trans hs))
          | some f => cases (steps_succ_fail n hstep).symm.trans hs

theorem steps_le (n : Nat) (s : State) (io : Streams) :
    (m.steps n s io).state.steps ≤ s.steps + n := by
  induction n generalizing s io with
  | zero => exact Int.le_of_eq (Int.add_zero _).symm
  | succ n ih =>
      cases hf : m.finished s with
      | true =>
          have hs : m.step s io = .done s io := by rw [step, if_pos hf]
          rw [steps_succ_done n hs]
          have := ih s io
          omega
      | false =>
          rcases step_outcome hf io with ⟨f, s₁, io₁, hs, _, hsteps, _⟩ | ⟨s₁, io₁, hs, hsteps⟩
          · rw [steps_succ_fail n hs]
            show s₁.steps ≤ _
            omega
          · rw [steps_succ_done n hs]
            have := ih s₁ io₁
            omega

/-- **A run makes the steps that are all counted**: the program has not ended at any of them. -/
theorem run_of_steps (hs : m.steps n s io = .done s' io') (hcount : s'.steps = s.steps + n)
    (fuel : Nat) :
    m.run (fuel + n) none s io = m.run fuel none s' io' := by
  induction n generalizing s io with
  | zero =>
      obtain ⟨_, rfl, rfl⟩ := Step.mk.inj hs
      rfl
  | succ n ih =>
      cases hf : m.finished s with
      | true =>
          have hstay : m.step s io = .done s io := by rw [step, if_pos hf]
          have hle := m.steps_le n s io
          rw [← steps_succ_done n hstay, hs] at hle
          simp only [Step.done] at hle
          omega
      | false =>
          rcases step_outcome hf io with ⟨f, s₁, io₁, hstep, _⟩ | ⟨s₁, io₁, hstep, hsteps⟩
          · cases (steps_succ_fail n hstep).symm.trans hs
          · rw [← Nat.add_assoc, run_done (fuel + n) hf (by simp) hstep]
            exact ih ((steps_succ_done n hstep).symm.trans hs) (by omega)

/-- **A run that makes so many steps and has then ended.** -/
theorem run_of_steps_finished (hs : m.steps n s io = .done s' io') (hcount : s'.steps = s.steps + n)
    (hf : m.finished s' = true) : ∀ fuel ≥ n, m.run fuel none s io = some ⟨.finished, s', io'⟩ := by
  intro fuel hfuel
  obtain ⟨more, rfl⟩ := Nat.exists_eq_add_of_le' hfuel
  rw [run_of_steps hs hcount, run_finished more hf]

/-- **A run that makes so many steps and then fails.** -/
theorem run_of_steps_fail {f : Fault} (hs : m.steps n s io = .done s' io')
    (hcount : s'.steps = s.steps + n) {s'' : State} {io'' : Streams}
    (hfail : m.step s' io' = .fail f s'' io'') :
    ∀ fuel > n, m.run fuel none s io = some ⟨.failed f, s'', io''⟩ := by
  intro fuel hfuel
  have hf : m.finished s' = false := finished_eq_false_of_fault (congrArg Step.fault hfail)
  obtain ⟨more, rfl⟩ := Nat.exists_eq_add_of_lt hfuel
  rw [show n + more + 1 = more + 1 + n by omega, run_of_steps hs hcount,
    run_fail more hf (by simp) hfail]

/-- **Code whose brackets pair up is a program as a text**, and is ahead at the start of it. -/
theorem load_ahead {w : List Instruction} (h : brackets.Balanced w) :
    ∃ p, Program.load (w.map Instruction.byte) = .ok p ∧ p.size = w.length ∧
      ∀ (c : Config) (s : State), s.ip = 0 → Ahead ⟨p, c⟩ s w := by
  rw [← Source.code_map_byte w] at h
  obtain ⟨p, hload, hcode⟩ := Program.load_of_balanced h
  rw [Source.code_map_byte] at hcode
  refine ⟨p, hload, by rw [Program.size, hcode, List.size_toArray],
    fun c s hip => ⟨by omega, fun k hk => ?_⟩⟩
  rw [hip, Int.toNat_zero, Nat.zero_add, hcode, List.getElem?_toArray]

/-! ## Loops -/

/-- **The loop at `i`**: the program has an opening bracket there, the body, and the closing bracket
that is its partner. -/
structure LoopAt (m : Machine) (i : Nat) (body : List Instruction) : Prop where
  opens : m.program.instructions[i]? = some .loopOpen
  closes : m.program.instructions[i + body.length + 1]? = some .loopClose
  inside : ∀ k < body.length, m.program.instructions[i + 1 + k]? = body[k]?
  partner_open : m.program.partner i = some (i + body.length + 1)
  partner_close : m.program.partner (i + body.length + 1) = some i

variable {i : Nat} {body : List Instruction}

/-- **The loop ahead**, if the brackets of its body pair up. -/
theorem Ahead.loopAt (h : m.Ahead s (.loopOpen :: (body ++ [.loopClose]))) (hp : m.program.Paired)
    (hbody : brackets.Balanced body) (hip : s.ip = i) : m.LoopAt i body := by
  have hcode : ∀ k < body.length + 2,
      m.program.instructions[i + k]? = (Instruction.loopOpen :: (body ++ [.loopClose]))[k]? := by
    intro k hk
    have hk' := h.code k (by rwa [List.length_cons, List.length_append, List.length_singleton])
    rwa [hip, Int.toNat_natCast] at hk'
  have hopens : m.program.instructions[i]? = some .loopOpen := hcode 0 (Nat.succ_pos _)
  have hcloses : m.program.instructions[i + body.length + 1]? = some .loopClose := by
    rw [Nat.add_assoc, hcode _ (Nat.lt_succ_self _), List.getElem?_cons_succ,
      List.getElem?_concat_length]
  have hinside : ∀ k < body.length, m.program.instructions[i + 1 + k]? = body[k]? := by
    intro k hk
    rw [Nat.add_right_comm, Nat.add_assoc, hcode _ (by omega), List.getElem?_cons_succ,
      List.getElem?_append_left hk]
  have hbetween : Brackets.between m.program.instructions.toList i (i + body.length + 1) =
    body := by
    refine List.ext_getElem? fun k => ?_
    rw [Brackets.between, List.getElem?_drop]
    by_cases hk : k < body.length
    · rw [List.getElem?_take_of_lt (by omega), Array.getElem?_toList, hinside k hk]
    · rw [List.getElem?_eq_none (Nat.le_of_not_lt hk), List.getElem?_eq_none]
      rw [List.length_take]
      omega
  have hpair : m.program.Loop i (i + body.length + 1) :=
    ⟨by omega, by rwa [Array.getElem?_toList], by rwa [Array.getElem?_toList],
      hbetween.symm ▸ hbody⟩
  obtain ⟨j, hij, hji, hj⟩ := hp.partner_open hopens
  obtain rfl := hj.right_unique hpair
  exact ⟨hopens, hcloses, hinside, hij, hji⟩

namespace LoopAt

theorem ahead (h : m.LoopAt i body) (hip : s.ip = (i : Int) + 1) : m.Ahead s body := by
  refine ⟨by omega, fun k hk => ?_⟩
  rw [hip, ← h.inside k hk]
  congr 1

/-- **A test of a loop**, at either of its brackets: on a zero it leads behind the loop, on any
other value into the body. -/
theorem test (h : m.LoopAt i body) (hs : s.Fits m.config)
    (hip : s.ip = (i : Int) ∨ s.ip = (i : Int) + body.length + 1) (io : Streams) :
    m.step s io = .done
      (s.goTo (if s.current = 0 then (i : Int) + body.length + 2 else (i : Int) + 1)) io := by
  have hbehind : (i : Int) + body.length + 2 = (i + body.length + 1 : Nat) + 1 := by omega
  rw [hbehind]
  rcases hip with hip | hip
  · exact step_opening hs hip h.opens h.partner_open io
  · exact step_closing hs (by omega) h.closes h.partner_close io

end LoopAt

end Machine

end TapeLang
