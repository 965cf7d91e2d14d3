import TapeLang.Program.Load
import TapeLang.Proofs.Source.Code

/-!
# Loading by its pass over the instructions

What a source loads to is decided by the pass that pairs the brackets of its instructions. The pass
goes from left to right, so behind a stretch of code it depends on nothing but the state that the
stretch has left.

* `Matching.run_append` — a pass over two stretches of code.
* `Matching.run_closings`, `Matching.run_too_many_closings` — closing brackets take the open ones,
  innermost first, and stop the pass behind the last.
* `Program.load_of_stuck`, `Program.load_of_opened`, `Program.load_of_closed` — what a source loads
  to, by its pass; `Program.load_eq_ok_iff` — it loads to a program exactly if the pass leaves
  nothing open.
-/

namespace TapeLang

namespace Matching

variable {m : Matching}

/-- **A pass goes on from where it is.** -/
theorem run_append (m : Matching) (w v : List Instruction) :
    m.run (w ++ v) = match m.run w with
      | .ok next => next.run v
      | .error i => .error i := by
  induction w generalizing m with
  | nil => rfl
  | cons x w ih =>
      rw [List.cons_append, run_cons, run_cons]
      cases m.push x with
      | some next => exact ih next
      | none => rfl

/-- **Closing brackets take the open ones, innermost first.** -/
theorem run_closings {n : Nat} (h : n ≤ m.opened.length) :
    ∃ next, m.run (List.replicate n .loopClose) = .ok next ∧ next.opened = m.opened.drop n := by
  induction n generalizing m with
  | zero => exact ⟨m, rfl, rfl⟩
  | succ n ih =>
      obtain ⟨first, rest, ho⟩ :=
        List.exists_cons_of_length_pos (Nat.lt_of_lt_of_le (Nat.succ_pos n) h)
      rw [ho, List.length_cons] at h
      have hpush : m.push .loopClose =
          some ⟨(m.jumps.setIfInBounds first (some m.jumps.size)).push (some first), rest⟩ := by
        simp only [push, ho]
      rw [List.replicate_succ, run_cons, hpush, ho, List.drop_succ_cons]
      exact ih (Nat.le_of_succ_le_succ h)

/-- The first closing bracket behind the last open one stops the pass. -/
theorem run_too_many_closings {n : Nat} (h : m.opened.length < n) :
    m.run (List.replicate n .loopClose) = .error (m.jumps.size + m.opened.length) := by
  induction n generalizing m with
  | zero => exact absurd h (Nat.not_lt_zero _)
  | succ n ih =>
      rw [List.replicate_succ, run_cons]
      cases ho : m.opened with
      | nil => simp only [push, ho, List.length_nil, Nat.add_zero]
      | cons first rest =>
          rw [ho, List.length_cons] at h
          simp only [push, ho]
          rw [ih (Nat.lt_of_succ_lt_succ h), Array.size_push, Array.size_setIfInBounds,
            List.length_cons]
          simp only [Except.error.injEq]
          omega

theorem lt_length_of_stuck {w : List Instruction} {i : Nat} (h : Matching.run {} w = .error i) :
    i < w.length := by
  obtain ⟨u, v, hsplit, rfl, _⟩ := settled_nil.run_error h
  rw [List.nil_append] at hsplit
  simp [hsplit]

end Matching

namespace Program

open Source (code)

variable {source : List UInt8} {m : Matching}

theorem code_eq (source : List UInt8) : (Source.tokens source).map (·.instruction) = code source :=
  Source.map_instruction_tokens source

theorem getD_offsets (source : List UInt8) (i : Nat) :
    ((Source.tokens source).map (·.offset)).toArray.getD i 0 =
      (Source.offsets source).getD i 0 := by
  rw [Array.getD_eq_getD_getElem?, List.getElem?_toArray, List.getD_eq_getElem?_getD,
    Source.offsets]

/-- **A pass that stops makes the closing bracket the fault.** -/
theorem load_of_stuck {i : Nat} (h : Matching.run {} (code source) = .error i) :
    load source = .error (.locate .unopened source ((Source.offsets source).getD i 0 : Nat) i) := by
  simp only [load, code_eq, h, unpairedError, getD_offsets]

/-- **A pass that leaves brackets open makes the outermost of them the fault**, and lists them
all. -/
theorem load_of_opened (h : Matching.run {} (code source) = .ok m) {outermost : Nat}
    {inner : List Nat} (ho : m.opened.reverse = outermost :: inner) :
    load source =
      .error (.locate (.unclosed (m.opened.reverse.map fun i =>
      ((Source.offsets source).getD i 0 : Int))) source
      ((Source.offsets source).getD outermost 0 : Nat) outermost) := by
  simp only [load, code_eq, h, ho, unpairedError, getD_offsets]

/-- **A pass that leaves none open makes the program.** -/
theorem load_of_closed (h : Matching.run {} (code source) = .ok m) (ho : m.opened = []) :
    load source = .ok ⟨source, (code source).toArray, (Source.offsets source).toArray,
      m.jumps⟩ := by
  simp only [load, code_eq, h, ho, List.reverse_nil]
  rfl

/-- **What loads has been passed over with nothing left open.** -/
theorem load_eq_ok_iff {p : Program} :
    load source = .ok p ↔ ∃ m, Matching.run {} (code source) = .ok m ∧ m.opened = [] ∧
      p = ⟨source, (code source).toArray, (Source.offsets source).toArray, m.jumps⟩ := by
  constructor
  · intro h
    cases hrun : Matching.run {} (code source) with
    | error i =>
        rw [load_of_stuck hrun] at h
        cases h
    | ok m =>
        cases hopened : m.opened.reverse with
        | nil =>
            have hnone : m.opened = [] := List.reverse_eq_nil_iff.mp hopened
            rw [load_of_closed hrun hnone] at h
            exact ⟨m, rfl, hnone, (Except.ok.inj h).symm⟩
        | cons outermost inner =>
            rw [load_of_opened hrun hopened] at h
            cases h
  · rintro ⟨m, hrun, hnone, rfl⟩
    exact load_of_closed hrun hnone

end Program

end TapeLang
