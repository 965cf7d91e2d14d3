import TapeLang.Program.Matching
import TapeLang.Proofs.Brackets.Waiting

/-!
# The pass that pairs brackets

What the stack and the table of `Matching` say of the instructions seen so far.

* `Instruction.brackets` — the brackets among the instructions.
* `Matching.Settled` — the invariant of the pass: the stack holds the open brackets, and the table
  the partners of all others.
* `Settled.push` — one instruction keeps it; `push_eq_none_iff` — the pass stops at a closing
  bracket with none open.
* `Settled.run_ok`, `Settled.run_error` — what a whole pass leaves, and where it stops.
-/

namespace TapeLang

/-- The brackets among the instructions. -/
def Instruction.brackets : Brackets Instruction :=
  ⟨.loopOpen, .loopClose, by decide⟩

namespace Matching

open Instruction (brackets)

/-- **What the pass knows of the instructions seen**: the stack holds the brackets that are open,
and the table has an entry for each instruction, which names a partner exactly if there is one so
far. -/
structure Settled (code : List Instruction) (m : Matching) : Prop where
  waiting : brackets.Waiting code m.opened
  size_jumps : m.jumps.size = code.length
  jumps_iff : ∀ i j, m.jumps[i]? = some (some j) ↔ brackets.Partners code i j ∨
    brackets.Partners code j i

theorem settled_nil : Settled [] {} := by
  have hnone : ∀ i j, ¬brackets.Partners [] i j := by
    intro i j h
    exact absurd h.lt_length (Nat.not_lt_zero j)
  refine ⟨.balanced Brackets.balanced_nil, rfl, ?_⟩
  intro i j
  simp [hnone]

variable {code : List Instruction} {m next : Matching}

theorem partners_concat_iff {x : Instruction} (hx : x ≠ .loopClose) (i j : Nat) :
    brackets.Partners (code ++ [x]) i j ↔ brackets.Partners code i j := by
  by_cases hj : j < code.length
  · exact Brackets.partners_append _ hj
  · refine iff_of_false ?_ fun h => hj h.lt_length
    intro h
    have hc := h.closes
    rw [List.getElem?_append_right (by omega)] at hc
    obtain ⟨_, hget⟩ := List.getElem?_eq_some_iff.mp hc
    rw [List.getElem_singleton] at hget
    exact hx hget

theorem Settled.push_other (h : Settled code m) {x : Instruction} (hx : x ≠ .loopClose)
    {opened : List Nat} (hw : brackets.Waiting (code ++ [x]) opened) :
    Settled (code ++ [x]) ⟨m.jumps.push none, opened⟩ := by
  refine ⟨hw, by simp [h.size_jumps], ?_⟩
  intro i j
  rw [partners_concat_iff hx, partners_concat_iff hx, ← h.jumps_iff, Array.getElem?_push]
  split
  · rename_i hi
    have hout : m.jumps[i]? = none := Array.getElem?_eq_none (by omega)
    simp [hout]
  · rfl

/-- The two entries that a closing bracket writes: its own, and that of the innermost open
bracket. -/
theorem Settled.push_close (h : Settled code m) {first : Nat} {rest : List Nat}
    (ho : m.opened = first :: rest) :
    Settled (code ++ [.loopClose])
      ⟨(m.jumps.setIfInBounds first (some m.jumps.size)).push (some first), rest⟩ := by
  have hwait : brackets.Waiting code (first :: rest) := ho ▸ h.waiting
  have hfirst : first < code.length := hwait.lt_length first List.mem_cons_self
  have hpairs : ∀ i j, brackets.Partners (code ++ [.loopClose]) i j ↔
      brackets.Partners code i j ∨ (i = first ∧ j = code.length) := hwait.partners_concat_iff
  have hlast : ∀ j, ¬brackets.Partners code code.length j ∧
    ¬brackets.Partners code j code.length := by
    intro j
    constructor
    · intro hp
      have := hp.lt_length
      have := hp.lt
      omega
    · intro hp
      exact Nat.lt_irrefl _ hp.lt_length
  refine ⟨hwait.pop.1, by simp [h.size_jumps], ?_⟩
  intro i j
  rw [hpairs, hpairs, Array.getElem?_push, Array.size_setIfInBounds, h.size_jumps]
  by_cases hi : i = code.length
  · subst hi
    simp only [if_true, Option.some.injEq, (hlast j).1, (hlast j).2, false_or]
    constructor
    · intro e
      exact Or.inr ⟨e.symm, trivial⟩
    · rintro (⟨he, _⟩ | ⟨he, _⟩)
      · omega
      · exact he.symm
  · by_cases hif : i = first
    · subst hif
      simp only [hi, if_false, Array.getElem?_setIfInBounds, h.size_jumps, hfirst, if_true,
        Option.some.injEq,
        (hwait.not_partners j).1, (hwait.not_partners j).2, false_or, true_and, and_false, or_false]
      exact eq_comm
    · simp only [hi, if_false, Array.getElem?_setIfInBounds, Ne.symm hif, hif, false_and, or_false,
        and_false]
      exact h.jumps_iff i j

/-- **One instruction keeps the invariant.** -/
theorem Settled.push (h : Settled code m) {x : Instruction} (hp : m.push x = some next) :
    Settled (code ++ [x]) next := by
  by_cases hc : x = .loopClose
  · subst hc
    simp only [Matching.push] at hp
    split at hp
    · cases hp
    · rename_i first rest ho
      cases hp
      exact h.push_close ho
  · by_cases ho : x = .loopOpen
    · subst ho
      cases hp
      exact h.push_other (by decide) (h.size_jumps ▸ h.waiting.push)
    · have hnext : next = ⟨m.jumps.push none, m.opened⟩ := by
        cases x <;> first | exact absurd rfl hc | exact absurd rfl ho | exact
          (Option.some.inj hp).symm
      subst hnext
      exact h.push_other hc (h.waiting.skip ho hc)

/-- The pass stops exactly at a closing bracket when none is open. -/
theorem push_eq_none_iff {x : Instruction} : m.push x = none ↔ x = .loopClose ∧ m.opened = [] := by
  cases x with
  | loopClose =>
      simp only [Matching.push, true_and]
      split <;> simp_all
  | _ => simp [Matching.push]

/-- **A pass that ends knows all of the code.** -/
theorem Settled.run_ok {before : List Instruction} (h : Settled before m) {final : Matching} :
    ∀ {code : List Instruction}, m.run code = .ok final → Settled (before ++ code) final := by
  intro code hr
  induction code generalizing before m with
  | nil =>
      cases hr
      rwa [List.append_nil]
  | cons x code ih =>
      rw [run_cons] at hr
      split at hr
      · rename_i next hp
        have := ih (h.push hp) hr
        rwa [List.append_assoc, List.singleton_append] at this
      · cases hr

/-- **A pass stops early at a closing bracket behind a balanced stretch of code.** -/
theorem Settled.run_error {before : List Instruction} (h : Settled before m) {i : Nat} :
    ∀ {code : List Instruction}, m.run code = .error i →
      ∃ w v, before ++ code = w ++ .loopClose :: v ∧ w.length = i ∧ brackets.Balanced w := by
  intro code hr
  induction code generalizing before m with
  | nil => cases hr
  | cons x code ih =>
      rw [run_cons] at hr
      split at hr
      · rename_i next hp
        have := ih (h.push hp) hr
        rwa [List.append_assoc, List.singleton_append] at this
      · rename_i hp
        cases hr
        obtain ⟨rfl, ho⟩ := push_eq_none_iff.mp hp
        exact ⟨before, code, rfl, h.size_jumps.symm, (h.waiting.balanced_iff).mpr ho⟩

end Matching

end TapeLang
