import Mathlib.Order.Bounds.Basic
import TapeLang.Program.Basic
import TapeLang.Proofs.Program.Pairing

/-!
# How deep loops nest

The scan behind `Program.maxDepth` counts up at an opening bracket and down at a closing one, and
finds the greatest depth of any place (`Brackets.depth`), whether or not the brackets pair up.

* `deepest_cons`, `deepest_split`, `isGreatest_deepest` — one instruction of the scan, a stretch of
  it, and what the whole scan finds.
* `deepest_append`, `deepest_wrap` — of two balanced stretches of code the deeper one counts, and
  brackets around a balanced stretch add one.
-/

namespace TapeLang.Program

open Instruction (brackets)

variable {u v w : List Instruction}

theorem le_deepest (depth : Int) (w : List Instruction) : depth ≤ deepest depth w := by
  induction w generalizing depth with
  | nil => exact Int.le_refl _
  | cons x w ih =>
      cases x with
      | loopOpen => exact Int.le_trans (Int.le_add_one (Int.le_refl depth)) (ih (depth + 1))
      | loopClose => exact Int.le_max_left _ _
      | _ => exact ih depth

theorem deepest_cons (depth : Int) (x : Instruction) (w : List Instruction) :
    deepest depth (x :: w) = max depth (deepest (depth + brackets.weight x) w) := by
  cases x with
  | loopOpen =>
      have hw : brackets.weight .loopOpen = 1 := rfl
      have hle := le_deepest (depth + 1) w
      rw [hw, deepest]
      omega
  | loopClose => rfl
  | _ =>
      change deepest depth w = max depth (deepest (depth + 0) w)
      rw [Int.add_zero, Int.max_eq_right (le_deepest depth w)]

theorem deepest_add (depth c : Int) (w : List Instruction) :
    deepest (depth + c) w = deepest depth w + c := by
  induction w generalizing depth with
  | nil => rfl
  | cons x w ih =>
      have hlater := ih (depth + brackets.weight x)
      rw [deepest_cons, deepest_cons, Int.add_right_comm, hlater]
      omega

/-- **The scan goes on from where it is**: behind a stretch of code it counts from the depth that
the stretch leads to. -/
theorem deepest_split (depth : Int) (u v : List Instruction) :
    deepest depth (u ++ v) =
      max (deepest depth u) (deepest (depth + brackets.depth u u.length) v) := by
  induction u generalizing depth with
  | nil =>
      have hle := le_deepest depth v
      rw [List.nil_append, List.length_nil, brackets.depth_zero, Int.add_zero, deepest]
      omega
  | cons x u ih =>
      rw [List.cons_append, deepest_cons, deepest_cons, ih, List.length_cons, brackets.depth_cons,
        ← Int.add_assoc]
      omega

/-- **The scan finds the greatest depth.** -/
theorem isGreatest_deepest (depth : Int) (w : List Instruction) :
    IsGreatest {n : Int | ∃ k ≤ w.length, n = depth + brackets.depth w k} (deepest depth w) := by
  induction w generalizing depth with
  | nil =>
      refine ⟨⟨0, Nat.le_refl 0, by simp [deepest]⟩, ?_⟩
      rintro n ⟨k, hk, rfl⟩
      obtain rfl : k = 0 := Nat.le_zero.mp hk
      simp [deepest]
  | cons x w ih =>
      obtain ⟨⟨k, hk, hmem⟩, hupper⟩ := ih (depth + brackets.weight x)
      rw [deepest_cons]
      constructor
      · rcases Int.le_total (deepest (depth + brackets.weight x) w) depth with hle | hle
        · exact ⟨0, Nat.zero_le _, by rw [Int.max_eq_left hle, brackets.depth_zero, Int.add_zero]⟩
        · refine ⟨k + 1, Nat.succ_le_succ hk, ?_⟩
          rw [Int.max_eq_right hle, hmem, brackets.depth_cons, Int.add_assoc]
      · rintro n ⟨j, hj, rfl⟩
        cases j with
        | zero =>
            rw [brackets.depth_zero]
            omega
        | succ j =>
            have := hupper ⟨j, Nat.le_of_succ_le_succ hj, rfl⟩
            rw [brackets.depth_cons]
            omega

theorem maxDepth_cast (p : Program) : (p.maxDepth : Int) = deepest 0 p.instructions.toList :=
  Int.toNat_of_nonneg (le_deepest 0 _)

/-- **Of two balanced stretches of code the deeper one counts.** -/
theorem deepest_append (hu : brackets.Balanced u) (v : List Instruction) :
    deepest 0 (u ++ v) = max (deepest 0 u) (deepest 0 v) := by
  rw [deepest_split, (brackets.balanced_iff_depth.mp hu).2, Int.add_zero]

/-- **Brackets around a balanced stretch of code add one.** -/
theorem deepest_wrap (h : brackets.Balanced w) :
    deepest 0 (.loopOpen :: (w ++ [.loopClose])) = deepest 0 w + 1 := by
  have hle := le_deepest 0 w
  have hinner : deepest 1 w = deepest 0 w + 1 := deepest_add 0 1 w
  have hlast : deepest 1 [.loopClose] = 1 := rfl
  rw [deepest, Int.zero_add, deepest_split, (brackets.balanced_iff_depth.mp h).2, Int.add_zero,
    hinner, hlast]
  omega

end TapeLang.Program
