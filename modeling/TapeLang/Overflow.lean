/-!
# Leaving a range

Model of `bfvm.policy`: `Overflow` and `shift`.

* `shift` — moves a number inside `[0, bound - 1]`, which it cannot leave under any mode.
* `shift_wrap`, `shift_saturate`, `shift_check` — what it gives, mode by mode.
* `shift_range`, `shift_eq_error_iff` — it stays in the range, and when it gives nothing.
-/

namespace TapeLang

/-- What happens when a number would leave its range. -/
inductive Overflow
  /-- It is reduced modulo the bound. -/
  | wrap
  /-- It stays at the nearer edge. -/
  | saturate
  /-- The operation is refused. -/
  | check
  deriving DecidableEq, Repr

namespace Overflow

def all : List Overflow := [.wrap, .saturate, .check]

def name : Overflow → String
  | .wrap => "wrap"
  | .saturate => "saturate"
  | .check => "check"

def ofName? (s : String) : Option Overflow :=
  all.find? (·.name = s)

end Overflow

inductive ShiftError
  /-- It would leave its range, and the mode refuses that. -/
  | outOfRange
  /-- The range is empty with bound zero, so there is nothing to wrap into. -/
  | zeroBound
  deriving DecidableEq, Repr

/-- What is said of a remainder by zero. -/
def ShiftError.message : ShiftError → String
  | .outOfRange => "result out of range"
  | .zeroBound => "integer modulo by zero"

/-- Moves `value` by `delta` inside `[0, bound - 1]`. A remainder takes the sign of the bound. -/
def shift (value delta bound : Int) (mode : Overflow) : Except ShiftError Int :=
  let target := value + delta
  if 0 ≤ target ∧ target < bound then .ok target
  else
    match mode with
    | .wrap => if bound = 0 then .error .zeroBound else .ok (target.fmod bound)
    | .saturate => .ok (if target < 0 then 0 else bound - 1)
    | .check => .error .outOfRange

theorem shift_of_mem {value delta bound : Int} (mode : Overflow) (h₀ : 0 ≤ value + delta)
    (h₁ : value + delta < bound) : shift value delta bound mode = .ok (value + delta) := by
  simp [shift, h₀, h₁]

theorem shift_wrap {value delta bound : Int} (h : 0 < bound) :
    shift value delta bound .wrap = .ok ((value + delta) % bound) := by
  by_cases hr : 0 ≤ value + delta ∧ value + delta < bound
  · rw [shift_of_mem _ hr.1 hr.2, Int.emod_eq_of_lt hr.1 hr.2]
  · simp [shift, hr, Int.ne_of_gt h, Int.fmod_eq_emod_of_nonneg _ (Int.le_of_lt h)]

theorem shift_saturate {value delta bound : Int} (h : 0 < bound) :
    shift value delta bound .saturate = .ok (max 0 (min (value + delta) (bound - 1))) := by
  by_cases hr : 0 ≤ value + delta ∧ value + delta < bound
  · rw [shift_of_mem _ hr.1 hr.2]; congr 1; omega
  · by_cases hn : value + delta < 0
    · simp [shift, hr, hn]; omega
    · simp [shift, hr, hn]; omega

theorem shift_check {value delta bound : Int} (h : ¬ (0 ≤ value + delta ∧ value + delta < bound)) :
    shift value delta bound .check = .error .outOfRange := by
  simp [shift, h]

theorem shift_range {value delta bound w : Int} {mode : Overflow} (hb : 0 < bound)
    (h : shift value delta bound mode = .ok w) : 0 ≤ w ∧ w < bound := by
  by_cases hr : 0 ≤ value + delta ∧ value + delta < bound
  · rw [shift_of_mem mode hr.1 hr.2] at h
    cases h
    exact hr
  · cases mode with
    | wrap =>
        rw [shift_wrap hb] at h
        cases h
        exact ⟨Int.emod_nonneg _ (by omega), Int.emod_lt_of_pos _ hb⟩
    | saturate =>
        rw [shift_saturate hb] at h
        cases h
        omega
    | check =>
        rw [shift_check hr] at h
        cases h

/-- **A shift is refused exactly if it would leave the range and the mode checks that.** -/
theorem shift_eq_error_iff {value delta bound : Int} {mode : Overflow} {e : ShiftError}
    (hb : 0 < bound) :
    shift value delta bound mode = .error e ↔
      e = .outOfRange ∧ mode = .check ∧ ¬(0 ≤ value + delta ∧ value + delta < bound) := by
  by_cases hr : 0 ≤ value + delta ∧ value + delta < bound
  · simp [shift_of_mem mode hr.1 hr.2, hr]
  · cases mode with
    | wrap => simp [shift_wrap hb]
    | saturate => simp [shift_saturate hb]
    | check => simp [shift_check hr, hr, eq_comm]

end TapeLang
