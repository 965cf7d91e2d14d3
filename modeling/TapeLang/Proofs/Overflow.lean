import TapeLang.Overflow

/-!
# Laws of shifting

* `shift_zero` — a number in its range stays where it is.
* `shift_shift` — two shifts are one by the sum: always where numbers wrap around, and where they
  are clamped or checked if both go the same way.
* `shift_le` — a bound for what a shift gives.
* `shift_outcome`, `shift_saturate_nearest`, `shift_saturate_mono` — a shift gives a number of the
  range or is refused; one that saturates gives the nearest, and keeps the order.
* `ShiftLaws`, `shift_lawful` — all laws together, for every range.
-/

namespace TapeLang

variable {value bound : Int}

theorem shift_zero (mode : Overflow) (h : 0 ≤ value ∧ value < bound) :
    shift value 0 bound mode = .ok value := by
  rw [shift_of_mem mode (by omega) (by omega), Int.add_zero]

/-- **Two shifts are one by the sum.** A number that is refused once stays refused. -/
theorem shift_shift {d₁ d₂ : Int} {mode : Overflow} (h : 0 ≤ value ∧ value < bound)
    (hd : mode = .wrap ∨ (0 ≤ d₁ ∧ 0 ≤ d₂) ∨ (d₁ ≤ 0 ∧ d₂ ≤ 0)) :
    (shift value d₁ bound mode).bind (fun w => shift w d₂ bound mode) =
      shift value (d₁ + d₂) bound mode := by
  have hb : 0 < bound := by omega
  cases mode with
  | wrap =>
      simp only [shift_wrap hb, Except.bind]
      rw [Int.emod_add_emod, Int.add_assoc]
  | saturate =>
      have hsign := hd.resolve_left (by decide)
      simp only [shift_saturate hb, Except.bind]
      congr 1
      omega
  | check =>
      have hsign := hd.resolve_left (by decide)
      by_cases hfirst : 0 ≤ value + d₁ ∧ value + d₁ < bound
      · rw [shift_of_mem _ hfirst.1 hfirst.2]
        simp only [Except.bind, shift, Int.add_assoc]
      · rw [shift_check hfirst, shift_check (by omega)]
        rfl

theorem shift_le {delta w : Int} {mode : Overflow} (h : 0 ≤ value ∧ value < bound)
    (hmode : mode ≠ .wrap) (hw : shift value delta bound mode = .ok w) :
    w ≤ max value (value + delta) := by
  by_cases hr : 0 ≤ value + delta ∧ value + delta < bound
  · rw [shift_of_mem mode hr.1 hr.2] at hw
    obtain rfl := Except.ok.inj hw
    exact Int.le_max_right _ _
  · cases mode with
    | wrap => exact absurd rfl hmode
    | saturate =>
        rw [shift_saturate (by omega)] at hw
        obtain rfl := Except.ok.inj hw
        omega
    | check =>
        rw [shift_check hr] at hw
        cases hw

theorem shift_outcome (hb : 0 < bound) (value delta : Int) (mode : Overflow) :
    (∃ w, shift value delta bound mode = .ok w ∧ 0 ≤ w ∧ w < bound) ∨
      shift value delta bound mode = .error .outOfRange := by
  cases h : shift value delta bound mode with
  | ok w => exact .inl ⟨w, rfl, shift_range hb h⟩
  | error e => exact .inr (congrArg Except.error ((shift_eq_error_iff hb).mp h).1)

/-! ## Numbers that are clamped -/

/-- **The number of `[0, bound - 1]` nearest to `target`**: every other is farther away. -/
structure NearestTo (bound target w : Int) : Prop where
  mem : 0 ≤ w ∧ w ≤ bound - 1
  farther : ∀ u, 0 ≤ u → u ≤ bound - 1 → u ≠ w → (target - w).natAbs < (target - u).natAbs

/-- **A number that saturates becomes the nearest of its range.** -/
theorem shift_saturate_nearest (hb : 0 < bound) (value delta : Int) :
    ∃ w, shift value delta bound .saturate = .ok w ∧ NearestTo bound (value + delta) w :=
  ⟨_, shift_saturate hb, by omega, fun u hu₀ hu₁ hne => by omega⟩

theorem shift_saturate_mono (hb : 0 < bound) {value' delta delta' w w' : Int}
    (hv : value ≤ value') (hd : delta ≤ delta') (h : shift value delta bound .saturate = .ok w)
    (h' : shift value' delta' bound .saturate = .ok w') : w ≤ w' := by
  rw [shift_saturate hb] at h h'
  obtain rfl := Except.ok.inj h
  obtain rfl := Except.ok.inj h'
  omega

/-! ## All laws -/

/-- **The laws of shifting in `[0, bound - 1]`.** -/
structure ShiftLaws (bound : Int) : Prop where
  outcome : ∀ value delta mode,
    (∃ w, shift value delta bound mode = .ok w ∧ 0 ≤ w ∧ w ≤ bound - 1) ∨
      shift value delta bound mode = .error .outOfRange
  refused_iff : ∀ value delta mode, shift value delta bound mode = .error .outOfRange ↔
    mode = .check ∧ ¬(0 ≤ value + delta ∧ value + delta ≤ bound - 1)
  /-- Inside the range the mode makes no difference. -/
  inside : ∀ value delta mode, 0 ≤ value + delta → value + delta ≤ bound - 1 →
    shift value delta bound mode = .ok (value + delta)
  wrap : ∀ value delta, ∃ w, shift value delta bound .wrap = .ok w ∧
    w % bound = (value + delta) % bound
  saturate : ∀ value delta, ∃ w, shift value delta bound .saturate = .ok w ∧
    NearestTo bound (value + delta) w
  mono : ∀ value value' delta delta' w w', value ≤ value' → delta ≤ delta' →
    shift value delta bound .saturate = .ok w → shift value' delta' bound .saturate = .ok w' →
      w ≤ w'
  /-- Shifts that go the same way are one by the sum, and a refused one stays refused; where numbers
  wrap around any two are one. -/
  compose : ∀ value d₁ d₂ mode, 0 ≤ value → value ≤ bound - 1 →
    mode = .wrap ∨ (0 ≤ d₁ ∧ 0 ≤ d₂) ∨ (d₁ ≤ 0 ∧ d₂ ≤ 0) →
    (shift value d₁ bound mode).bind (fun w => shift w d₂ bound mode) =
      shift value (d₁ + d₂) bound mode

/-- **Every range has the laws of shifting**, the one that holds a single number among them: for
numbers and distances of any size a shift gives a number of the range, or is refused, exactly if it
is checked and leads out of the range; what wraps around is congruent to the sum, what saturates is
the number nearest to it, in the same order, and shifts compose. -/
theorem shift_lawful {bound : Int} (hb : 1 ≤ bound) : ShiftLaws bound where
  outcome value delta mode := by
    rcases shift_outcome hb value delta mode with ⟨w, hw, h₀, h₁⟩ | hrefused
    · exact .inl ⟨w, hw, h₀, Int.le_sub_one_of_lt h₁⟩
    · exact .inr hrefused
  refused_iff value delta mode := by
    rw [shift_eq_error_iff hb, Int.le_sub_one_iff]
    exact and_iff_right rfl
  inside value delta mode h₀ h₁ := shift_of_mem mode h₀ (Int.lt_of_le_sub_one h₁)
  wrap value delta := ⟨_, shift_wrap hb, Int.emod_emod _ _⟩
  saturate := shift_saturate_nearest hb
  mono _ _ _ _ _ _ := shift_saturate_mono hb
  compose _ _ _ _ h₀ h₁ := shift_shift ⟨h₀, Int.lt_of_le_sub_one h₁⟩

/-- The range of a single number, which every shift that is not refused leads to, and the numbers of
a byte. -/
theorem shift_lawful_byte :
    ((1 : Int) ≤ 1 ∧ ShiftLaws 1 ∧ shift 0 (-5) 1 .wrap = .ok 0 ∧ shift 0 (-5) 1 .saturate = .ok 0 ∧
      shift 0 (-5) 1 .check = .error .outOfRange) ∧
      (1 : Int) ≤ 256 ∧ ShiftLaws 256 ∧ shift 250 10 256 .wrap = .ok 4 ∧
      shift 250 10 256 .saturate = .ok 255 ∧ shift 250 10 256 .check = .error .outOfRange ∧
      shift 250 5 256 .check = .ok 255 :=
  ⟨⟨by decide, shift_lawful (by decide), rfl, rfl, rfl⟩, by decide, shift_lawful (by decide), rfl,
    rfl,
    rfl, rfl⟩

end TapeLang
