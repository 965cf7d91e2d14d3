import TapeLang.Text.Utf8

/-!
# What reading bytes as text keeps

* `Pending.Sound`, `sound_step` — what is known of a character that has begun: no ASCII byte
  continues it, and it will be none of ASCII.
* `decodeFrom_append_ascii` — an ASCII byte is shown as its character, whatever stands before it and
  behind it.
* `length_decodeFrom_le` — no more characters are shown than there are bytes; `decodeFrom_of_ascii`
  — each byte is one, if all of them are ASCII.
* `newline_notMem_decodeFrom` — only a newline byte is shown as a newline.
-/

namespace TapeLang.Text.Utf8

/-- **A character that has begun is beyond ASCII**: so are the bytes that continue it, and the code
point that its bits come to. -/
structure Pending.Sound (p : Pending) : Prop where
  low : 0x80 ≤ p.low
  beyond : 2 ≤ p.bits ∨ p.owed ≠ 1 ∧ (1 ≤ p.bits ∨ 0x82 ≤ p.low)

/-- The same, if a character has begun. -/
def Sound (q : Option Pending) : Prop :=
  ∀ p ∈ q, p.Sound

theorem sound_none : Sound none :=
  fun _ h => nomatch h

variable {p : Pending} {q : Option Pending} {b : UInt8}

/-! ## One byte -/

theorem begin_ascii (hb : b < 0x80) : begin b = ([Char.ofNat b.toNat], none) := by
  simp [begin, lead, hb]

theorem length_begin (b : UInt8) : (begin b).1.length + (begin b).2.toList.length = 1 := by
  unfold begin
  split <;> rfl

theorem step_last (hb : p.low ≤ b ∧ b ≤ p.high) (hlast : p.owed = 1) :
    step (some p) b = ([Char.ofNat (p.bits * 64 + (b.toNat - 0x80))], none) := by
  simp [step, hb, hlast]

theorem step_next (hb : p.low ≤ b ∧ b ≤ p.high) (hlast : p.owed ≠ 1) :
    step (some p) b = ([], some ⟨p.owed - 1, 0x80, 0xBF, p.bits * 64 + (b.toNat - 0x80)⟩) := by
  simp [step, hb, hlast]

theorem step_broken (hb : ¬(p.low ≤ b ∧ b ≤ p.high)) :
    step (some p) b = (replacement :: (begin b).1, (begin b).2) := by
  simp [step, hb]

theorem length_step_le (q : Option Pending) (b : UInt8) :
    (step q b).1.length + (step q b).2.toList.length ≤ q.toList.length + 1 := by
  have hbegin := length_begin b
  cases q with
  | none => exact Nat.le_of_eq hbegin
  | some p =>
      by_cases hb : p.low ≤ b ∧ b ≤ p.high
      · by_cases hlast : p.owed = 1
        · simp [step_last hb hlast]
        · simp [step_next hb hlast]
      · simp only [step_broken hb, List.length_cons, Option.toList_some, List.length_nil]
        omega

/-! ## A character that has begun -/

theorem sound_of_lead (h : lead b = .partly p) : p.Sound := by
  unfold lead at h
  -- The bounds on the second byte make up for leading bits that are all zero.
  repeat' split at h
  all_goals cases h
  all_goals constructor
  all_goals simp [UInt8.le_iff_toNat_le, UInt8.lt_iff_toNat_lt, ← UInt8.toNat_inj] at *
  all_goals omega

theorem sound_begin (b : UInt8) : Sound (begin b).2 := by
  intro p hp
  unfold begin at hp
  cases hlead : lead b with
  | whole c => simp [hlead] at hp
  | partly p' =>
      obtain rfl : p' = p := by simpa [hlead] using hp
      exact sound_of_lead hlead
  | stray => simp [hlead] at hp

/-- With each byte a character has more bits, and never too few for the bytes it still needs. -/
theorem Pending.Sound.two_le (h : p.Sound) (hb : p.low ≤ b) :
    2 ≤ p.bits * 64 + (b.toNat - 0x80) := by
  obtain ⟨_, hbits | ⟨_, hbits | hlow⟩⟩ := h
  · omega
  · omega
  · have : 0x82 ≤ b.toNat := UInt8.le_iff_toNat_le.mp (UInt8.le_trans hlow hb)
    omega

theorem Pending.Sound.ascii_lt (h : p.Sound) (hlast : p.owed = 1) (b : UInt8) :
    0x7F < p.bits * 64 + (b.toNat - 0x80) := by
  obtain hbits | ⟨hlast', _⟩ := h.beyond
  · omega
  · exact absurd hlast hlast'

theorem sound_step (h : Sound q) (b : UInt8) : Sound (step q b).2 := by
  cases q with
  | none => exact sound_begin b
  | some p =>
      have hp : p.Sound := h p rfl
      by_cases hb : p.low ≤ b ∧ b ≤ p.high
      · by_cases hlast : p.owed = 1
        · rw [step_last hb hlast]
          exact sound_none
        · rw [step_next hb hlast]
          rintro _ ⟨⟩
          exact ⟨UInt8.le_refl _, .inl (hp.two_le hb.1)⟩
      · rw [step_broken hb]
        exact sound_begin b

theorem step_ascii (h : Sound q) (hb : b < 0x80) :
    step q b = (decodeFrom q [] ++ [Char.ofNat b.toNat], none) := by
  cases q with
  | none => exact begin_ascii hb
  | some p =>
      have hlow : b < p.low := UInt8.lt_of_lt_of_le hb (h p rfl).low
      have hbroken : ¬(p.low ≤ b ∧ b ≤ p.high) := fun hin => UInt8.not_le.mpr hlow hin.1
      rw [step_broken hbroken, begin_ascii hb]
      rfl

/-! ## All bytes -/

/-- **An ASCII byte is shown as its character**, whatever stands before it and behind it. -/
theorem decodeFrom_append_ascii (h : Sound q) (xs : List UInt8) (hb : b < 0x80) (ys : List UInt8) :
    decodeFrom q (xs ++ b :: ys) = decodeFrom q xs ++ Char.ofNat b.toNat :: decodeFrom none ys := by
  induction xs generalizing q with
  | nil =>
      rw [List.nil_append, decodeFrom, step_ascii h hb, List.append_assoc]
      rfl
  | cons x xs ih =>
      rw [List.cons_append, decodeFrom, decodeFrom, ih (sound_step h x), List.append_assoc]

/-- **No more characters are shown than there are bytes**; one more than that for a character that
has begun. -/
theorem length_decodeFrom_le (q : Option Pending) (bytes : List UInt8) :
    (decodeFrom q bytes).length ≤ q.toList.length + bytes.length := by
  induction bytes generalizing q with
  | nil => cases q <;> simp [decodeFrom]
  | cons b bytes ih =>
      have hfirst := length_step_le q b
      have hlater := ih (step q b).2
      rw [decodeFrom, List.length_append, List.length_cons]
      omega

theorem decodeFrom_of_ascii {bytes : List UInt8} (h : ∀ b ∈ bytes, b < 0x80) :
    decodeFrom none bytes = bytes.map fun b => Char.ofNat b.toNat := by
  induction bytes with
  | nil => rfl
  | cons b bytes ih =>
      obtain ⟨hb, hlater⟩ := List.forall_mem_cons.mp h
      rw [decodeFrom, step, begin_ascii hb, ih hlater]
      rfl

/-! ## Newlines -/

theorem ofNat_ne_newline {n : Nat} (h : n ≠ 0x0A) : Char.ofNat n ≠ '\n' := by
  intro heq
  by_cases hv : n.isValidChar
  · have hn : (Char.ofNat n).toNat = n := by
      rw [Char.ofNat, dif_pos hv]
      rfl
    rw [heq] at hn
    exact h hn.symm
  · rw [Char.ofNat, dif_neg hv] at heq
    exact absurd heq (by decide)

theorem newline_notMem_begin (hb : b ≠ 0x0A) : '\n' ∉ (begin b).1 := by
  unfold begin
  cases hlead : lead b with
  | whole c =>
      obtain rfl : Char.ofNat b.toNat = c := by
        unfold lead at hlead
        repeat' split at hlead
        all_goals cases hlead
        rfl
      have hne : b.toNat ≠ 0x0A := fun h => hb (UInt8.toNat_inj.mp h)
      exact mt List.mem_singleton.mp (ofNat_ne_newline hne).symm
  | partly p => exact List.not_mem_nil
  | stray => decide

theorem newline_notMem_step (h : Sound q) (hb : b ≠ 0x0A) : '\n' ∉ (step q b).1 := by
  have hbegin := newline_notMem_begin hb
  cases q with
  | none => exact hbegin
  | some p =>
      by_cases hin : p.low ≤ b ∧ b ≤ p.high
      · by_cases hlast : p.owed = 1
        · rw [step_last hin hlast]
          have hlt := (h p rfl).ascii_lt hlast b
          have hne : p.bits * 64 + (b.toNat - 0x80) ≠ 0x0A := by omega
          exact mt List.mem_singleton.mp (ofNat_ne_newline hne).symm
        · rw [step_next hin hlast]
          exact List.not_mem_nil
      · rw [step_broken hin]
        exact List.not_mem_cons_of_ne_of_not_mem (by decide) hbegin

/-- **Only a newline byte is shown as a newline.** -/
theorem newline_notMem_decodeFrom (h : Sound q) {bytes : List UInt8} (hbytes : 0x0A ∉ bytes) :
    '\n' ∉ decodeFrom q bytes := by
  induction bytes generalizing q with
  | nil =>
      cases q with
      | none => exact List.not_mem_nil
      | some p => exact mt List.mem_singleton.mp (by decide)
  | cons b bytes ih =>
      obtain ⟨hb, hlater⟩ := List.ne_and_not_mem_of_not_mem_cons hbytes
      rw [decodeFrom, List.mem_append, not_or]
      exact ⟨newline_notMem_step h hb.symm, ih (sound_step h b) hlater⟩

end TapeLang.Text.Utf8
