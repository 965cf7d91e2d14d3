import TapeLang.Text.Utf8

/-!
# The encodings of characters

* `encode_one` to `encode_four` — the bytes of a character, by their number;
  `utf8EncodeChar_beyond`, `utf8EncodeChar_of_mem` — those of ASCII stand for themselves, and in no
  other encoding.
* `lead_one` to `lead_stray` — what a byte begins, by its number; `Pending.CompletedBy` — the bytes
  that complete a character that has begun.
* `utf8EncodeChar_eq_cons_iff` — what a byte begins is what its encodings go on with.
* `utf8EncodeChar_prefixFree` — no encoding begins another.
-/

namespace TapeLang.Text.Utf8

open String (utf8EncodeChar)

variable {p : Pending} {b : UInt8} {c d : Char} {bytes rest : List UInt8}

/-! ## The bytes of a character -/

theorem toNat_scalar (c : Char) : c.toNat < 0xD800 ∨ 0xDFFF < c.toNat ∧ c.toNat < 0x110000 :=
  c.valid

theorem toNat_ofNat {n : Nat} (h : n < 0xD800 ∨ 0xDFFF < n ∧ n < 0x110000) :
    (Char.ofNat n).toNat = n := by
  rw [Char.ofNat, dif_pos h]
  rfl

theorem encode_one (h : c.toNat < 0x80) : utf8EncodeChar c = [UInt8.ofNat c.toNat] :=
  if_pos (Nat.le_of_lt_succ h)

theorem encode_two (hlow : 0x80 ≤ c.toNat) (hhigh : c.toNat < 0x800) :
    ∃ b₀ b₁ : UInt8, utf8EncodeChar c = [b₀, b₁] ∧ b₀.toNat = c.toNat / 64 + 0xC0 ∧
      b₁.toNat = c.toNat % 64 + 0x80 := by
  refine ⟨_, _, (if_neg (Nat.not_le.mpr hlow)).trans (if_pos (Nat.le_of_lt_succ hhigh)), ?_,
    ?_⟩ <;> simp <;> omega

theorem encode_three (hlow : 0x800 ≤ c.toNat) (hhigh : c.toNat < 0x10000) :
    ∃ b₀ b₁ b₂ : UInt8, utf8EncodeChar c = [b₀, b₁, b₂] ∧ b₀.toNat = c.toNat / 4096 + 0xE0 ∧
      b₁.toNat = c.toNat / 64 % 64 + 0x80 ∧ b₂.toNat = c.toNat % 64 + 0x80 := by
  refine ⟨_, _, _,
    (if_neg (Nat.not_le.mpr ?_)).trans
    ((if_neg (Nat.not_le.mpr hlow)).trans (if_pos (Nat.le_of_lt_succ hhigh))),
    ?_, ?_, ?_⟩
  · change 127 < c.toNat
    omega
  all_goals simp
  all_goals omega

theorem encode_four (hlow : 0x10000 ≤ c.toNat) :
    ∃ b₀ b₁ b₂ b₃ : UInt8, utf8EncodeChar c = [b₀, b₁, b₂, b₃] ∧
      b₀.toNat = c.toNat / 262144 + 0xF0 ∧
      b₁.toNat = c.toNat / 4096 % 64 + 0x80 ∧ b₂.toNat = c.toNat / 64 % 64 + 0x80 ∧
        b₃.toNat = c.toNat % 64 + 0x80 := by
  have hscalar := toNat_scalar c
  refine ⟨_, _, _, _,
    (if_neg (Nat.not_le.mpr ?_)).trans
    ((if_neg (Nat.not_le.mpr ?_)).trans (if_neg (Nat.not_le.mpr hlow))),
    ?_, ?_, ?_, ?_⟩
  · change 127 < c.toNat
    omega
  · change 2047 < c.toNat
    omega
  all_goals simp
  all_goals omega

/-- **A character beyond ASCII is written with bytes beyond ASCII.** -/
theorem utf8EncodeChar_beyond (h : 0x80 ≤ c.toNat) (hb : b ∈ utf8EncodeChar c) : 0x80 ≤ b := by
  rw [UInt8.le_iff_toNat_le]
  show 0x80 ≤ b.toNat
  by_cases h₂ : c.toNat < 0x800
  · obtain ⟨b₀, b₁, hcode, hb₀, hb₁⟩ := encode_two h h₂
    simp only [hcode, List.mem_cons, List.not_mem_nil, or_false] at hb
    rcases hb with rfl | rfl <;> omega
  by_cases h₃ : c.toNat < 0x10000
  · obtain ⟨b₀, b₁, b₂, hcode, hb₀, hb₁, hb₂⟩ := encode_three (Nat.le_of_not_lt h₂) h₃
    simp only [hcode, List.mem_cons, List.not_mem_nil, or_false] at hb
    rcases hb with rfl | rfl | rfl <;> omega
  · obtain ⟨b₀, b₁, b₂, b₃, hcode, hb₀, hb₁, hb₂, hb₃⟩ := encode_four (Nat.le_of_not_lt h₃)
    simp only [hcode, List.mem_cons, List.not_mem_nil, or_false] at hb
    rcases hb with rfl | rfl | rfl | rfl <;> omega

/-- **A byte of ASCII in the encoding of a character is all of it.** -/
theorem utf8EncodeChar_of_mem (hb : b ∈ utf8EncodeChar c) (hascii : b < 0x80) :
    utf8EncodeChar c = [b] := by
  by_cases hc : c.toNat < 0x80
  · rw [encode_one hc] at hb ⊢
    rw [List.mem_singleton.mp hb]
  · exact absurd (utf8EncodeChar_beyond (Nat.le_of_not_lt hc) hb) (UInt8.not_le.mpr hascii)

/-! ## The bytes that complete a character -/

/-- A character that has begun, one byte further. -/
def Pending.next (p : Pending) (b : UInt8) : Pending :=
  ⟨p.owed - 1, 0x80, 0xBF, p.bits * 64 + (b.toNat - 0x80)⟩

/-- **The bytes complete the character that has begun**, and it is then `c`. -/
inductive Pending.CompletedBy : Pending → List UInt8 → Char → Prop
  | last {p : Pending} {b : UInt8} {c : Char} : p.owed = 1 → p.low ≤ b ∧ b ≤ p.high →
    Char.ofNat (p.next b).bits = c →
      p.CompletedBy [b] c
  | next {p : Pending} {b : UInt8} {rest : List UInt8} {c : Char} : p.owed ≠ 1 → p.low ≤ b ∧
    b ≤ p.high →
      (p.next b).CompletedBy rest c → p.CompletedBy (b :: rest) c

/-- The bytes that go on with what a byte has begun. -/
def Lead.CompletedBy : Lead → List UInt8 → Char → Prop
  | .whole d, rest, c => rest = [] ∧ d = c
  | .partly p, rest, c => p.CompletedBy rest c
  | .stray, _, _ => False

theorem lead_one (h : b.toNat < 0x80) : lead b = .whole (Char.ofNat b.toNat) :=
  if_pos (UInt8.lt_iff_toNat_lt.mpr h)

theorem lead_stray (h : 0x80 ≤ b.toNat ∧ b.toNat < 0xC2 ∨ 0xF5 ≤ b.toNat) : lead b = .stray := by
  unfold lead
  repeat' split
  all_goals simp [UInt8.lt_iff_toNat_lt] at *
  all_goals omega

theorem lead_two (hlow : 0xC2 ≤ b.toNat) (hhigh : b.toNat < 0xE0) :
    lead b = .partly ⟨1, 0x80, 0xBF, b.toNat - 0xC0⟩ := by
  unfold lead
  simp only [UInt8.lt_iff_toNat_lt]
  rw [if_neg, if_neg, if_pos] <;> simp <;> omega

/-- The second byte of three leaves out overlong forms and surrogates. -/
theorem lead_three (hlow : 0xE0 ≤ b.toNat) (hhigh : b.toNat < 0xF0) :
    ∃ low high : UInt8, lead b = .partly ⟨2, low, high, b.toNat - 0xE0⟩ ∧
      (b.toNat = 0xE0 ∧ low.toNat = 0xA0 ∨ b.toNat ≠ 0xE0 ∧ low.toNat = 0x80) ∧
      (b.toNat = 0xED ∧ high.toNat = 0x9F ∨ b.toNat ≠ 0xED ∧ high.toNat = 0xBF) := by
  refine ⟨if b = 0xE0 then 0xA0 else 0x80, if b = 0xED then 0x9F else 0xBF, ?_, ?_, ?_⟩
  · unfold lead
    simp only [UInt8.lt_iff_toNat_lt]
    rw [if_neg, if_neg, if_neg, if_pos] <;> simp <;> omega
  all_goals
    simp only [← UInt8.toNat_inj]
    split <;> simp_all

/-- The second byte of four leaves out overlong forms and what lies beyond U+10FFFF. -/
theorem lead_four (hlow : 0xF0 ≤ b.toNat) (hhigh : b.toNat < 0xF5) :
    ∃ low high : UInt8, lead b = .partly ⟨3, low, high, b.toNat - 0xF0⟩ ∧
      (b.toNat = 0xF0 ∧ low.toNat = 0x90 ∨ b.toNat ≠ 0xF0 ∧ low.toNat = 0x80) ∧
      (b.toNat = 0xF4 ∧ high.toNat = 0x8F ∨ b.toNat ≠ 0xF4 ∧ high.toNat = 0xBF) := by
  refine ⟨if b = 0xF0 then 0x90 else 0x80, if b = 0xF4 then 0x8F else 0xBF, ?_, ?_, ?_⟩
  · unfold lead
    simp only [UInt8.lt_iff_toNat_lt]
    rw [if_neg, if_neg, if_neg, if_neg, if_pos] <;> simp <;> omega
  all_goals
    simp only [← UInt8.toNat_inj]
    split <;> simp_all

/-! ## Encodings and the machine -/

theorem completedBy_of_encode (h : utf8EncodeChar c = b :: rest) : (lead b).CompletedBy rest c := by
  have hc : Char.ofNat c.toNat = c := Char.ofNat_toNat c
  have hscalar := toNat_scalar c
  by_cases h₁ : c.toNat < 0x80
  · obtain ⟨rfl, rfl⟩ := List.cons.inj ((encode_one h₁).symm.trans h)
    have hb : (UInt8.ofNat c.toNat).toNat = c.toNat :=
      UInt8.toNat_ofNat_of_lt' (Nat.lt_trans h₁ (by decide))
    rw [lead_one (by omega), hb]
    exact ⟨rfl, hc⟩
  by_cases h₂ : c.toNat < 0x800
  · obtain ⟨b₀, b₁, hcode, hb₀, hb₁⟩ := encode_two (Nat.le_of_not_lt h₁) h₂
    obtain ⟨rfl, rfl⟩ := List.cons.inj (hcode.symm.trans h)
    rw [lead_two (by omega) (by omega)]
    refine .last rfl ?_ (Eq.trans (congrArg Char.ofNat ?_) hc)
    · simp [UInt8.le_iff_toNat_le]
      omega
    · simp [Pending.next]
      omega
  by_cases h₃ : c.toNat < 0x10000
  · obtain ⟨b₀, b₁, b₂, hcode, hb₀, hb₁, hb₂⟩ := encode_three (Nat.le_of_not_lt h₂) h₃
    obtain ⟨rfl, rfl⟩ := List.cons.inj (hcode.symm.trans h)
    obtain ⟨low, high, hlead, hlow, hhigh⟩ := lead_three (b := b₀) (by omega) (by omega)
    rw [hlead]
    refine .next (Nat.succ_ne_self 1) ?_ (.last rfl ?_ (Eq.trans (congrArg Char.ofNat ?_) hc))
    all_goals simp [Pending.next, UInt8.le_iff_toNat_le]
    all_goals omega
  · obtain ⟨b₀, b₁, b₂, b₃, hcode, hb₀, hb₁, hb₂, hb₃⟩ := encode_four (Nat.le_of_not_lt h₃)
    obtain ⟨rfl, rfl⟩ := List.cons.inj (hcode.symm.trans h)
    obtain ⟨low, high, hlead, hlow, hhigh⟩ := lead_four (b := b₀) (by omega) (by omega)
    rw [hlead]
    refine .next (by simp) ?_
      (.next (Nat.succ_ne_self 1) ?_ (.last rfl ?_ (Eq.trans (congrArg Char.ofNat ?_) hc)))
    all_goals simp [Pending.next, UInt8.le_iff_toNat_le]
    all_goals omega

/-- What completes what a byte has begun is the rest of an encoding. -/
theorem encode_of_completedBy (h : (lead b).CompletedBy rest c) : utf8EncodeChar c = b :: rest := by
  by_cases h₁ : b.toNat < 0x80
  · rw [lead_one h₁] at h
    obtain ⟨rfl, rfl⟩ := h
    have hc : (Char.ofNat b.toNat).toNat = b.toNat := toNat_ofNat (.inl (by omega))
    rw [encode_one (by omega), hc, UInt8.ofNat_toNat]
  by_cases hstray : 0x80 ≤ b.toNat ∧ b.toNat < 0xC2 ∨ 0xF5 ≤ b.toNat
  · rw [lead_stray hstray] at h
    exact h.elim
  by_cases h₂ : b.toNat < 0xE0
  · rw [lead_two (by omega) h₂] at h
    rcases h with ⟨_, hb₁, rfl⟩ | ⟨hmore, _⟩
    · simp [UInt8.le_iff_toNat_le, Pending.next] at hb₁ ⊢
      generalize hv : (b.toNat - 0xC0) * 64 + (_ - 0x80) = v
      have hc : (Char.ofNat v).toNat = v := toNat_ofNat (by omega)
      obtain ⟨b₀', b₁', hcode, hb₀', hb₁'⟩ := encode_two (c := Char.ofNat v) (by omega) (by omega)
      rw [hcode]
      simp [← UInt8.toNat_inj]
      omega
    · exact absurd rfl hmore
  by_cases h₃ : b.toNat < 0xF0
  · obtain ⟨low, high, hlead, hlow, hhigh⟩ := lead_three (b := b) (by omega) h₃
    rw [hlead] at h
    rcases h with ⟨hone, _⟩ | ⟨_, hb₁, ⟨_, hb₂, rfl⟩ | ⟨hmore, _⟩⟩
    · exact absurd hone (Nat.succ_ne_self 1)
    · simp [UInt8.le_iff_toNat_le, Pending.next] at hb₁ hb₂ ⊢
      generalize hv : ((b.toNat - 0xE0) * 64 + (_ - 0x80)) * 64 + (_ - 0x80) = v
      have hc : (Char.ofNat v).toNat = v := toNat_ofNat (by omega)
      obtain ⟨b₀', b₁', b₂', hcode, hb₀', hb₁', hb₂'⟩ :=
        encode_three (c := Char.ofNat v) (by omega) (by omega)
      rw [hcode]
      simp [← UInt8.toNat_inj]
      omega
    · exact absurd rfl hmore
  · obtain ⟨low, high, hlead, hlow, hhigh⟩ := lead_four (b := b) (by omega) (by omega)
    rw [hlead] at h
    rcases h with ⟨hone, _⟩ | ⟨_, hb₁, ⟨hone, _⟩ | ⟨_, hb₂, ⟨_, hb₃, rfl⟩ | ⟨hmore, _⟩⟩⟩
    · exact absurd hone (by simp)
    · exact absurd hone (Nat.succ_ne_self 1)
    · simp [UInt8.le_iff_toNat_le, Pending.next] at hb₁ hb₂ hb₃ ⊢
      generalize hv : (((b.toNat - 0xF0) * 64 + (_ - 0x80)) * 64 + (_ - 0x80)) * 64 + (_ - 0x80) = v
      have hc : (Char.ofNat v).toNat = v := toNat_ofNat (by omega)
      obtain ⟨b₀', b₁', b₂', b₃', hcode, hb₀', hb₁', hb₂', hb₃'⟩ :=
        encode_four (c := Char.ofNat v) (by omega)
      rw [hcode]
      simp [← UInt8.toNat_inj]
      omega
    · exact absurd rfl hmore

/-- **What a byte begins is what its encodings go on with.** -/
theorem utf8EncodeChar_eq_cons_iff : utf8EncodeChar c = b :: rest ↔ (lead b).CompletedBy rest c :=
  ⟨completedBy_of_encode, encode_of_completedBy⟩

/-- Of two encodings at the beginning of the same bytes neither goes on behind the other. -/
theorem Pending.CompletedBy.unique {others : List UInt8} (h : p.CompletedBy bytes c)
    (h' : p.CompletedBy others d) (hbegin : bytes <+: others) : c = d := by
  induction h generalizing others with
  | last hone _ hc =>
      cases h' with
      | last _ _ hd =>
          obtain ⟨rfl, _⟩ := List.cons_prefix_cons.mp hbegin
          exact hc.symm.trans hd
      | next hmore _ _ => exact absurd hone hmore
  | next hmore _ _ ih =>
      cases h' with
      | last hone _ _ => exact absurd hone hmore
      | next _ _ h' =>
          obtain ⟨rfl, hrest⟩ := List.cons_prefix_cons.mp hbegin
          exact ih h' hrest

/-- **No encoding of a character begins the encoding of another.** -/
theorem utf8EncodeChar_prefixFree (h : utf8EncodeChar c <+: utf8EncodeChar d) : c = d := by
  obtain ⟨b, bytes, hc⟩ := List.exists_cons_of_ne_nil (String.utf8EncodeChar_ne_nil (c := c))
  obtain ⟨b', others, hd⟩ := List.exists_cons_of_ne_nil (String.utf8EncodeChar_ne_nil (c := d))
  rw [hc, hd] at h
  obtain ⟨rfl, hrest⟩ := List.cons_prefix_cons.mp h
  have hbytes := utf8EncodeChar_eq_cons_iff.mp hc
  have hothers := utf8EncodeChar_eq_cons_iff.mp hd
  cases hlead : lead b with
  | whole e =>
      rw [hlead] at hbytes hothers
      exact hbytes.2.symm.trans hothers.2
  | partly p =>
      rw [hlead] at hbytes hothers
      exact hbytes.unique hothers hrest
  | stray =>
      rw [hlead] at hbytes
      exact hbytes.elim

end TapeLang.Text.Utf8
