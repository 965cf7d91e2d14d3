import TapeLang.Proofs.Text.Encoding
import TapeLang.Proofs.Text.Utf8

/-!
# What bytes are read as

Reading bytes as text said without the machine that does it: the bytes are cut into encodings of
characters and, where none stands, into the longest pieces that begin one.

* `MaximalSubpart` — a piece that is shown by the replacement character.
* `Reads` — what bytes are read as; `Reads.unique`, `reads_iff` — that is what the machine shows.
* `Reads.mem` — a character that is shown is the replacement character or stands in the bytes.
* `reads_flatMap_utf8EncodeChar` — a text is read back from its encoding.
-/

namespace TapeLang.Text.Utf8

open String (utf8EncodeChar)

variable {p : Pending} {b : UInt8} {c d : Char} {bytes part rest word : List UInt8} {cs : List Char}

/-! ## What bytes are read as -/

/-- The word begins the encoding of a character, or is all of it. -/
def Begins (word : List UInt8) : Prop :=
  ∃ c, word <+: utf8EncodeChar c

/-- **`part` is a maximal invalid subpart** of `part ++ rest`: no character stands at the beginning
of the bytes, and the part is the longest of what stands there and begins one, or a single byte. -/
structure MaximalSubpart (part rest : List UInt8) : Prop where
  ne_nil : part ≠ []
  invalid : ∀ c, ¬utf8EncodeChar c <+: part ++ rest
  begins : Begins part ∨ part.length = 1
  longest : ∀ word, Begins word → word <+: part ++ rest → word.length ≤ part.length

/-- **What bytes are read as**: the characters whose encodings they consist of, and the replacement
character for each maximal invalid subpart. -/
inductive Reads : List UInt8 → List Char → Prop
  | nil : Reads [] []
  | char {rest : List UInt8} {cs : List Char} (c : Char) : Reads rest cs →
    Reads (utf8EncodeChar c ++ rest) (c :: cs)
  | broken {part rest : List UInt8} {cs : List Char} : MaximalSubpart part rest → Reads rest cs →
      Reads (part ++ rest) (replacement :: cs)

theorem MaximalSubpart.length_le {others : List UInt8} (h : MaximalSubpart part rest)
    (h' : MaximalSubpart word others) (heq : part ++ rest = word ++ others) :
    word.length ≤ part.length := by
  obtain hbegins | hone := h'.begins
  · exact h.longest word hbegins (heq ▸ List.prefix_append _ _)
  · rw [hone]
    exact List.length_pos_iff.mpr h.ne_nil

/-- **Bytes are read in one way only.** -/
theorem Reads.unique {cs' : List Char} (h : Reads bytes cs) (h' : Reads bytes cs') : cs = cs' := by
  generalize hbytes : bytes = bytes' at h'
  induction h generalizing bytes' cs' with
  | nil =>
      cases h' with
      | nil => rfl
      | char c _ =>
          exact absurd (List.append_eq_nil_iff.mp hbytes.symm).1 String.utf8EncodeChar_ne_nil
      | broken hpart _ => exact absurd (List.append_eq_nil_iff.mp hbytes.symm).1 hpart.ne_nil
  | char c _ ih =>
      cases h' with
      | nil => exact absurd (List.append_eq_nil_iff.mp hbytes).1 String.utf8EncodeChar_ne_nil
      | char d h' =>
          have hcd : c = d := by
            rcases List.prefix_or_prefix_of_prefix (List.prefix_append _ _)
              (hbytes ▸ List.prefix_append _ _) with hle | hle
            · exact (utf8EncodeChar_prefixFree hle).symm
            · exact utf8EncodeChar_prefixFree hle
          subst hcd
          rw [ih _ (List.append_cancel_left hbytes) h']
      | broken hpart _ => exact absurd (hbytes ▸ List.prefix_append _ _) (hpart.invalid c)
  | broken hpart _ ih =>
      cases h' with
      | nil => exact absurd (List.append_eq_nil_iff.mp hbytes).1 hpart.ne_nil
      | char d _ => exact absurd (hbytes ▸ List.prefix_append _ _) (hpart.invalid d)
      | broken hpart' h' =>
          have hlength :=
            Nat.le_antisymm (hpart'.length_le hpart hbytes.symm) (hpart.length_le hpart' hbytes)
          obtain ⟨rfl, hrest⟩ := List.append_inj hbytes hlength
          rw [ih _ hrest h']

/-! ## What the machine shows -/

/-- **The character that `part` has begun is `p`**: no character has ended yet, and what completes
`p` is what the encodings that begin with `part` go on with. -/
structure Pending.After (part : List UInt8) (p : Pending) : Prop where
  ne_nil : part ≠ []
  unfinished : ∀ c, ¬utf8EncodeChar c <+: part
  completed_iff : ∀ c rest, utf8EncodeChar c = part ++ rest ↔ p.CompletedBy rest c
  owed_pos : 1 ≤ p.owed
  low_le : p.low ≤ p.high

theorem Pending.exists_completedBy (howed : 1 ≤ p.owed) (hle : p.low ≤ p.high) :
    ∃ rest c, p.CompletedBy rest c := by
  obtain ⟨n, hn⟩ := Nat.exists_eq_add_of_le' howed
  induction n generalizing p with
  | zero => exact ⟨[p.low], _, .last hn ⟨UInt8.le_refl _, hle⟩ rfl⟩
  | succ n ih =>
      have hnext : (p.next p.low).owed = n + 1 := by
        rw [next, hn]
        rfl
      obtain ⟨rest, c, h⟩ := ih (by omega) (by decide : (0x80 : UInt8) ≤ 0xBF) hnext
      exact ⟨p.low :: rest, c, .next (by omega) ⟨UInt8.le_refl _, hle⟩ h⟩

theorem Pending.After.begins (h : p.After part) : Begins part := by
  obtain ⟨rest, c, hc⟩ := p.exists_completedBy h.owed_pos h.low_le
  exact ⟨c, rest, ((h.completed_iff c rest).mpr hc).symm⟩

theorem Pending.not_completedBy_nil : ¬p.CompletedBy [] c :=
  nofun

theorem Pending.after_singleton (h : lead b = .partly p) : p.After [b] := by
  have hiff : ∀ c rest, utf8EncodeChar c = [b] ++ rest ↔ p.CompletedBy rest c := by
    intro c rest
    rw [List.singleton_append, utf8EncodeChar_eq_cons_iff, h]
    rfl
  have hrange : 1 ≤ p.owed ∧ p.low ≤ p.high := by
    unfold lead at h
    repeat' split at h
    all_goals cases h
    all_goals simp_all
  refine ⟨List.cons_ne_nil _ _, fun c hc => ?_, hiff, hrange.1, hrange.2⟩
  have heq : utf8EncodeChar c = [b] :=
    hc.eq_of_length_le (List.length_pos_iff.mpr String.utf8EncodeChar_ne_nil)
  exact not_completedBy_nil ((hiff c []).mp heq)

theorem Pending.After.next (h : p.After part) (hb : p.low ≤ b ∧ b ≤ p.high) (hmore : p.owed ≠ 1) :
    (p.next b).After (part ++ [b]) := by
  have hiff : ∀ c rest, utf8EncodeChar c = part ++ [b] ++ rest ↔ (p.next b).CompletedBy rest c := by
    intro c rest
    rw [List.append_assoc, List.singleton_append, h.completed_iff]
    refine ⟨fun hc => ?_, .next hmore hb⟩
    cases hc with
    | last hone _ _ => exact absurd hone hmore
    | next _ _ hc => exact hc
  have howed : 1 ≤ p.owed - 1 := by
    have := h.owed_pos
    omega
  refine ⟨by simp, fun c hc => ?_, hiff, howed, (by decide : (0x80 : UInt8) ≤ 0xBF)⟩
  rcases List.prefix_concat_iff.mp hc with heq | hc
  · exact not_completedBy_nil ((hiff c []).mp (by rw [List.append_nil, heq]))
  · exact h.unfinished c hc

/-- Bytes that begin a character, or a single byte, are a maximal subpart when no character has
ended and none goes on with the next byte. -/
theorem maximalSubpart_of_stuck (hne : part ≠ []) (hbegins : Begins part ∨ part.length = 1)
    (hunfinished : ∀ c, ¬utf8EncodeChar c <+: part)
    (hstuck : ∀ b later c, rest = b :: later → ¬part ++ [b] <+: utf8EncodeChar c) :
    MaximalSubpart part rest := by
  have hwithin : ∀ word, Begins word → word <+: part ++ rest → word <+: part := by
    rintro word ⟨c, hword⟩ ⟨behind, hbehind⟩
    rcases List.prefix_or_prefix_of_prefix ⟨behind, hbehind⟩ (List.prefix_append part rest) with
      hle | ⟨more, rfl⟩
    · exact hle
    cases more with
    | nil => exact (List.append_nil part).symm ▸ List.prefix_refl _
    | cons b more =>
        rw [List.append_assoc, List.append_cancel_left_eq, List.cons_append] at hbehind
        have hb : part ++ [b] <+: part ++ b :: more := by simp
        exact absurd (hb.trans hword) (hstuck b _ c hbehind.symm)
  exact ⟨hne, fun c hc => hunfinished c (hwithin _ ⟨c, List.prefix_refl _⟩ hc), hbegins,
    fun word hword hle => (hwithin word hword hle).length_le⟩

/-- A byte that does not continue the character begun makes what has been read of it a maximal
subpart, and so does the end. -/
theorem Pending.After.maximalSubpart (h : p.After part)
    (hbroken : ∀ b later, rest = b :: later → ¬(p.low ≤ b ∧ b ≤ p.high)) :
    MaximalSubpart part rest := by
  refine maximalSubpart_of_stuck h.ne_nil (.inl h.begins) h.unfinished ?_
  rintro b later c hrest ⟨behind, hc⟩
  have hcompleted :=
    (h.completed_iff c (b :: behind)).mp (by rw [← hc, List.append_assoc, List.singleton_append])
  cases hcompleted with
  | last _ hb _ => exact hbroken b later hrest hb
  | next _ hb _ => exact hbroken b later hrest hb

theorem maximalSubpart_stray (h : lead b = .stray) (rest : List UInt8) :
    MaximalSubpart [b] rest := by
  have hnone : ∀ c more, utf8EncodeChar c ≠ b :: more := by
    intro c more hc
    rw [utf8EncodeChar_eq_cons_iff, h] at hc
    exact hc
  refine maximalSubpart_of_stuck (List.cons_ne_nil _ _) (.inr rfl) (fun c hc => ?_) ?_
  · exact hnone c [] (hc.eq_of_length_le (List.length_pos_iff.mpr String.utf8EncodeChar_ne_nil))
  · rintro b' later c _ ⟨behind, hc⟩
    exact hnone c _ hc.symm

theorem reads_cons (h : Reads bytes (decodeFrom none bytes))
    (hbegun : ∀ part p, p.After part → Reads (part ++ bytes) (decodeFrom (some p) bytes)) :
    Reads (b :: bytes) (decodeFrom none (b :: bytes)) := by
  rw [decodeFrom, step, begin]
  cases hlead : lead b with
  | whole c =>
      have hc : utf8EncodeChar c = [b] := by
        rw [utf8EncodeChar_eq_cons_iff, hlead]
        exact ⟨rfl, rfl⟩
      rw [← List.singleton_append, ← hc]
      exact .char c h
  | partly p => exact hbegun [b] p (Pending.after_singleton hlead)
  | stray => exact .broken (maximalSubpart_stray hlead bytes) h

/-- **The machine shows what the bytes are read as**, between characters and behind bytes that have
begun one. -/
theorem reads_decodeFrom (bytes : List UInt8) : Reads bytes (decodeFrom none bytes) ∧
    ∀ part p, p.After part → Reads (part ++ bytes) (decodeFrom (some p) bytes) := by
  induction bytes with
  | nil => exact ⟨.nil, fun part p h => .broken (h.maximalSubpart nofun) .nil⟩
  | cons b bytes ih =>
      obtain ⟨hnone, hbegun⟩ := ih
      have hfirst := reads_cons hnone hbegun (b := b)
      refine ⟨hfirst, fun part p h => ?_⟩
      by_cases hb : p.low ≤ b ∧ b ≤ p.high
      · have hsplit : part ++ b :: bytes = part ++ [b] ++ bytes := by simp
        by_cases hone : p.owed = 1
        · have hc : utf8EncodeChar (Char.ofNat (p.next b).bits) = part ++ [b] :=
            (h.completed_iff _ _).mpr (.last hone hb rfl)
          rw [decodeFrom, step_last hb hone, hsplit, ← hc]
          exact .char _ hnone
        · rw [decodeFrom, step_next hb hone, hsplit]
          exact hbegun _ _ (h.next hb hone)
      · have hbroken :
            decodeFrom (some p) (b :: bytes) = replacement :: decodeFrom none (b :: bytes) := by
          rw [decodeFrom, step_broken hb]
          rfl
        rw [hbroken]
        refine .broken (h.maximalSubpart ?_) hfirst
        rintro b' later ⟨⟩
        exact hb

/-- **What is shown is what the bytes are read as.** -/
theorem reads_iff : Reads bytes cs ↔ decodeFrom none bytes = cs :=
  ⟨fun h => (reads_decodeFrom bytes).1.unique h, fun h => h ▸ (reads_decodeFrom bytes).1⟩

/-! ## Characters in the bytes -/

/-- **A character that is shown is the replacement character or stands in the bytes.** -/
theorem Reads.mem (h : Reads bytes cs) (hc : c ∈ cs) :
    c = replacement ∨ utf8EncodeChar c <:+: bytes := by
  induction h with
  | nil => exact absurd hc List.not_mem_nil
  | char d _ ih =>
      obtain rfl | hc := List.mem_cons.mp hc
      · exact .inr (List.prefix_append _ _).isInfix
      · exact (ih hc).imp_right fun hlater => hlater.trans (List.suffix_append _ _).isInfix
  | broken _ _ ih =>
      obtain rfl | hc := List.mem_cons.mp hc
      · exact .inl rfl
      · exact (ih hc).imp_right fun hlater => hlater.trans (List.suffix_append _ _).isInfix

/-- **A text is read back from its encoding.** -/
theorem reads_flatMap_utf8EncodeChar (cs : List Char) : Reads (cs.flatMap utf8EncodeChar) cs := by
  induction cs with
  | nil => exact .nil
  | cons c cs ih => exact .char c ih

end TapeLang.Text.Utf8
