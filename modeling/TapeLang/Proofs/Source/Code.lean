import TapeLang.Proofs.Program.Pairing
import TapeLang.Source.Token

/-!
# The instructions of a source and where they stand

* `Source.code`, `Source.offsets` — the instructions of a source without their places, and the
  places alone.
* `Source.brackets` — the brackets among bytes; `balanced_code_iff` says that they pair up exactly
  if those among the instructions do: comments do not matter.
* `exists_split` — a split of the instructions comes from a split of the source, and `offsets_split`
  says where the instruction at the split stands.
* `waiting_of_code` — the open brackets of the instructions, carried over to the source.
-/

namespace TapeLang.Source

/-- The instructions of a source. -/
def code (source : List UInt8) : List Instruction :=
  source.filterMap Instruction.ofByte?

/-- The byte offsets of the instructions of a source. -/
def offsets (source : List UInt8) : List Nat :=
  (tokens source).map (·.offset)

/-- The number of instruction bytes in a stretch of source. -/
def instructionCount (source : List UInt8) : Nat :=
  source.countP fun b => (Instruction.ofByte? b).isSome

/-- The brackets among bytes. -/
def brackets : Brackets UInt8 :=
  ⟨Instruction.loopOpen.byte, Instruction.loopClose.byte, by decide⟩

/-! ## Instructions -/

@[simp]
theorem code_append (s t : List UInt8) : code (s ++ t) = code s ++ code t :=
  List.filterMap_append

theorem length_code (source : List UInt8) : (code source).length = instructionCount source :=
  List.length_filterMap_eq_countP

theorem ofByte?_eq_some_iff {x : UInt8} {i : Instruction} :
    Instruction.ofByte? x = some i ↔ x = i.byte :=
  ⟨Instruction.byte_of_ofByte?, fun h => h ▸ Instruction.ofByte?_byte i⟩

theorem count_code (source : List UInt8) (i : Instruction) :
    (code source).count i = source.count i.byte := by
  rw [code, List.count_filterMap, List.count_eq_countP]
  refine List.countP_congr ?_
  intro x _
  simp [ofByte?_eq_some_iff]

/-- **Comments do not matter**: the brackets of a source pair up exactly if those of its
instructions do. -/
theorem balanced_code_iff (source : List UInt8) :
    Instruction.brackets.Balanced (code source) ↔ brackets.Balanced source := by
  constructor
  · intro h
    constructor
    · intro p hp
      have := h.prefix_le (code p) (hp.filterMap _)
      rwa [count_code, count_code] at this
    · have := h.total
      rwa [count_code, count_code] at this
  · intro h
    constructor
    · intro p hp
      obtain ⟨q, hq, rfl⟩ := List.prefix_filterMap_iff.mp hp
      show (code q).count _ ≤ (code q).count _
      rw [count_code, count_code]
      exact h.prefix_le q hq
    · rw [count_code, count_code]
      exact h.total

/-- **Splits come from the source**: an instruction of the list is a byte of the source, with the
instructions before it before that byte. -/
theorem exists_split {source : List UInt8} {w v : List Instruction} {x : Instruction}
    (h : code source = w ++ x :: v) :
    ∃ s t, source = s ++ x.byte :: t ∧ code s = w ∧ code t = v := by
  obtain ⟨s, r, rfl, rfl, hr⟩ := List.filterMap_eq_append_iff.mp h
  obtain ⟨comment, b, t, rfl, hcomment, hb, rfl⟩ := List.filterMap_eq_cons_iff.mp hr
  refine ⟨s ++ comment, t, ?_, ?_, rfl⟩
  · rw [Instruction.byte_of_ofByte? hb, List.append_assoc]
  · rw [code_append, code, code, List.filterMap_eq_nil_iff.mpr hcomment, List.append_nil]

/-! ## Offsets -/

theorem tokensFrom_append (s t : List UInt8) (offset : Nat) (position : Position) :
    tokensFrom offset position (s ++ t) =
      tokensFrom offset position s ++
        tokensFrom (offset + s.length) (s.foldl Position.after position) t := by
  induction s generalizing offset position with
  | nil => rfl
  | cons b s ih =>
      have hlen : offset + (b :: s).length = offset + 1 + s.length := by
        rw [List.length_cons]
        omega
      simp only [List.cons_append, tokensFrom, List.foldl_cons, hlen, ih]
      cases Instruction.ofByte? b <;> rfl

theorem length_offsets (source : List UInt8) : (offsets source).length = (code source).length := by
  rw [offsets, List.length_map, ← List.length_map (f := (·.instruction)), map_instruction_tokens,
    code]

theorem map_offset_tokensFrom (source : List UInt8) (offset k : Nat)
    (position position' : Position) :
    (tokensFrom (offset + k) position source).map (·.offset) =
      ((tokensFrom offset position' source).map (·.offset)).map (· + k) := by
  induction source generalizing offset position position' with
  | nil => rfl
  | cons b source ih =>
      have hlater := ih (offset + 1) (position.after b) (position'.after b)
      rw [Nat.add_right_comm] at hlater
      simp only [tokensFrom]
      cases Instruction.ofByte? b with
      | none => exact hlater
      | some i => simp only [List.map_cons, hlater]

/-- **Offsets in a second stretch of source are moved behind the first.** -/
theorem offsets_append (s t : List UInt8) :
    offsets (s ++ t) = offsets s ++ (offsets t).map (· + s.length) := by
  rw [offsets, tokens, tokensFrom_append, List.map_append,
    map_offset_tokensFrom t 0 s.length _ .start]
  rfl

/-- **The instruction behind a stretch of source stands at the length of that stretch.** -/
theorem offsets_split (s t : List UInt8) (x : Instruction) :
    (offsets (s ++ x.byte :: t))[(code s).length]? = some s.length := by
  rw [offsets, tokens, tokensFrom_append, List.map_append, ← length_offsets]
  rw [show (tokensFrom 0 .start s).map (·.offset) = offsets s from rfl,
    List.getElem?_append_right (by omega)]
  simp [tokensFrom]

theorem offsets_append_of_lt (s t : List UInt8) {i : Nat} (h : i < (code s).length) :
    (offsets (s ++ t))[i]? = (offsets s)[i]? := by
  rw [offsets_append, List.getElem?_append_left (by rwa [length_offsets])]

/-- **The open brackets of the instructions are those of the source**, at the offsets of their
bytes. -/
theorem waiting_of_code {w : List Instruction} {places : List Nat}
    (h : Instruction.brackets.Waiting w places) :
    ∀ {source : List UInt8}, code source = w →
      brackets.Waiting source (places.map fun i => (offsets source).getD i 0) := by
  induction h with
  | balanced hw =>
      rintro source rfl
      exact .balanced ((balanced_code_iff source).mp hw)
  | @opened w v places hw hv ih =>
      intro source hs
      obtain ⟨s, t, rfl, rfl, rfl⟩ := exists_split hs
      have hplaces :
          ((code s).length :: places).map (fun i =>
          (offsets (s ++ Instruction.loopOpen.byte :: t)).getD i 0)
            = s.length :: places.map fun i => (offsets s).getD i 0 := by
        rw [List.map_cons, List.getD_eq_getElem?_getD, offsets_split, Option.getD_some]
        refine congrArg _ (List.map_congr_left fun i hi => ?_)
        rw [List.getD_eq_getElem?_getD, List.getD_eq_getElem?_getD,
          offsets_append_of_lt _ _ (hw.lt_length i hi)]
      have hopened := Brackets.Waiting.opened (ih rfl) ((balanced_code_iff t).mp hv)
      exact hplaces ▸ hopened

end TapeLang.Source
