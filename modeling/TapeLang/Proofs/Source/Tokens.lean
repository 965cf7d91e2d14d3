import TapeLang.Proofs.Source.Code
import TapeLang.Proofs.Text.Encoding

/-!
# Tokens by their offsets

A source gives a token for each of its offsets at which an instruction byte stands. What stands
between them only moves the offsets, and in a text no other character has a byte that is read as an
instruction.

* `tokens_eq` — the tokens of a source, offset by offset, each at its line and column.
* `offsets_sorted`, `byte_at_offset` — offsets increase, and each is the place of its instruction.
* `stripped` — a source without its comments: the bytes of its instructions (`stripped_eq`), each
  standing at its index (`offsets_stripped`).
* `Instruction.ofSymbol?`, `code_ofString` — the instructions of a text are its instruction
  characters.
-/

namespace TapeLang

/-- The instruction that a character stands for, if it stands for one. -/
def Instruction.ofSymbol? (c : Char) : Option Instruction :=
  all.find? fun i => i.symbol = c

namespace Source

/-- The bytes of a source that are no comments. -/
def stripped (source : List UInt8) : List UInt8 :=
  source.filter fun b => (Instruction.ofByte? b).isSome

/-! ## Offset by offset -/

/-- The token at an offset, if an instruction byte stands there. -/
def token? (source : List UInt8) (offset : Nat) : Option Token :=
  (source[offset]?.bind Instruction.ofByte?).map fun i => ⟨i, offset, position source offset⟩

theorem position_append (s t : List UInt8) {offset : Nat} (h : offset ≤ s.length) :
    position (s ++ t) offset = position s offset := by
  rw [position_eq_foldl _ (by rw [List.length_append]; omega), position_eq_foldl _ h,
    List.take_append_of_le_length h]

theorem token?_append {s t : List UInt8} {offset : Nat} (h : offset < s.length) :
    token? (s ++ t) offset = token? s offset := by
  rw [token?, token?, List.getElem?_append_left h, position_append s t (Nat.le_of_lt h)]

/-- **A source gives a token for each offset at which an instruction byte stands.** -/
theorem tokens_eq (source : List UInt8) :
    tokens source = (List.range source.length).filterMap (token? source) := by
  induction source using List.reverseRecOn with
  | nil => rfl
  | append_singleton s b ih =>
      have hbefore : (List.range s.length).filterMap (token? (s ++ [b])) = tokens s := by
        rw [ih]
        exact List.filterMap_congr fun o ho => token?_append (List.mem_range.mp ho)
      have hlast : tokensFrom s.length (s.foldl Position.after .start) [b] =
        (token? (s ++ [b]) s.length).toList := by
        rw [token?, position_eq_foldl _ (by simp), List.take_left]
        simp only [tokensFrom, List.getElem?_concat_length, Option.bind_some]
        cases Instruction.ofByte? b <;> rfl
      rw [List.length_append, List.length_singleton, List.range_succ, List.filterMap_append,
        hbefore, tokens,
        tokensFrom_append, Nat.zero_add, hlast]
      rfl

theorem offsets_sorted (source : List UInt8) : (offsets source).Pairwise (· < ·) := by
  rw [offsets, tokens_eq, List.pairwise_map, List.pairwise_filterMap]
  refine List.pairwise_lt_range.imp ?_
  intro o o' hlt x hx x' hx'
  obtain ⟨_, _, rfl⟩ := Option.map_eq_some_iff.mp hx
  obtain ⟨_, _, rfl⟩ := Option.map_eq_some_iff.mp hx'
  exact hlt

/-- **Each instruction stands at its offset.** -/
theorem byte_at_offset {source : List UInt8} {i : Nat} {x : Instruction}
    (h : (code source)[i]? = some x) :
    ∃ o, (offsets source)[i]? = some o ∧ source[o]? = some x.byte := by
  obtain ⟨hi, hget⟩ := List.getElem?_eq_some_iff.mp h
  have hsplit : code source = (code source).take i ++ x :: (code source).drop (i + 1) := by
    rw [← hget]
    simp
  obtain ⟨s, t, hsource, hs, _⟩ := exists_split hsplit
  have hlen : (code s).length = i := by
    rw [hs, List.length_take]
    omega
  refine ⟨s.length, ?_, by simp [hsource]⟩
  conv_lhs => rw [hsource]
  rw [← hlen, offsets_split]

/-! ## Without comments -/

theorem code_map_byte (code : List Instruction) :
    Source.code (code.map Instruction.byte) = code := by
  rw [Source.code, List.filterMap_map]
  simp

/-- **What is left without comments is the bytes of the instructions.** -/
theorem stripped_eq (source : List UInt8) :
    stripped source = (code source).map Instruction.byte := by
  induction source with
  | nil => rfl
  | cons b source ih =>
      rw [stripped, code, List.filter_cons, List.filterMap_cons, ← stripped, ← code]
      cases h : Instruction.ofByte? b with
      | none => exact ih
      | some i =>
          rw [Option.isSome_some, if_pos rfl, List.map_cons, ih, Instruction.byte_of_ofByte? h]

@[simp]
theorem code_stripped (source : List UInt8) : code (stripped source) = code source := by
  rw [stripped_eq, code_map_byte]

theorem offsets_stripped (source : List UInt8) :
    offsets (stripped source) = List.range (code source).length := by
  have hall : ∀ o ∈ List.range (code source).length,
      (token? ((code source).map Instruction.byte) o).map (·.offset) = some o := by
    intro o ho
    simp [token?, List.mem_range.mp ho]
  rw [stripped_eq, offsets, tokens_eq, List.length_map, List.map_filterMap,
    List.filterMap_congr hall,
    List.filterMap_some]

/-! ## Texts -/

theorem ofSymbol?_eq_some_iff {c : Char} {i : Instruction} :
    Instruction.ofSymbol? c = some i ↔ c = i.symbol := by
  constructor
  · intro h
    have hfound := List.find?_some h
    exact (of_decide_eq_true hfound).symm
  · rintro rfl
    cases i <;> decide

theorem ofSymbol?_eq_none {c : Char} (h : ∀ i : Instruction, c ≠ i.symbol) :
    Instruction.ofSymbol? c = none :=
  Option.eq_none_iff_forall_ne_some.mpr fun i hi => h i (ofSymbol?_eq_some_iff.mp hi)

theorem map_symbol_filterMap (cs : List Char) :
    (cs.filterMap Instruction.ofSymbol?).map Instruction.symbol =
      cs.filter fun c => (Instruction.ofSymbol? c).isSome := by
  induction cs with
  | nil => rfl
  | cons c cs ih =>
      rw [List.filterMap_cons, List.filter_cons]
      cases h : Instruction.ofSymbol? c with
      | none => exact ih
      | some i =>
          rw [Option.isSome_some, if_pos rfl, List.map_cons, ih, ofSymbol?_eq_some_iff.mp h]

theorem ofByte?_of_beyond {b : UInt8} (h : 0x80 ≤ b) : Instruction.ofByte? b = none := by
  cases hb : Instruction.ofByte? b with
  | none => rfl
  | some i =>
      obtain rfl := Instruction.byte_of_ofByte? hb
      exact absurd h (by cases i <;> decide)

theorem ofByte?_ascii {c : Char} (h : c.toNat < 0x80) :
    Instruction.ofByte? (UInt8.ofNat c.toNat) = Instruction.ofSymbol? c := by
  have hcode : ∀ i : Instruction, i.byte.toNat = i.symbol.toNat := by
    intro i
    cases i <;> rfl
  refine Option.ext fun i => ?_
  rw [ofByte?_eq_some_iff, ofSymbol?_eq_some_iff, ← UInt8.toNat_inj, UInt8.toNat_ofNat', hcode,
    Nat.mod_eq_of_lt (by omega), Char.toNat_inj]

/-- **A character that is no instruction has no byte that is one.** -/
theorem code_utf8EncodeChar (c : Char) :
    code (String.utf8EncodeChar c) = (Instruction.ofSymbol? c).toList := by
  rcases Nat.lt_or_ge c.toNat 0x80 with h | h
  · rw [Text.Utf8.encode_one h, code, List.filterMap_cons, List.filterMap_nil, ofByte?_ascii h]
    cases Instruction.ofSymbol? c <;> rfl
  · have hbytes : code (String.utf8EncodeChar c) = [] :=
      List.filterMap_eq_nil_iff.mpr fun b hb =>
        ofByte?_of_beyond (Text.Utf8.utf8EncodeChar_beyond h hb)
    have hsymbol : Instruction.ofSymbol? c = none := by
      refine ofSymbol?_eq_none ?_
      rintro i rfl
      exact absurd h (by cases i <;> decide)
    rw [hbytes, hsymbol, Option.toList_none]

/-- **The instructions of a text are its instruction characters**, in order. -/
theorem code_ofString (text : String) :
    code (ofString text) = text.toList.filterMap Instruction.ofSymbol? := by
  rw [ofString, code, List.filterMap_flatMap]
  induction text.toList with
  | nil => rfl
  | cons c rest ih =>
      rw [List.flatMap_cons, List.filterMap_cons, ih, ← code, code_utf8EncodeChar]
      cases Instruction.ofSymbol? c <;> rfl

theorem ofString_symbols (code : List Instruction) :
    ofString (String.ofList (code.map Instruction.symbol)) = code.map Instruction.byte := by
  rw [ofString, String.toList_ofList, List.flatMap_map]
  induction code with
  | nil => rfl
  | cons i code ih =>
      rw [List.flatMap_cons, List.map_cons, ih]
      cases i <;> rfl

end Source

end TapeLang
