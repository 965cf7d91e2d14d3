import TapeLang.Proofs.Program.Loading
import TapeLang.Proofs.Source.Tokens

/-!
# Tokens and faults at their places

The reader that goes byte by byte and the count of newlines before an offset agree on every place,
and a place leads back to its offset.

* `BeginsLine`, `BeginsLine.unique` — the line of a number begins at one offset only.
* `PlacedAt`, `placedAt_position` — what the line and the column of an offset say of the bytes
  before it; `PlacedAt.offset_unique` — distinct offsets have distinct places.
* `token_of_mem`, `getElem?_tokens` — the tokens of a source, by their offsets and by their indices.
* `Token.StopsLoading` — the token at which a source turns out not to load.
* `places_agree` — tokens are placed as their offsets are, and a fault is placed as the token that
  stops loading.
-/

namespace TapeLang.Source

variable {source : List UInt8} {o : Nat}

/-! ## Lines -/

/-- **The line with number `line` begins at `start`**: at the beginning of the source or behind a
newline, with one newline before it for each line above. -/
structure BeginsLine (source : List UInt8) (line start : Nat) : Prop where
  behind : start = 0 ∨ ∃ k, start = k + 1 ∧ source[k]? = some newline
  line_eq : line = (source.take start).count newline + 1

theorem count_take_lt {k start : Nat} (h : source[k]? = some newline) (hle : start ≤ k) :
    (source.take start).count newline < (source.take (k + 1)).count newline := by
  have hbegin : source.take start <+: source.take k := List.take_prefix_take_left hle
  have hcount := hbegin.sublist.count_le newline
  rw [List.take_add_one, h, Option.toList_some, List.count_append, List.count_singleton_self]
  exact Nat.lt_succ_of_le hcount

theorem BeginsLine.unique {line start start' : Nat} (h : BeginsLine source line start)
    (h' : BeginsLine source line start') : start = start' := by
  have hle : ∀ {s s' : Nat}, BeginsLine source line s → BeginsLine source line s' → s' ≤ s := by
    intro s s' hs hs'
    by_contra hlt
    obtain rfl | ⟨k, rfl, hk⟩ := hs'.behind
    · omega
    · have hcount := count_take_lt hk (Nat.le_of_lt_succ (Nat.lt_of_not_le hlt))
      have hline := hs.line_eq.symm.trans hs'.line_eq
      omega
  exact Nat.le_antisymm (hle h' h) (hle h h')

theorem exists_append_lastLine (bytes : List UInt8) :
    ∃ above, bytes = above ++ lastLine bytes ∧ newline ∉ lastLine bytes ∧
      (above = [] ∨ ∃ lines, above = lines ++ [newline]) := by
  induction bytes using List.reverseRecOn with
  | nil => exact ⟨[], rfl, List.not_mem_nil, .inl rfl⟩
  | append_singleton bytes b ih =>
      obtain ⟨above, hsplit, hnone, hbehind⟩ := ih
      rw [lastLine_concat]
      by_cases hb : b = newline
      · rw [if_pos hb, hb]
        exact ⟨bytes ++ [newline], (List.append_nil _).symm, List.not_mem_nil, .inr ⟨bytes, rfl⟩⟩
      · rw [if_neg hb]
        refine ⟨above, ?_, ?_, hbehind⟩
        · rw [← List.append_assoc, ← hsplit]
        · rw [List.mem_append, List.mem_singleton]
          exact not_or.mpr ⟨hnone, Ne.symm hb⟩

/-! ## Places -/

/-- **The place `p` of offset `o`**: one line more than there are newlines before the offset, and
one column more than there are bytes since the last of them, or since the beginning. -/
structure PlacedAt (source : List UInt8) (o : Nat) (p : Position) : Prop where
  line_eq : p.line = (source.take o).count newline + 1
  since : ∃ start ≤ o, BeginsLine source p.line start ∧
    (∀ k, start ≤ k → k < o → source[k]? ≠ some newline) ∧
    p.column = o - start + 1

/-- **Counting newlines finds the place of every offset**, also behind the end of the source. -/
theorem placedAt_position (source : List UInt8) (o : Nat) :
    PlacedAt source o (position source o) := by
  obtain ⟨above, hsplit, hnone, hbehind⟩ := exists_append_lastLine (source.take o)
  have hlength : above.length + (lastLine (source.take o)).length = (source.take o).length := by
    conv_rhs => rw [hsplit, List.length_append]
  have hshort : (source.take o).length = min o source.length := List.length_take
  have htake : source.take above.length = above := by
    have hbegin : above <+: source :=
      (hsplit ▸ List.prefix_append _ _ : above <+: source.take o).trans (List.take_prefix o source)
    exact (List.prefix_iff_eq_take.mp hbegin).symm
  refine ⟨rfl, above.length, by omega, ⟨?_, ?_⟩, ?_, ?_⟩
  · obtain rfl | ⟨lines, rfl⟩ := hbehind
    · exact .inl rfl
    · refine .inr ⟨lines.length, by simp, ?_⟩
      have hlast : (source.take (lines ++ [newline]).length)[lines.length]? = some newline := by
        rw [htake, List.getElem?_concat_length]
      rwa [List.getElem?_take_of_lt (by simp)] at hlast
  · show (source.take o).count newline + 1 = _
    rw [htake]
    conv_lhs => rw [hsplit, List.count_append, List.count_eq_zero.mpr hnone]
  · intro k hle hlt hk
    have hmem : (lastLine (source.take o))[k - above.length]? = some newline := by
      rw [← List.getElem?_append_right hle, ← hsplit, List.getElem?_take_of_lt hlt, hk]
    exact hnone (List.mem_of_getElem? hmem)
  · show (lastLine (source.take o)).length + (o - (source.take o).length) + 1 = _
    omega

/-- From the beginning of its line on, the column counts up to the offset. -/
theorem PlacedAt.offset_eq {p : Position} (h : PlacedAt source o p) {start : Nat}
    (hstart : BeginsLine source p.line start) :
    start + (p.column - 1) = o := by
  obtain ⟨start', hle, hbegins, _, hcolumn⟩ := h.since
  obtain rfl := hstart.unique hbegins
  omega

/-- **Distinct offsets have distinct places.** -/
theorem PlacedAt.offset_unique {o' : Nat} {p : Position} (h : PlacedAt source o p)
    (h' : PlacedAt source o' p) : o = o' := by
  obtain ⟨start, _, hbegins, _⟩ := h.since
  exact (h.offset_eq hbegins).symm.trans (h'.offset_eq hbegins)

/-! ## Tokens -/

theorem token_of_mem {t : Token} (h : t ∈ tokens source) :
    source[t.offset]? = some t.instruction.byte ∧ t.position = position source t.offset := by
  rw [tokens_eq] at h
  obtain ⟨o, _, ho⟩ := List.mem_filterMap.mp h
  obtain ⟨i, hi, rfl⟩ := Option.map_eq_some_iff.mp ho
  obtain ⟨b, hb, hread⟩ := Option.bind_eq_some_iff.mp hi
  exact ⟨by rw [hb, Instruction.byte_of_ofByte? hread], rfl⟩

/-- **The token of an offset** comes behind as many tokens as there are instructions before the
offset. -/
theorem getElem?_tokens {x : Instruction} (h : source[o]? = some x.byte) :
    (tokens source)[instructionCount (source.take o)]? = some ⟨x, o, position source o⟩ := by
  obtain ⟨ho, hbyte⟩ := List.getElem?_eq_some_iff.mp h
  have hsplit : source = source.take o ++ x.byte :: source.drop (o + 1) := by
    rw [← hbyte, ← List.drop_eq_getElem_cons ho, List.take_append_drop]
  have hlength : (source.take o).length = o := List.length_take_of_le (Nat.le_of_lt ho)
  have hcount : (tokens (source.take o)).length = instructionCount (source.take o) := by
    rw [← length_code, ← length_offsets, offsets, List.length_map]
  have htokens : tokens source =
      tokens (source.take o) ++ tokensFrom o ((source.take o).foldl Position.after .start)
        (x.byte :: source.drop (o + 1)) := by
    conv_lhs => rw [hsplit, tokens, tokensFrom_append, Nat.zero_add, hlength]
    rfl
  rw [position_eq_foldl source (Nat.le_of_lt ho), htokens, ← hcount,
    List.getElem?_append_right (Nat.le_refl _), Nat.sub_self]
  simp [tokensFrom]

/-! ## Faults -/

/-- An opening bracket that no closing bracket matches. -/
structure Token.Unmatched (source : List UInt8) (t : Token) : Prop where
  mem : t ∈ tokens source
  opens : t.instruction = .loopOpen
  alone : ∀ j, ¬brackets.Partners source t.offset j

/-- **The token at which loading stops**: the first closing bracket with which the source closes
more than it has opened, or, when loading comes to the end, the first of the opening brackets that
nothing matches. -/
inductive Token.StopsLoading (source : List UInt8) (t : Token) : LoadError.Kind → Prop
  | unopened : t.instruction = .loopClose → Program.FirstStray source t.offset →
    StopsLoading source t .unopened
  | unclosed {positions : List Int} : t.Unmatched source →
    (∀ t' : Token, t'.Unmatched source → t.offset ≤ t'.offset) →
      StopsLoading source t (.unclosed positions)

/-- **A fault that is found in loading is placed as the token that stops loading.** -/
theorem exists_stopsLoading {e : LoadError} (h : Program.load source = .error e) :
    ∃ (n : Nat) (t : Token), (tokens source)[n]? = some t ∧ t.StopsLoading source e.kind ∧
      e.index = n ∧
      e.offset = t.offset ∧ e.line = t.position.line ∧ e.column = t.position.column := by
  have houtcome := Program.load_outcome source
  rw [h] at houtcome
  cases houtcome with
  | @stray s t hsource hbal =>
      have hat : source[s.length]? = some Instruction.loopClose.byte := by
        rw [hsource, List.getElem?_append_right (Nat.le_refl _), Nat.sub_self]
        rfl
      have htoken := getElem?_tokens hat
      rw [hsource, List.take_left, ← hsource] at htoken
      rw [LoadError.locate_natCast]
      exact ⟨_, _, htoken, .unopened rfl (hsource ▸ Program.firstStray_of_balanced t hbal), rfl,
        rfl, rfl, rfl⟩
  | @unclosed places inner first hwait hplaces =>
      have hmem : first ∈ places := List.mem_reverse.mp (hplaces ▸ List.mem_cons_self)
      obtain ⟨hat, halone⟩ := (hwait.mem_iff first).mp hmem
      have htoken := getElem?_tokens (x := .loopOpen) hat
      have hfirst : ∀ i ∈ places, first ≤ i := by
        intro i hi
        have hsorted : (first :: inner).Pairwise (· < ·) := by
          rw [← hplaces, List.pairwise_reverse]
          exact hwait.sorted
        rw [← List.mem_reverse, hplaces] at hi
        rcases List.mem_cons.mp hi with rfl | hi
        · exact Nat.le_refl _
        · exact Nat.le_of_lt (List.rel_of_pairwise_cons hsorted hi)
      rw [LoadError.locate_natCast]
      refine ⟨_, _, htoken, .unclosed ⟨List.mem_of_getElem? htoken, rfl, halone⟩ ?_, rfl, rfl, rfl,
        rfl⟩
      intro t' ht'
      have hopens := (token_of_mem ht'.mem).1
      rw [ht'.opens] at hopens
      exact hfirst _ ((hwait.mem_iff _).mpr ⟨hopens, ht'.alone⟩)

/-- **The places of tokens and of faults agree.** The reader that goes byte by byte gives each token
the place that is found by counting the newlines before its offset. The line of an offset is one
more than there are newlines before it, and its column one more than there are bytes since the last
of them; from where the line begins, the column leads back to the offset, so distinct offsets have
distinct places. And whenever a source does not load, the fault has the offset, the line and the
column of the token that stops loading: of the closing bracket that closes nothing, or else of the
first opening bracket that is not matched. -/
theorem places_agree (source : List UInt8) :
    (∀ t ∈ tokens source, t.position = position source t.offset ∧
      source[t.offset]? = some t.instruction.byte) ∧
      (∀ o, PlacedAt source o (position source o) ∧
        ∀ start, BeginsLine source (position source o).line start →
          start + ((position source o).column - 1) = o) ∧
      (∀ o o', position source o = position source o' → o = o') ∧
      ∀ e, Program.load source = .error e →
        ∃ (n : Nat) (t : Token), (tokens source)[n]? = some t ∧ t.StopsLoading source e.kind ∧
          e.index = n ∧
          e.offset = t.offset ∧ e.line = t.position.line ∧ e.column = t.position.column := by
  refine ⟨fun t ht => (token_of_mem ht).symm, fun o => ?_, fun o o' heq => ?_,
    fun e he => exists_stopsLoading he⟩
  · have hplaced := placedAt_position source o
    exact ⟨hplaced, fun start hstart => hplaced.offset_eq hstart⟩
  · have hplaced' := placedAt_position source o'
    exact (placedAt_position source o).offset_unique (heq ▸ hplaced')

/-- The bracket behind a letter of two bytes, on the second line. -/
theorem places_agree_second_line :
    ∃ e, Program.load (ofString "+\né]") = .error e ∧ e.line = 2 ∧ e.column = 3 ∧
      ∃ t ∈ tokens (ofString "+\né]"), t.position = ⟨2, 3⟩ ∧ e.offset = t.offset := by
  obtain ⟨_, _, _, hfault⟩ := places_agree (ofString "+\né]")
  have hload :
    Program.load (ofString "+\né]") =
    .error (.locate .unopened (ofString "+\né]") 4 1) := by decide +kernel
  obtain ⟨n, t, ht, _, _, hoffset, hline, hcolumn⟩ := hfault _ hload
  refine ⟨_, hload, by decide +kernel, by decide +kernel, t, List.mem_of_getElem? ht, ?_, hoffset⟩
  have hplace : (t.position.line : Int) = 2 ∧ (t.position.column : Int) = 3 := by
    rw [← hline, ← hcolumn]
    decide +kernel
  exact congrArg₂ Position.mk (Int.ofNat.inj hplace.1) (Int.ofNat.inj hplace.2)

end TapeLang.Source
