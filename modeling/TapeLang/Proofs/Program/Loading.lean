import TapeLang.Program.Load
import TapeLang.Proofs.Source.Code

/-!
# Which sources load, and what they load to

* `Program.Outcome`, `load_outcome` — the three ways in which loading ends, each with what it says
  of the source.
* `load_bracket_outcome` — a source loads exactly if its brackets pair up; otherwise the first
  closing bracket that closes nothing is reported, or, without one, all opening brackets that have
  no partner.
* `JumpTable`, `load_jumpTable` — the table of a loaded program pairs its brackets, and no other
  table does.
* `Paired`, `Paired.partner_open`, `Paired.partner_close` — what the machine relies on: every
  bracket has a partner.
-/

namespace TapeLang.Program

open Source (brackets code instructionCount)

/-! ## The three outcomes -/

/-- How loading a source ends. -/
inductive Outcome (source : List UInt8) : Except LoadError Program → Prop
  /-- The brackets pair up. -/
  | loaded {m : Matching} :
      Matching.Settled (code source) m → Instruction.brackets.Balanced (code source) →
      Outcome source (.ok ⟨source, (code source).toArray, (Source.offsets source).toArray, m.jumps⟩)
  /-- A closing bracket follows a balanced stretch of source. -/
  | stray {s t : List UInt8} :
      source = s ++ brackets.closing :: t → brackets.Balanced s →
      Outcome source (.error (.locate .unopened source s.length (instructionCount s)))
  /-- Some brackets stay open; the first of them is the outermost. -/
  | unclosed {places inner : List Nat} {first : Nat} :
      brackets.Waiting source places → places.reverse = first :: inner →
      Outcome source (.error (.locate (.unclosed (places.reverse.map Int.ofNat)) source first
        (instructionCount (source.take first))))

theorem instructionCount_take_offset {source : List UInt8} {i o : Nat}
    (h : (Source.offsets source)[i]? = some o) :
    instructionCount (source.take o) = i := by
  obtain ⟨hi, _⟩ := List.getElem?_eq_some_iff.mp h
  rw [Source.length_offsets] at hi
  have hcode : code source = (code source).take i ++ (code source)[i] :: (code source).drop
    (i + 1) := by
    simp
  obtain ⟨s, t, hsource, hs, _⟩ := Source.exists_split hcode
  have hlen : (code s).length = i := by
    rw [hs, List.length_take]
    omega
  have hat := Source.offsets_split s t (code source)[i]
  rw [← hsource, hlen, h, Option.some.injEq] at hat
  rw [hat, ← Source.length_code]
  conv_lhs => rw [hsource]
  rw [List.take_left, hlen]

/-- **Loading ends in one of three ways.** -/
theorem load_outcome (source : List UInt8) : Outcome source (load source) := by
  have hcode : (Source.tokens source).map (·.instruction) = code source :=
    Source.map_instruction_tokens source
  have hoffsets : (Source.tokens source).map (·.offset) = Source.offsets source := rfl
  simp only [load, hcode, hoffsets]
  split
  · rename_i i hrun
    obtain ⟨w, v, hsplit, hlen, hbal⟩ := Matching.settled_nil.run_error hrun
    rw [List.nil_append] at hsplit
    obtain ⟨s, t, hsource, rfl, _⟩ := Source.exists_split hsplit
    have hat : (Source.offsets source).toArray.getD i 0 = s.length := by
      rw [Array.getD_eq_getD_getElem?, List.getElem?_toArray, ← hlen, hsource, Source.offsets_split,
        Option.getD_some]
    rw [unpairedError, hat, ← hlen, Source.length_code]
    exact .stray hsource ((Source.balanced_code_iff s).mp hbal)
  · rename_i m hrun
    have hset : Matching.Settled (code source) m := Matching.settled_nil.run_ok hrun
    split
    · rename_i hnil
      exact .loaded hset (hset.waiting.balanced_iff.mpr (List.reverse_eq_nil_iff.mp hnil))
    · rename_i outermost inner hopened
      have hmem : outermost ∈ m.opened := List.mem_reverse.mp (hopened ▸ List.mem_cons_self)
      have hlt : outermost < (Source.offsets source).length := by
        rw [Source.length_offsets]
        exact hset.waiting.lt_length outermost hmem
      have hat : ∀ i, (Source.offsets source).toArray.getD i 0 =
        (Source.offsets source).getD i 0 := by
        intro i
        rw [Array.getD_eq_getD_getElem?, List.getElem?_toArray, List.getD_eq_getElem?_getD]
      have hindex : instructionCount (source.take ((Source.offsets source).getD outermost 0)) =
        outermost :=
        instructionCount_take_offset
          (by rw [List.getD_eq_getElem?_getD, List.getElem?_eq_getElem hlt, Option.getD_some])
      have hplaces : (m.opened.map fun i => (Source.offsets source).getD i 0).reverse =
          (Source.offsets source).getD outermost 0 :: inner.map fun i =>
            (Source.offsets source).getD i 0 := by
        rw [← List.map_reverse, hopened, List.map_cons]
      have houtcome := Outcome.unclosed (Source.waiting_of_code hset.waiting rfl) hplaces
      rw [hindex, hplaces] at houtcome
      simp only [unpairedError, hat]
      simpa [Function.comp_def] using houtcome

/-! ## Which sources load -/

/-- **The first closing bracket with which a source closes more than it has opened.** -/
structure FirstStray (source : List UInt8) (o : Nat) : Prop where
  closes : source[o]? = some brackets.closing
  excess : (source.take (o + 1)).count brackets.opening <
    (source.take (o + 1)).count brackets.closing
  before : ∀ k ≤ o, (source.take k).count brackets.closing ≤ (source.take k).count brackets.opening

theorem firstStray_of_balanced {s : List UInt8} (t : List UInt8) (h : brackets.Balanced s) :
    FirstStray (s ++ brackets.closing :: t) s.length := by
  refine ⟨by simp, ?_, ?_⟩
  · have htake : (s ++ brackets.closing :: t).take (s.length + 1) = s ++ [brackets.closing] := by
      rw [List.take_length_add_append, List.take_succ_cons, List.take_zero]
    have := h.total
    simp [htake, List.count_append, brackets.distinct.symm]
    omega
  · intro k hk
    rw [List.take_append_of_le_length hk]
    exact h.prefix_le _ (List.take_prefix k s)

theorem Waiting.prefix_le {source : List UInt8} {places : List Nat}
    (h : brackets.Waiting source places) {p : List UInt8} (hp : p <+: source) :
    p.count brackets.closing ≤ p.count brackets.opening := by
  have := h.depth_nonneg p.length hp.length_le
  rw [Brackets.depth, ← List.prefix_iff_eq_take.mp hp] at this
  omega

/-- **A source loads exactly if its brackets pair up, and otherwise the right bracket is named.** If
some prefix closes more than it opens, the fault is the first closing bracket that does so, whatever
stays open. Otherwise the opening brackets without a partner are listed in order, and the first of
them is the fault. -/
theorem load_bracket_outcome (source : List UInt8) :
    ((∃ p, load source = .ok p) ↔ brackets.Balanced source) ∧
    ((∃ p, p <+: source ∧ p.count brackets.opening < p.count brackets.closing) →
      ∃ e o, load source = .error e ∧ e.kind = .unopened ∧ FirstStray source o ∧
        e.offset = o ∧ e.index = instructionCount (source.take o)) ∧
    ((∀ p, p <+: source → p.count brackets.closing ≤ p.count brackets.opening) →
      ¬brackets.Balanced source →
      ∃ e first inner, load source = .error e ∧
        e.kind = .unclosed ((first :: inner).map Int.ofNat) ∧
        (first :: inner).Pairwise (· < ·) ∧
        (∀ o, o ∈ first :: inner ↔ source[o]? = some brackets.opening ∧
          ∀ j, ¬brackets.Partners source o j) ∧
        e.offset = first ∧ e.index = instructionCount (source.take first)) := by
  have houtcome := load_outcome source
  generalize load source = result at houtcome
  cases houtcome with
  | loaded _ hcode =>
      have hbal := (Source.balanced_code_iff source).mp hcode
      refine ⟨iff_of_true ⟨_, rfl⟩ hbal, ?_, fun _ hnot => absurd hbal hnot⟩
      rintro ⟨p, hp, hlt⟩
      have := hbal.prefix_le p hp
      omega
  | @stray s t hsource hbal =>
      have hfirst : FirstStray source s.length := hsource ▸ firstStray_of_balanced t hbal
      have hexcess := hfirst.excess
      have htake : source.take s.length = s := by rw [hsource, List.take_left]
      have hnot : ¬brackets.Balanced source := by
        intro h
        have := h.prefix_le _ (List.take_prefix (s.length + 1) source)
        omega
      refine ⟨iff_of_false (fun ⟨_, h⟩ => nomatch h) hnot, ?_, ?_⟩
      · intro _
        exact ⟨_, s.length, rfl, rfl, hfirst, rfl, by rw [htake]; rfl⟩
      · intro hle _
        have := hle _ (List.take_prefix (s.length + 1) source)
        omega
  | @unclosed places inner first hwait hplaces =>
      have hnot : ¬brackets.Balanced source := by
        intro h
        rw [hwait.balanced_iff.mp h] at hplaces
        cases hplaces
      refine ⟨iff_of_false (fun ⟨_, h⟩ => nomatch h) hnot, ?_, ?_⟩
      · rintro ⟨p, hp, hlt⟩
        have := Waiting.prefix_le hwait hp
        omega
      · intro _ _
        refine ⟨_, first, inner, rfl, by rw [← hplaces]; rfl, ?_, ?_, rfl, rfl⟩
        · rw [← hplaces, List.pairwise_reverse]
          exact hwait.sorted
        · intro o
          rw [← hplaces, List.mem_reverse]
          exact hwait.mem_iff o

/-! ## The table of a loaded program -/

/-- **The table that pairs the brackets of `code`**: nothing at other instructions, and at an
opening bracket the next closing bracket that has balanced code before it, which in turn names the
opening one. Pairs do not cross. -/
structure JumpTable (code : List Instruction) (jumps : Array (Option Nat)) : Prop where
  size_eq : jumps.size = code.length
  none_iff : ∀ (i : Nat) (x : Instruction), code[i]? = some x →
    (jumps[i]? = some none ↔ x ≠ .loopOpen ∧ x ≠ .loopClose)
  closed : ∀ i : Nat, code[i]? = some .loopOpen →
    ∃ j, jumps[i]? = some (some j) ∧ i < j ∧ code[j]? = some .loopClose ∧
      jumps[j]? = some (some i) ∧
      Instruction.brackets.Balanced (Brackets.between code i j) ∧
      ∀ k, i < k → k < j →
        ¬(code[k]? = some .loopClose ∧ Instruction.brackets.Balanced (Brackets.between code i k))
  not_crossing : ∀ i j k m : Nat, code[i]? = some .loopOpen → jumps[i]? = some (some j) →
    code[k]? = some .loopOpen → jumps[k]? = some (some m) → i < k → j < k ∨ m < j

variable {code : List Instruction} {m : Matching} {jumps : Array (Option Nat)}

theorem JumpTable.exists_partner (h : JumpTable code jumps) {i : Nat}
    (ho : code[i]? = some .loopOpen) :
    ∃ j, jumps[i]? = some (some j) ∧ jumps[j]? = some (some i) ∧
      Instruction.brackets.Partners code i j := by
  obtain ⟨j, hij, hlt, hc, hji, hbal, _⟩ := h.closed i ho
  exact ⟨j, hij, hji, hlt, ho, hc, hbal⟩

/-- The entries that name no partner, behind a finished pass over balanced code. -/
theorem jumps_none_iff (h : Matching.Settled code m) (hbal : Instruction.brackets.Balanced code)
    {i : Nat} {x : Instruction} (hx : code[i]? = some x) :
    m.jumps[i]? = some none ↔ x ≠ .loopOpen ∧ x ≠ .loopClose := by
  constructor
  · intro hnone
    constructor
    · rintro rfl
      obtain ⟨j, hp⟩ := hbal.exists_close hx
      have := (h.jumps_iff i j).mpr (.inl hp)
      rw [hnone] at this
      cases this
    · rintro rfl
      obtain ⟨j, hp⟩ := hbal.exists_open hx
      have := (h.jumps_iff i j).mpr (.inr hp)
      rw [hnone] at this
      cases this
  · rintro ⟨ho, hc⟩
    obtain ⟨hi, _⟩ := List.getElem?_eq_some_iff.mp hx
    obtain ⟨entry, hentry⟩ : ∃ entry, m.jumps[i]? = some entry :=
      ⟨_, Array.getElem?_eq_getElem (h.size_jumps ▸ hi)⟩
    cases entry with
    | none => exact hentry
    | some j =>
        rcases (h.jumps_iff i j).mp hentry with hp | hp
        · exact absurd (Option.some.inj (hx.symm.trans hp.opens)) ho
        · exact absurd (Option.some.inj (hx.symm.trans hp.closes)) hc

theorem jumpTable_of_settled (h : Matching.Settled code m)
    (hbal : Instruction.brackets.Balanced code) :
    JumpTable code m.jumps := by
  have hopen : ∀ {i j}, code[i]? = some .loopOpen → m.jumps[i]? = some (some j) →
      Instruction.brackets.Partners code i j := by
    intro i j ho hj
    refine ((h.jumps_iff i j).mp hj).resolve_right ?_
    intro hp
    exact Instruction.brackets.distinct (Option.some.inj (ho.symm.trans hp.closes))
  refine ⟨h.size_jumps, fun i x hx => jumps_none_iff h hbal hx, ?_, ?_⟩
  · intro i ho
    obtain ⟨j, hp⟩ := hbal.exists_close ho
    refine ⟨j, (h.jumps_iff i j).mpr (.inl hp), hp.lt, hp.closes, (h.jumps_iff j i).mpr (.inr hp),
      hp.inner, ?_⟩
    rintro k hik hkj ⟨hc, hk⟩
    have := hp.right_unique ⟨hik, ho, hc, hk⟩
    omega
  · intro i j k n ho hj hk hn hik
    exact (hopen ho hj).not_crossing (hopen hk hn) hik

theorem JumpTable.unique {other : Array (Option Nat)} (hbal : Instruction.brackets.Balanced code)
    (h : JumpTable code jumps) (h' : JumpTable code other) : other = jumps := by
  refine Array.ext_getElem? ?_
  intro i
  by_cases hi : i < code.length
  · obtain ⟨x, hx⟩ : ∃ x, code[i]? = some x := ⟨_, List.getElem?_eq_getElem hi⟩
    by_cases ho : x = .loopOpen
    · subst ho
      obtain ⟨j, hj, _, hp⟩ := h.exists_partner hx
      obtain ⟨j', hj', _, hp'⟩ := h'.exists_partner hx
      rw [hj, hj', hp.right_unique hp']
    · by_cases hc : x = .loopClose
      · -- A closing bracket is the partner of an opening one, and that one names it in both tables.
        subst hc
        obtain ⟨k, hk⟩ := hbal.exists_open hx
        obtain ⟨j, _, hj, hp⟩ := h.exists_partner hk.opens
        obtain ⟨j', _, hj', hp'⟩ := h'.exists_partner hk.opens
        rw [hk.right_unique hp, hj, ← hk.right_unique hp, hk.right_unique hp', hj']
      · rw [(h.none_iff i x hx).mpr ⟨ho, hc⟩, (h'.none_iff i x hx).mpr ⟨ho, hc⟩]
  · have hs := h.size_eq
    have hs' := h'.size_eq
    rw [Array.getElem?_eq_none (by omega), Array.getElem?_eq_none (by omega)]

/-- **A program whose tables are right**: its brackets pair up, and there is an entry for each
instruction. -/
structure Paired (p : Program) : Prop where
  balanced : Instruction.brackets.Balanced p.instructions.toList
  size_offsets : p.offsets.size = p.instructions.size
  table : JumpTable p.instructions.toList p.jumps

theorem paired_of_load {source : List UInt8} {p : Program} (h : load source = .ok p) :
    p.Paired := by
  have houtcome := load_outcome source
  rw [h] at houtcome
  cases houtcome with
  | loaded hset hbal =>
      exact ⟨hbal, by simpa using Source.length_offsets source, jumpTable_of_settled hset hbal⟩

/-- **A loaded program has one entry for each instruction in its tables, its jump table pairs the
brackets, and no other table does.** -/
theorem load_jumpTable {source : List UInt8} {p : Program} (h : load source = .ok p) :
    p.jumps.size = p.instructions.size ∧ p.offsets.size = p.instructions.size ∧
      JumpTable p.instructions.toList p.jumps ∧
      ∀ jumps, JumpTable p.instructions.toList jumps → jumps = p.jumps := by
  have hp := paired_of_load h
  exact ⟨hp.table.size_eq, hp.size_offsets, hp.table,
    fun jumps hj => hp.table.unique hp.balanced hj⟩

/-- The table of `+[[-]>]`. -/
theorem load_jumpTable_nested :
    load [0x2B, 0x5B, 0x5B, 0x2D, 0x5D, 0x3E, 0x5D] =
        .ok ⟨[0x2B, 0x5B, 0x5B, 0x2D, 0x5D, 0x3E, 0x5D],
          #[.increment, .loopOpen, .loopOpen, .decrement, .loopClose, .moveRight, .loopClose],
          #[0, 1, 2, 3, 4, 5, 6], #[none, some 6, some 4, none, some 2, none, some 1]⟩ ∧
      JumpTable [.increment, .loopOpen, .loopOpen, .decrement, .loopClose, .moveRight, .loopClose]
        #[none, some 6, some 4, none, some 2, none, some 1] :=
  have h : load [0x2B, 0x5B, 0x5B, 0x2D, 0x5D, 0x3E, 0x5D] =
      .ok ⟨[0x2B, 0x5B, 0x5B, 0x2D, 0x5D, 0x3E, 0x5D],
        #[.increment, .loopOpen, .loopOpen, .decrement, .loopClose, .moveRight, .loopClose],
        #[0, 1, 2, 3, 4, 5, 6], #[none, some 6, some 4, none, some 2, none, some 1]⟩ := by decide
  ⟨h, (load_jumpTable h).2.2.1⟩

/-! ## Partners in a loaded program -/

theorem Paired.partner_open {p : Program} (hp : p.Paired) {i : Nat}
    (h : p.instructions[i]? = some .loopOpen) :
    ∃ j, p.partner i = some j ∧ p.partner j = some i ∧
      Instruction.brackets.Partners p.instructions.toList i j := by
  obtain ⟨j, hij, hji, hpair⟩ := hp.table.exists_partner (by rwa [Array.getElem?_toList])
  exact ⟨j, by rw [partner, hij]; rfl, by rw [partner, hji]; rfl, hpair⟩

theorem Paired.partner_close {p : Program} (hp : p.Paired) {j : Nat}
    (h : p.instructions[j]? = some .loopClose) :
    ∃ i, p.partner j = some i ∧ p.partner i = some j ∧
      Instruction.brackets.Partners p.instructions.toList i j := by
  obtain ⟨i, hi⟩ := hp.balanced.exists_open (j := j) (by rwa [Array.getElem?_toList])
  obtain ⟨k, hik, hki, hpair⟩ := hp.partner_open (by rw [← Array.getElem?_toList]; exact hi.opens)
  obtain rfl := hi.right_unique hpair
  exact ⟨i, hki, hik, hpair⟩

theorem lt_size_of_partners {p : Program} {i j : Nat}
    (h : Instruction.brackets.Partners p.instructions.toList i j) :
    i < j ∧ j < p.size := by
  have hj := h.lt_length
  rw [Array.length_toList] at hj
  exact ⟨h.lt, hj⟩

end TapeLang.Program
