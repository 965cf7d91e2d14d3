import TapeLang.Proofs.Program.Loading
import TapeLang.Proofs.Program.Nesting
import TapeLang.Proofs.Program.Pass

/-!
# The loops around a place

The depth that a program reports is found by a scan that counts brackets. Three other numbers are
the same: how many pairs of the jump table are around one place, how high the stack of the loader
grows, and how many more brackets are opened than closed by a prefix of the instructions.

* `Program.pairs`, `Program.around`, `Program.across` — the pairs of the jump table, how many of
  them are around a place, and how many begin before it and do not end there.
* `Paired.mem_pairs_iff`, `Paired.length_pairs` — these pairs are the loops of the program, and
  `Program.loopCount` counts them.
* `Paired.across_eq`, `Paired.across_eq_depth` — behind a prefix of the instructions, the pairs that
  are still to end are the open brackets, and the depth counts them.
* `Paired.isGreatest_around` — the greatest number of pairs around one place is `Program.maxDepth`.
* `stages`, `exists_stage`, `isGreatest_height` — the states that the pass of the loader comes by,
  and how high their stacks are.
* `Measured`, `load_measured` — what the two numbers of a loaded program measure.
-/

namespace TapeLang.Program

open Instruction (brackets)

/-- **The pairs of the jump table**, from the index of an opening bracket to that of its partner. -/
def pairs (p : Program) : List (Nat × Nat) :=
  (List.range p.jumps.size).filterMap fun i =>
    (p.partner i).bind fun j => if i < j then some (i, j) else none

/-- How many pairs are around `x`, their own places included. -/
def around (p : Program) (x : Nat) : Nat :=
  p.pairs.countP fun (i, j) => i ≤ x ∧ x ≤ j

/-- How many pairs begin before `k` and do not end there. -/
def across (p : Program) (k : Nat) : Nat :=
  p.pairs.countP fun (i, j) => i < k ∧ k ≤ j

variable {p : Program} {source : List UInt8} {u v : List Instruction} {i j k x : Nat}

/-! ## The pairs of the table -/

theorem mem_pairs : (i, j) ∈ p.pairs ↔ p.partner i = some j ∧ i < j := by
  simp only [pairs, List.mem_filterMap, List.mem_range, Option.bind_eq_some_iff,
    Option.ite_none_right_eq_some,
    Option.some.injEq, Prod.mk.injEq]
  constructor
  · rintro ⟨k, _, l, hkl, hlt, rfl, rfl⟩
    exact ⟨hkl, hlt⟩
  · rintro ⟨hij, hlt⟩
    obtain ⟨hi, _⟩ := Array.getElem?_eq_some_iff.mp (Option.join_eq_some_iff.mp hij)
    exact ⟨i, hi, j, hij, hlt, rfl, rfl⟩

theorem nodup_pairs (p : Program) : (p.pairs.map Prod.fst).Nodup := by
  have hfst : ∀ {i : Nat} {a : Nat × Nat},
      ((p.partner i).bind fun j => if i < j then some (i, j) else none) = some a → a.1 = i := by
    intro i a h
    simp only [Option.bind_eq_some_iff, Option.ite_none_right_eq_some, Option.some.injEq] at h
    obtain ⟨_, _, _, rfl⟩ := h
    rfl
  refine List.pairwise_map.mpr (List.Pairwise.filterMap _ ?_ List.nodup_range)
  intro i i' hne a ha a' ha'
  rwa [hfst ha, hfst ha']

/-- **The pairs of the table are the loops of the program.** -/
theorem Paired.mem_pairs_iff (hp : p.Paired) :
    (i, j) ∈ p.pairs ↔ brackets.Partners p.instructions.toList i j := by
  rw [mem_pairs]
  constructor
  · rintro ⟨hij, hlt⟩
    have hentry := Option.join_eq_some_iff.mp hij
    obtain ⟨hi, _⟩ := Array.getElem?_eq_some_iff.mp hentry
    obtain ⟨y, hy⟩ : ∃ y, p.instructions.toList[i]? = some y :=
      ⟨_, List.getElem?_eq_getElem (hp.table.size_eq ▸ hi)⟩
    have hbracket : ¬(y ≠ .loopOpen ∧ y ≠ .loopClose) := by
      intro hnone
      rw [(hp.table.none_iff i y hy).mpr hnone] at hentry
      cases hentry
    by_cases ho : y = .loopOpen
    · subst ho
      obtain ⟨j', hij', _, hpair⟩ := hp.partner_open (by rwa [← Array.getElem?_toList])
      obtain rfl := Option.some.inj (hij.symm.trans hij')
      exact hpair
    · -- The partner of a closing bracket comes before it.
      obtain rfl : y = .loopClose := Classical.not_not.mp fun hc => hbracket ⟨ho, hc⟩
      obtain ⟨j', hij', _, hpair⟩ := hp.partner_close (by rwa [← Array.getElem?_toList])
      obtain rfl := Option.some.inj (hij.symm.trans hij')
      exact absurd hpair.lt (Nat.lt_asymm hlt)
  · intro hpair
    obtain ⟨j', hij', _, hpair'⟩ :=
      hp.partner_open (by rw [← Array.getElem?_toList]; exact hpair.opens)
    obtain rfl := hpair.right_unique hpair'
    exact ⟨hij', hpair.lt⟩

theorem length_eq_of_mem_iff {w w' : List Nat} (hw : w.Nodup) (hw' : w'.Nodup)
    (h : ∀ i, i ∈ w ↔ i ∈ w') :
    w.length = w'.length :=
  ((List.perm_ext_iff_of_nodup hw hw').mpr h).length_eq

/-- **There are as many pairs as loops.** -/
theorem Paired.length_pairs (hp : p.Paired) : p.pairs.length = p.loopCount := by
  have hmem : ∀ i, i ∈ p.pairs.map Prod.fst ↔ i ∈ p.instructions.toList.idxsOf .loopOpen := by
    intro i
    have hopen : i ∈ p.instructions.toList.idxsOf .loopOpen ↔
      p.instructions.toList[i]? = some .loopOpen := by
      simp only [List.mem_idxsOf_iff_exists_getElem_pos, beq_iff_eq, List.getElem?_eq_some_iff]
    rw [hopen]
    constructor
    · intro hi
      obtain ⟨⟨_, j⟩, hij, rfl⟩ := List.mem_map.mp hi
      exact (hp.mem_pairs_iff.mp hij).opens
    · intro ho
      obtain ⟨j, hpair⟩ := hp.balanced.exists_close ho
      exact List.mem_map.mpr ⟨(i, j), hp.mem_pairs_iff.mpr hpair, rfl⟩
  have hlength := length_eq_of_mem_iff (nodup_pairs p) List.nodup_idxsOf hmem
  rwa [List.length_map, List.length_idxsOf, Array.count_toList] at hlength

theorem Paired.loopCount_eq (hp : p.Paired) : p.loopCount = p.instructions.count .loopClose := by
  rw [loopCount, ← Array.count_toList, ← Array.count_toList]
  exact hp.balanced.total

/-! ## The pairs that are still to end -/

/-- **Behind a prefix the pairs still to end are its open brackets.** -/
theorem Paired.across_eq (hp : p.Paired) (hsplit : p.instructions.toList = u ++ v)
    {places : List Nat} (h : brackets.Waiting u places) : p.across u.length = places.length := by
  let rest := p.pairs.filter fun (i, j) => i < u.length ∧ u.length ≤ j
  have hnodup : (rest.map Prod.fst).Nodup := (nodup_pairs p).sublist (List.filter_sublist.map _)
  have hmem : ∀ i, i ∈ rest.map Prod.fst ↔ i ∈ places := by
    intro i
    rw [h.mem_iff_partners (hsplit ▸ hp.balanced), ← hsplit]
    simp only [rest, List.mem_map, List.mem_filter, decide_eq_true_eq, Prod.exists,
      exists_and_right, exists_eq_right,
      hp.mem_pairs_iff]
  have hlength := length_eq_of_mem_iff hnodup (h.sorted.imp Nat.ne_of_gt) hmem
  rwa [List.length_map, ← List.countP_eq_length_filter] at hlength

/-- **The pass gets through every prefix**, since none closes more than it opens. -/
theorem Paired.exists_stage (hp : p.Paired) (hsplit : p.instructions.toList = u ++ v) :
    ∃ m, Matching.run {} u = .ok m ∧ brackets.Waiting u m.opened := by
  cases hrun : Matching.run {} u with
  | ok m => exact ⟨m, rfl, (Matching.settled_nil.run_ok hrun).waiting⟩
  | error i =>
      obtain ⟨w, t, hstuck, _, hw⟩ := Matching.settled_nil.run_error hrun
      have hcode : p.instructions.toList = (w ++ [brackets.closing]) ++ (t ++ v) := by
        rw [hsplit, ← List.nil_append u, hstuck]
        simp [brackets]
      have hle := hp.balanced.prefix_le _ ⟨_, hcode.symm⟩
      have htotal := hw.total
      simp only [List.count_append, List.count_singleton_self, List.count_singleton, beq_iff_eq,
        brackets.distinct.symm, if_false] at hle
      omega

theorem length_take_instructions (hk : k ≤ p.size) : (p.instructions.toList.take k).length = k := by
  rw [List.length_take, Array.length_toList]
  exact Nat.min_eq_left hk

/-- **The depth counts the pairs that are still to end.** -/
theorem Paired.across_eq_depth (hp : p.Paired) (hk : k ≤ p.size) :
    (p.across k : Int) = brackets.depth p.instructions.toList k := by
  have hsplit := (List.take_append_drop k p.instructions.toList).symm
  obtain ⟨m, _, hwait⟩ := hp.exists_stage hsplit
  have hacross := hp.across_eq hsplit hwait
  have hdepth := hwait.depth_eq
  rw [← brackets.depth_append_of_le (p.instructions.toList.drop k) (Nat.le_refl _),
    ← hsplit] at hdepth
  rw [length_take_instructions hk] at hacross hdepth
  rw [hacross, hdepth]

theorem Paired.exists_across (hp : p.Paired) : ∃ k ≤ p.size, p.across k = p.maxDepth := by
  obtain ⟨⟨k, hk, hmem⟩, _⟩ := isGreatest_deepest 0 p.instructions.toList
  rw [← maxDepth_cast, Int.zero_add, ← hp.across_eq_depth hk] at hmem
  exact ⟨k, hk, (Int.ofNat_inj.mp hmem).symm⟩

theorem Paired.across_le_maxDepth (hp : p.Paired) (k : Nat) : p.across k ≤ p.maxDepth := by
  by_cases hk : k ≤ p.size
  · have hupper := (isGreatest_deepest 0 p.instructions.toList).2 ⟨k, hk, rfl⟩
    rw [← maxDepth_cast, Int.zero_add, ← hp.across_eq_depth hk] at hupper
    exact Int.ofNat_le.mp hupper
  · have hnone : p.across k = 0 := by
      refine List.countP_eq_zero.mpr ?_
      rintro ⟨i, j⟩ hij
      have := (lt_size_of_partners (hp.mem_pairs_iff.mp hij)).2
      simp only [decide_eq_true_eq]
      omega
    omega

/-- **No prefix closes more than it opens.** -/
theorem Paired.depth_nonneg (hp : p.Paired) (k : Nat) :
    0 ≤ brackets.depth p.instructions.toList k := by
  obtain ⟨hbefore, hend⟩ := brackets.balanced_iff_depth.mp hp.balanced
  by_cases hk : k ≤ p.instructions.toList.length
  · exact hbefore k hk
  · rw [brackets.depth_of_length_le (by omega), hend]

/-! ## The pairs around one place -/

theorem across_le_around (p : Program) (k : Nat) : p.across k ≤ p.around k := by
  refine List.countP_mono_left ?_
  simp only [decide_eq_true_eq]
  omega

/-- The pairs around a place are those that are still to end before it, or those behind it. -/
theorem Paired.around_eq_across (hp : p.Paired) (x : Nat) :
    p.around x = p.across x ∨ p.around x = p.across (x + 1) := by
  by_cases ho : p.instructions.toList[x]? = some .loopOpen
  · refine .inr (List.countP_congr ?_)
    rintro ⟨i, j⟩ hij
    have hclose := (hp.mem_pairs_iff.mp hij).closes
    have hne : j ≠ x := by
      rintro rfl
      exact brackets.distinct (Option.some.inj (ho.symm.trans hclose))
    simp only [decide_eq_true_eq]
    omega
  · refine .inl (List.countP_congr ?_)
    rintro ⟨i, j⟩ hij
    have hopen := (hp.mem_pairs_iff.mp hij).opens
    have hne : i ≠ x := by
      rintro rfl
      exact ho hopen
    simp only [decide_eq_true_eq]
    omega

/-- **The greatest number of pairs around one place is the depth that the scan finds.** -/
theorem Paired.isGreatest_around (hp : p.Paired) : IsGreatest (Set.range p.around) p.maxDepth := by
  have hupper : ∀ x, p.around x ≤ p.maxDepth := by
    intro x
    rcases hp.around_eq_across x with h | h
    · exact h ▸ hp.across_le_maxDepth x
    · exact h ▸ hp.across_le_maxDepth (x + 1)
  constructor
  · obtain ⟨k, _, hk⟩ := hp.exists_across
    exact ⟨k, Nat.le_antisymm (hupper k) (hk ▸ across_le_around p k)⟩
  · rintro n ⟨x, rfl⟩
    exact hupper x

theorem Paired.maxDepth_le_loopCount (hp : p.Paired) : p.maxDepth ≤ p.loopCount := by
  obtain ⟨⟨x, hx⟩, _⟩ := hp.isGreatest_around
  rw [← hx, ← hp.length_pairs]
  exact List.countP_le_length

/-- **Only a program without brackets has no depth.** -/
theorem Paired.maxDepth_eq_zero_iff (hp : p.Paired) :
    p.maxDepth = 0 ↔ ∀ op ∈ p.instructions, op ≠ .loopOpen ∧ op ≠ .loopClose := by
  constructor
  · intro hflat
    have hpairs : p.pairs = [] := by
      refine List.eq_nil_iff_forall_not_mem.mpr ?_
      rintro ⟨i, j⟩ hij
      have hpos : 0 < p.around i :=
        List.countP_pos_iff.mpr ⟨(i, j), hij, by simpa using (mem_pairs.mp hij).2.le⟩
      have := hp.isGreatest_around.2 ⟨i, rfl⟩
      omega
    have hopen : p.loopCount = 0 := by rw [← hp.length_pairs, hpairs, List.length_nil]
    have hclose := hp.loopCount_eq ▸ hopen
    intro op hop
    constructor
    · rintro rfl
      exact Array.count_eq_zero.mp hopen hop
    · rintro rfl
      exact Array.count_eq_zero.mp hclose hop
  · intro hnone
    have hopen : p.loopCount = 0 := Array.count_eq_zero.mpr fun hmem => (hnone _ hmem).1 rfl
    have := hp.maxDepth_le_loopCount
    omega

/-! ## The stack of the loader -/

/-- **The states that the pass over a source comes by**, one for each prefix of the instructions. -/
def stages (source : List UInt8) : Set Matching :=
  {m | ∃ u v, (Source.tokens source).map (·.instruction) = u ++ v ∧ Matching.run {} u = .ok m}

/-- **The stack of the loader grows as high as the loops nest.** -/
theorem isGreatest_height (h : load source = .ok p) :
    IsGreatest ((fun m => m.opened.length) '' stages source) p.maxDepth := by
  have hp := paired_of_load h
  have hcode : (Source.tokens source).map (·.instruction) = p.instructions.toList := by
    obtain ⟨_, _, _, rfl⟩ := load_eq_ok_iff.mp h
    exact code_eq source
  constructor
  · obtain ⟨k, hk, hgreatest⟩ := hp.exists_across
    have hsplit := (List.take_append_drop k p.instructions.toList).symm
    obtain ⟨m, hrun, hwait⟩ := hp.exists_stage hsplit
    refine ⟨m, ⟨_, _, hcode.trans hsplit, hrun⟩, ?_⟩
    have hacross := hp.across_eq hsplit hwait
    rw [length_take_instructions hk, hgreatest] at hacross
    exact hacross.symm
  · rintro n ⟨m, ⟨u, v, hsplit, hrun⟩, rfl⟩
    have hwait := (Matching.settled_nil.run_ok hrun).waiting
    calc m.opened.length = p.across u.length := (hp.across_eq (hcode.symm.trans hsplit) hwait).symm
      _ ≤ p.maxDepth := hp.across_le_maxDepth u.length

/-! ## What the two numbers measure -/

/-- **What the number of loops and the depth of a program measure**: they count the pairs of its
jump table, all of them and those around one place, and the depth is the height of the loader's
stack. -/
structure Measured (source : List UInt8) (p : Program) : Prop where
  closing : p.loopCount = p.instructions.count .loopClose
  pairs : p.loopCount = p.pairs.length
  around : IsGreatest (Set.range p.around) p.maxDepth
  height : IsGreatest ((fun m => m.opened.length) '' stages source) p.maxDepth
  depth_nonneg : ∀ k, 0 ≤ brackets.depth p.instructions.toList k
  /-- Behind any prefix the depth is the height of the stack there, and the scan goes on from it. -/
  running : ∀ u v, p.instructions.toList = u ++ v → ∃ m, Matching.run {} u = .ok m ∧
    brackets.depth p.instructions.toList u.length = m.opened.length ∧
    (p.maxDepth : Int) = max (deepest 0 u) (deepest m.opened.length v)
  le_loopCount : p.maxDepth ≤ p.loopCount
  eq_zero_iff : p.maxDepth = 0 ↔ ∀ op ∈ p.instructions, op ≠ .loopOpen ∧ op ≠ .loopClose

/-- **The depth and the number of loops of a loaded program measure its jump table.** -/
theorem load_measured (h : load source = .ok p) : Measured source p := by
  have hp := paired_of_load h
  refine ⟨hp.loopCount_eq, hp.length_pairs.symm, hp.isGreatest_around, isGreatest_height h,
    hp.depth_nonneg, ?_,
    hp.maxDepth_le_loopCount, hp.maxDepth_eq_zero_iff⟩
  intro u v hsplit
  obtain ⟨m, hrun, hwait⟩ := hp.exists_stage hsplit
  have hdepth := hwait.depth_eq
  refine ⟨m, hrun, ?_, ?_⟩
  · rw [hsplit, brackets.depth_append_of_le v (Nat.le_refl _), hdepth]
  · rw [maxDepth_cast, hsplit, deepest_split, hdepth, Int.zero_add]

/-- The loops of `[[][]]`. -/
theorem load_measured_nested :
    load [0x5B, 0x5B, 0x5D, 0x5B, 0x5D, 0x5D] =
        .ok ⟨[0x5B, 0x5B, 0x5D, 0x5B, 0x5D, 0x5D],
          #[.loopOpen, .loopOpen, .loopClose, .loopOpen, .loopClose, .loopClose],
            #[0, 1, 2, 3, 4, 5],
          #[some 5, some 2, some 1, some 4, some 3, some 0]⟩ ∧
      Measured [0x5B, 0x5B, 0x5D, 0x5B, 0x5D, 0x5D]
        ⟨[0x5B, 0x5B, 0x5D, 0x5B, 0x5D, 0x5D],
          #[.loopOpen, .loopOpen, .loopClose, .loopOpen, .loopClose, .loopClose],
            #[0, 1, 2, 3, 4, 5],
          #[some 5, some 2, some 1, some 4, some 3, some 0]⟩ :=
  have h : load [0x5B, 0x5B, 0x5D, 0x5B, 0x5D, 0x5D] =
      .ok ⟨[0x5B, 0x5B, 0x5D, 0x5B, 0x5D, 0x5D],
        #[.loopOpen, .loopOpen, .loopClose, .loopOpen, .loopClose, .loopClose], #[0, 1, 2, 3, 4, 5],
        #[some 5, some 2, some 1, some 4, some 3, some 0]⟩ := by decide
  ⟨h, load_measured h⟩

end TapeLang.Program
