import TapeLang.Proofs.Tape.History

/-!
# What a snapshot shows

A snapshot goes up to the last cell that is not zero, wherever the cells are kept.

* `trimmedSize_le_iff`, `farExtent_le_iff` — how far the array and the map reach.
* `extent_le_iff` — a tape reaches as far as its cells do.
* `getD_flattened` — the array with the map written into it holds the cells of the tape.
* `size_snapshot`, `getElem_snapshot` — however it is made, a snapshot goes as far as the tape
  reaches and shows its cells; `snapshot_eq` — tapes with the same cells have the same snapshot, of
  whatever lengths they are and however much they store.
* `Content` — what the content of a tape is, by what reading the tape gives; `after_snapshot` —
  after any history the snapshot is the content, and it tells apart the tapes that read differently
  and no others.
-/

namespace TapeLang.Tape

variable {t t' : Tape} {k : Nat}

theorem trimmedSize_le_iff (cells : Array Int) (n : Nat) :
    trimmedSize cells n ≤ k ↔ ∀ i, k ≤ i → i < n → cells.getD i 0 = 0 := by
  induction n with
  | zero => simp [trimmedSize]
  | succ n ih =>
      unfold trimmedSize
      split
      · rename_i hzero
        rw [ih]
        constructor
        · intro h i hk hi
          rcases Nat.lt_succ_iff_lt_or_eq.mp hi with hlt | rfl
          · exact h i hk hlt
          · exact hzero
        · exact fun h i hk hi => h i hk (Nat.lt_succ_of_lt hi)
      · rename_i hne
        constructor
        · intro h i hk hi
          omega
        · intro h
          exact Nat.lt_of_not_le fun hk => hne (h n hk (Nat.lt_succ_self n))

theorem foldl_extent_le_iff (l : List (Nat × Int)) (n : Nat) :
    l.foldl (fun n c => if c.2 = 0 then n else max n (c.1 + 1)) n ≤ k ↔ n ≤ k ∧ ∀ c ∈ l, c.2 ≠ 0 →
      c.1 < k := by
  induction l generalizing n with
  | nil => simp
  | cons c l ih =>
      rw [List.foldl_cons, ih, List.forall_mem_cons]
      by_cases hc : c.2 = 0
      · simp [hc]
      · simp only [hc, if_false, ne_eq, not_false_iff, forall_const, Nat.max_le, Nat.succ_le_iff,
          and_assoc]

theorem farExtent_le_iff : t.farExtent ≤ k ↔ ∀ i, k ≤ i → t.far.getD i 0 = 0 := by
  rw [farExtent, Std.HashMap.fold_eq_foldl_toList, foldl_extent_le_iff]
  constructor
  · rintro ⟨_, h⟩ i hk
    rw [Std.HashMap.getD_eq_getD_getElem?]
    cases hv : t.far[i]? with
    | none => rfl
    | some v =>
        have hfar := h (i, v) (Std.HashMap.mem_toList_iff_getElem?_eq_some.mpr hv)
        by_cases hne : v = 0
        · exact hne
        · exact absurd (hfar hne) (Nat.not_lt.mpr hk)
  · rintro h
    refine ⟨Nat.zero_le k, ?_⟩
    rintro ⟨i, v⟩ hmem hne
    refine Nat.lt_of_not_le fun hk => ?_
    have hzero := h i hk
    rw [Std.HashMap.getD_eq_getD_getElem?,
      Std.HashMap.mem_toList_iff_getElem?_eq_some.mp hmem] at hzero
    exact hne hzero

/-! ## How far a tape reaches -/

/-- How many cells there are up to the last that is not zero. -/
def extent (t : Tape) : Nat :=
  max (trimmedSize t.dense t.dense.size) t.farExtent

theorem cell_eq_zero_iff (w : t.WellFormed) (i : Nat) :
    t.cell i = 0 ↔ t.dense.getD i 0 = 0 ∧ t.far.getD i 0 = 0 := by
  by_cases hi : i < t.dense.size
  · have hn : i ∉ t.far := fun hm => by
      have := (w.far_range i hm).1
      have := w.dense_le_limit
      omega
    simp [cell_eq_add w, Std.HashMap.getD_eq_fallback hn]
  · simp [cell_eq_add w, Nat.le_of_not_lt hi]

/-- **A tape reaches as far as its cells do.** -/
theorem extent_le_iff (w : t.WellFormed) : t.extent ≤ k ↔ ∀ i, k ≤ i → t.cell i = 0 := by
  rw [extent, Nat.max_le, trimmedSize_le_iff, farExtent_le_iff]
  constructor
  · rintro ⟨hdense, hfar⟩ i hk
    refine (cell_eq_zero_iff w i).mpr ⟨?_, hfar i hk⟩
    by_cases hi : i < t.dense.size
    · exact hdense i hk hi
    · simp [Nat.le_of_not_lt hi]
  · intro h
    exact ⟨fun i hk _ => ((cell_eq_zero_iff w i).mp (h i hk)).1,
      fun i hk => ((cell_eq_zero_iff w i).mp (h i hk)).2⟩

theorem denseLimit_lt_farExtent (w : t.WellFormed) (h : 0 < t.farExtent) :
    denseLimit < t.farExtent := by
  refine Nat.lt_of_not_le fun hle => ?_
  have hzero : t.farExtent ≤ 0 := by
    refine farExtent_le_iff.mpr fun i _ => ?_
    by_cases hi : i ∈ t.far
    · exact farExtent_le_iff.mp hle i (w.far_range i hi).1
    · exact Std.HashMap.getD_eq_fallback hi
  omega

/-! ## Writing the map into an array -/

/-- What is not in the list, or is there with a zero, stays as it is. -/
theorem getD_foldl_of_forall {l : List (Nat × Int)} {i : Nat} (cells : Array Int)
    (h : ∀ c ∈ l, c.1 = i → c.2 = 0) :
    (l.foldl (fun cells c => if c.2 = 0 then cells else cells.setIfInBounds c.1 c.2)
      cells).getD i 0 =
      cells.getD i 0 := by
  induction l generalizing cells with
  | nil => rfl
  | cons c l ih =>
      rw [List.forall_mem_cons] at h
      rw [List.foldl_cons, ih _ h.2]
      split
      · rfl
      · rename_i hne
        have hi : c.1 ≠ i := fun heq => hne (h.1 heq)
        simp [Array.getD_eq_getD_getElem?, hi]

theorem size_foldl (l : List (Nat × Int)) (cells : Array Int) :
    (l.foldl (fun cells c => if c.2 = 0 then cells else cells.setIfInBounds c.1 c.2) cells).size =
      cells.size := by
  induction l generalizing cells with
  | nil => rfl
  | cons c l ih =>
      rw [List.foldl_cons, ih]
      split <;> simp

theorem getD_foldl_of_mem {l : List (Nat × Int)}
    (hl : l.Pairwise fun c c' => (c.1 == c'.1) = false) {i : Nat} {v : Int} (hmem : (i, v) ∈ l)
    (hv : v ≠ 0) {cells : Array Int} (hi : i < cells.size) :
    (l.foldl (fun cells c => if c.2 = 0 then cells else cells.setIfInBounds c.1 c.2)
      cells).getD i 0 = v := by
  induction l generalizing cells with
  | nil => cases hmem
  | cons c l ih =>
      obtain ⟨hfirst, hrest⟩ := List.pairwise_cons.mp hl
      rw [List.foldl_cons]
      rcases List.mem_cons.mp hmem with rfl | hmem
      · have hlast : ∀ c ∈ l, c.1 = i → c.2 = 0 := by
          intro c hc heq
          exact absurd heq.symm (by simpa using hfirst c hc)
        rw [getD_foldl_of_forall _ hlast, if_neg hv]
        simp [Array.getD_eq_getD_getElem?, hi]
      · refine ih hrest hmem ?_
        split
        · exact hi
        · simpa using hi

theorem flattened_eq (t : Tape) (size : Nat) :
    t.flattened size = t.far.toList.foldl
      (fun cells c => if c.2 = 0 then cells else cells.setIfInBounds c.1 c.2)
      (t.dense ++ Array.replicate (size - t.dense.size) 0) :=
  Std.HashMap.fold_eq_foldl_toList

theorem size_flattened (t : Tape) (size : Nat) :
    (t.flattened size).size = max t.dense.size size := by
  rw [flattened_eq, size_foldl, Array.size_append, Array.size_replicate]
  omega

theorem getD_flattened (w : t.WellFormed) {size i : Nat} (hi : i < size) :
    (t.flattened size).getD i 0 = t.cell i := by
  have hsize : i < (t.dense ++ Array.replicate (size - t.dense.size) 0).size := by
    rw [Array.size_append, Array.size_replicate]
    omega
  rw [flattened_eq, cell_eq_add w]
  by_cases hzero : t.far.getD i 0 = 0
  · rw [getD_foldl_of_forall, getD_append_zeros, hzero, Int.add_zero]
    rintro ⟨j, v⟩ hmem rfl
    rw [Std.HashMap.mem_toList_iff_getElem?_eq_some] at hmem
    rwa [Std.HashMap.getD_eq_getD_getElem?, hmem] at hzero
  · have hfar : i ∈ t.far := Decidable.byContradiction fun hn =>
      hzero (Std.HashMap.getD_eq_fallback hn)
    have hdense : t.dense.getD i 0 = 0 := by
      have := (w.far_range i hfar).1
      have := w.dense_le_limit
      simp [show t.dense.size ≤ i by omega]
    rw [hdense, Int.zero_add]
    refine getD_foldl_of_mem Std.HashMap.distinct_keys_toList ?_ hzero hsize
    rw [Std.HashMap.mem_toList_iff_getElem?_eq_some, Std.HashMap.getD_eq_getD_getElem?]
    obtain ⟨v, hv⟩ := Option.isSome_iff_exists.mp (Std.HashMap.isSome_getElem?_iff_mem.mpr hfar)
    rw [hv, Option.getD_some]

/-! ## Snapshots -/

theorem trimmedSize_le (cells : Array Int) (n : Nat) : trimmedSize cells n ≤ n :=
  (trimmedSize_le_iff cells n).mpr fun _ hle hlt => absurd hlt (Nat.not_lt.mpr hle)

/-- **A snapshot goes as far as the tape reaches**, whichever way it is made. -/
theorem size_snapshot (w : t.WellFormed) : t.snapshot.size = t.extent := by
  have htrimmed := trimmedSize_le t.dense t.dense.size
  have hlimit := w.dense_le_limit
  simp only [snapshot, extent]
  split
  · rename_i hfar
    have := denseLimit_lt_farExtent w hfar
    rw [size_flattened]
    omega
  · simp only [Array.take_eq_extract, Array.size_extract]
    omega

/-- **A snapshot shows the cells of the tape.** -/
theorem getElem_snapshot (w : t.WellFormed) {i : Nat} (h : i < t.snapshot.size) :
    t.snapshot[i] = t.cell i := by
  have hlimit := w.dense_le_limit
  have hgetD : t.snapshot[i] = t.snapshot.getD i 0 := by simp [h]
  rw [hgetD]
  rw [size_snapshot w, extent] at h
  simp only [snapshot]
  split
  · rename_i hfar
    have := denseLimit_lt_farExtent w hfar
    have htrimmed := trimmedSize_le t.dense t.dense.size
    exact getD_flattened w (by omega)
  · have htrimmed := trimmedSize_le t.dense t.dense.size
    have hi : i < trimmedSize t.dense t.dense.size := by omega
    have hdense : i < t.dense.size := by omega
    rw [Array.getD_eq_getD_getElem?, Array.take_eq_extract, Array.getElem?_extract,
      if_pos (by omega)]
    simp [cell, hdense]

/-- **Tapes with the same cells have the same snapshot.** -/
theorem snapshot_eq (w : t.WellFormed) (w' : t'.WellFormed) (h : ∀ i, t'.cell i = t.cell i) :
    t'.snapshot = t.snapshot := by
  have hextent : t'.extent = t.extent := by
    refine Nat.le_antisymm ?_ ?_
    · rw [extent_le_iff w']
      exact fun i hi => (h i).trans ((extent_le_iff w).mp (Nat.le_refl _) i hi)
    · rw [extent_le_iff w]
      exact fun i hi => (h i).symm.trans ((extent_le_iff w').mp (Nat.le_refl _) i hi)
  refine Array.ext (by rw [size_snapshot w', size_snapshot w, hextent]) ?_
  intro i hi hi'
  rw [getElem_snapshot w', getElem_snapshot w, h]

/-! ## The content of a tape -/

/-- **The content of a tape**: what reading it gives, up to the last cell that is not zero. -/
structure Content (t : Tape) (cells : Array Int) : Prop where
  size_eq_zero_iff : cells.size = 0 ↔ ∀ i : Nat, i < t.length → t.get i = .ok 0
  size_eq_succ_iff : ∀ k : Nat, cells.size = k + 1 ↔
    k < t.length ∧ t.get k ≠ .ok 0 ∧ ∀ i : Nat, k < i → i < t.length → t.get i = .ok 0
  getElem : ∀ (i : Nat) (h : i < cells.size), t.get i = .ok cells[i]

theorem cell_eq_zero_of_length_le (w : t.WellFormed) {i : Nat} (h : t.length ≤ i) :
    t.cell i = 0 := by
  have hfar : i ∉ t.far := fun hm => absurd (w.far_range i hm).2 (Nat.not_lt.mpr h)
  have := w.dense_le_length
  rw [cell_eq_zero_iff w, Std.HashMap.getD_eq_fallback hfar]
  simp [show t.dense.size ≤ i by omega]

/-- What a read says of a cell, and what it leaves open behind the end of the tape. -/
theorem get_eq_zero_iff (w : t.WellFormed) {i : Nat} (h : i < t.length) :
    t.get i = .ok 0 ↔ t.cell i = 0 := by
  rw [get_eq_cell w h, Except.ok.injEq]

theorem extent_le_iff_get (w : t.WellFormed) :
    t.extent ≤ k ↔ ∀ i : Nat, k ≤ i → i < t.length → t.get i = .ok 0 := by
  rw [extent_le_iff w]
  constructor
  · exact fun h i hk hi => (get_eq_zero_iff w hi).mpr (h i hk)
  · intro h i hk
    rcases Nat.lt_or_ge i t.length with hi | hi
    · exact (get_eq_zero_iff w hi).mp (h i hk hi)
    · exact cell_eq_zero_of_length_le w hi

theorem getD_toOption_get (w : t.WellFormed) (i : Nat) : (t.get i).toOption.getD 0 = t.cell i := by
  rcases Nat.lt_or_ge i t.length with hi | hi
  · rw [get_eq_cell w hi]
    rfl
  · rw [get_beyondEnd w hi, cell_eq_zero_of_length_le w hi]
    rfl

theorem getD_snapshot (w : t.WellFormed) (i : Nat) : t.snapshot.getD i 0 = t.cell i := by
  by_cases hi : i < t.snapshot.size
  · rw [← getElem_snapshot w hi]
    simp [hi]
  · have hextent : t.extent ≤ i := by rw [← size_snapshot w]; omega
    rw [(extent_le_iff w).mp hextent i (Nat.le_refl i)]
    simp [Nat.le_of_not_lt hi]

/-- **The snapshot is the content.** -/
theorem content_snapshot (w : t.WellFormed) : t.Content t.snapshot := by
  have hlength : t.extent ≤ t.length :=
    (extent_le_iff w).mpr fun i hi => cell_eq_zero_of_length_le w hi
  refine ⟨?_, ?_, ?_⟩
  · rw [size_snapshot w, ← Nat.le_zero, extent_le_iff_get w]
    simp only [Nat.zero_le, forall_const]
  · -- The size is `k + 1` if it is at most that and not at most `k`.
    intro k
    have hstep : t.extent = k + 1 ↔ t.extent ≤ k + 1 ∧ ¬ t.extent ≤ k := by omega
    rw [size_snapshot w, hstep, extent_le_iff_get w, extent_le_iff_get w]
    constructor
    · rintro ⟨hbehind, hlast⟩
      have hk : k < t.length ∧ t.get k ≠ .ok 0 := by
        by_contra hn
        refine hlast fun i hki hi => ?_
        rcases Nat.eq_or_lt_of_le hki with rfl | hlt
        · exact not_not.mp fun hne => hn ⟨hi, hne⟩
        · exact hbehind i hlt hi
      exact ⟨hk.1, hk.2, hbehind⟩
    · rintro ⟨hk, hne, hbehind⟩
      exact ⟨hbehind, fun hall => hne (hall k (Nat.le_refl k) hk)⟩
  · intro i hi
    have hi' : i < t.length := by rw [size_snapshot w] at hi; omega
    rw [getElem_snapshot w hi, get_eq_cell w hi']

/-- **Snapshots are the same where the tapes read the same**, a read behind the end counting as
zero. -/
theorem snapshot_eq_iff (w : t.WellFormed) (w' : t'.WellFormed) :
    t.snapshot = t'.snapshot ↔ ∀ i : Nat, (t.get i).toOption.getD 0 =
      (t'.get i).toOption.getD 0 := by
  constructor
  · intro h i
    rw [getD_toOption_get w, getD_toOption_get w', ← getD_snapshot w, ← getD_snapshot w', h]
  · intro h
    refine snapshot_eq w' w fun i => ?_
    rw [← getD_toOption_get w, ← getD_toOption_get w', h]

theorem after_wellFormed {length cellWidth : Int} {t₀ : Tape}
    (hnew : ofLength length cellWidth = .ok t₀) (history : List Request) :
    (t₀.after history).WellFormed := by
  induction history using List.reverseRecOn with
  | nil =>
      unfold ofLength at hnew
      split at hnew
      · cases hnew
      · rename_i hl
        cases hnew
        exact wellFormed_new (by omega) cellWidth
  | append_singleton history r ih =>
      rw [after_concat]
      exact ih.serve r

/-- **After any history the snapshot is the content of the tape**, and taking it changes nothing. So
two tapes, of whatever lengths and after whatever histories, have the same snapshot if and only if
every cell reads the same on both of them, where a cell that a tape does not have counts as zero. -/
theorem after_snapshot {length length' cellWidth cellWidth' : Int} {t₀ t₀' : Tape}
    (hnew : ofLength length cellWidth = .ok t₀) (hnew' : ofLength length' cellWidth' = .ok t₀')
    (history history' : List Request) :
    (t₀.after history).Content (t₀.after history).snapshot ∧
      (t₀.after history).serve .snapshot = (.cells (t₀.after history).snapshot, t₀.after history) ∧
      ((t₀.after history).snapshot = (t₀'.after history').snapshot ↔
        ∀ i : Nat, ((t₀.after history).get i).toOption.getD 0 =
          ((t₀'.after history').get i).toOption.getD 0) := by
  have w := after_wellFormed hnew history
  exact ⟨content_snapshot w, rfl, snapshot_eq_iff w (after_wellFormed hnew' history')⟩

theorem getD_toOption_get_after {length : Nat} (hl : 0 < length) (cellWidth : Int)
    {history : List Request} (hh : ∀ r ∈ history, r.FromStart) (i : Nat) :
    (((new length cellWidth).after history).get i).toOption.getD 0 = if i < length then
      lastWritten i history else 0 := by
  obtain ⟨w, hlen, hcell⟩ := after_keeps hl cellWidth hh
  rw [getD_toOption_get w]
  split
  · rename_i hi
    exact hcell i hi
  · exact cell_eq_zero_of_length_le w (by omega)

/-- A cell far out that holds a zero again leaves the snapshot of a short tape, whose length it does
not show. -/
theorem after_snapshot_far_zero :
    ∃ t₀ t₀', ofLength 4194400 8 = .ok t₀ ∧ ofLength 5 16 = .ok t₀' ∧
      (t₀.after [.set 4194399 9, .set 3 5]).snapshot.size = 4194400 ∧
      (t₀.after [.set 4194399 9, .set 3 5, .set 4194399 0]).snapshot =
        (t₀'.after [.set 3 5]).snapshot := by
  have hnew : ofLength 4194400 8 = .ok (new 4194400 8) := rfl
  have hnew' : ofLength 5 16 = .ok (new 5 16) := rfl
  refine ⟨_, _, hnew, hnew', ?_, ?_⟩
  · have hstart : ∀ r ∈ ([.set 4194399 9, .set 3 5] : List Request),
      r.FromStart := by simp [Request.FromStart]
    obtain ⟨w, hlen, hcell⟩ := after_keeps (show 0 < 4194400 by decide) 8 hstart
    refine ((after_snapshot hnew hnew' _ []).1.size_eq_succ_iff 4194399).mpr ⟨by rw [hlen]; decide,
      ?_, ?_⟩
    · rw [ne_eq, get_eq_zero_iff w (by rw [hlen]; decide), hcell _ (by decide)]
      decide
    · intro i hk hi
      omega
  · have hstart : ∀ r ∈ ([.set 4194399 9, .set 3 5, .set 4194399 0] : List Request),
      r.FromStart := by
      simp [Request.FromStart]
    have hstart' : ∀ r ∈ ([.set 3 5] : List Request), r.FromStart := by simp [Request.FromStart]
    refine (after_snapshot hnew hnew' _ _).2.2.mpr fun i => ?_
    rw [getD_toOption_get_after (by decide) 8 hstart,
      getD_toOption_get_after (by decide) 16 hstart']
    simp only [lastWritten, Request.writes?, List.reverse_cons, List.reverse_nil, List.nil_append,
      List.cons_append,
      List.findSome?_cons, List.findSome?_nil]
    grind

end TapeLang.Tape
