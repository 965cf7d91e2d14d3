import Mathlib.Order.Interval.Finset.Nat
import TapeLang.Proofs.Tape.Snapshot

/-!
# What a tape stores

How much a tape stores depends on the cells that were written and on nothing else: not on the order
of the writes, and not on what was read, refused or written through an index below zero.

* `writtenCells` — the cells that a history writes at indices from zero on.
* `exists_doubledPast` — the doubling of the array ends at the least size that holds a cell.
* `put_of_lt_size`, `put_of_lt_limit`, `put_of_limit_le` — the three ways in which a cell is
  written, and `serve_of_cell?_eq_none` — any other request leaves the storage alone.
* `Stores` — what is stored, by the cells that were written; `Stores.serve` — one request keeps it
  so, and `Stores.sameStorage` — it says all there is to say.
* `size_far_le`, `allocated_le_length` — bounds for what is stored; `size_put_le`, `size_far_put_le`
  — how much more it is behind one write.
* `after_stores` — what is stored after any history.
-/

namespace TapeLang.Tape

variable {t t' : Tape} {i : Nat} {written : Finset Nat}

/-- The cell that a request writes, if its index counts from the first cell and the tape has that
cell. -/
def Request.cell? (length : Nat) : Request → Option Nat
  | .set index _ => if 0 ≤ index ∧ index < length then some index.toNat else none
  | _ => none

/-- **The cells that `history` writes** on a tape of `length` cells at indices from zero on. -/
def writtenCells (length : Nat) (history : List Request) : Finset Nat :=
  (history.filterMap (Request.cell? length)).toFinset

@[simp]
theorem writtenCells_nil (length : Nat) : writtenCells length [] = ∅ := rfl

theorem writtenCells_concat_none {length : Nat} {r : Request} (h : r.cell? length = none)
    (history : List Request) :
    writtenCells length (history ++ [r]) = writtenCells length history := by
  simp [writtenCells, h]

theorem writtenCells_concat_some {length : Nat} {r : Request} (h : r.cell? length = some i)
    (history : List Request) :
    writtenCells length (history ++ [r]) = insert i (writtenCells length history) := by
  ext j
  simp [writtenCells, h]

theorem writtenCells_perm {length : Nat} {history history' : List Request}
    (h : history.Perm history') :
    writtenCells length history = writtenCells length history' :=
  List.toFinset_eq_of_perm _ _ (h.filterMap _)

theorem Request.cell?_eq_some {length : Nat} {r : Request} (h : r.cell? length = some i) :
    i < length ∧ ∃ v, r = .set i v := by
  cases r with
  | set index v =>
      simp only [cell?] at h
      split at h
      · rename_i hindex
        obtain rfl := Option.some.inj h
        exact ⟨by omega, v, by rw [Int.toNat_of_nonneg hindex.1]⟩
      · cases h
  | _ => cases h

/-! ## Doubling -/

/-- **Doubling ends at the least doubling that is more than `i`.** -/
theorem exists_doubledPast {size : Nat} (h : 0 < size) (i : Nat) :
    ∃ k, doubledPast size i = size * 2 ^ k ∧ ∀ j, i < size * 2 ^ j → k ≤ j := by
  fun_induction doubledPast size i with
  | case1 size hle ih =>
      obtain ⟨k, hk, hleast⟩ := ih (by omega)
      refine ⟨k + 1, by rw [hk, Nat.pow_succ', Nat.mul_assoc], ?_⟩
      intro j hj
      cases j with
      | zero => omega
      | succ j =>
          rw [Nat.pow_succ', ← Nat.mul_assoc] at hj
          exact Nat.succ_le_succ (hleast j hj)
  | case2 size hstop => exact ⟨0, by simp, fun j _ => Nat.zero_le j⟩

/-! ## The ways to write -/

theorem put_of_lt_size (h : i < t.dense.size) (v : Int) : t.put i v = t.store (.dense i) v := by
  have hplace : t.locate .set i = .ok (.dense i) := by
    rw [locate, if_pos (by omega), if_pos (Int.natCast_nonneg i), Int.toNat_natCast]
  exact put_eq_store hplace v

theorem put_of_lt_limit (hsize : t.dense.size ≤ i) (hi : i < t.length) (hlimit : i < denseLimit)
    (v : Int) :
    t.put i v = t.store (.unstored i) v := by
  have hplace : t.locate .set i = .ok (.unstored i) := by
    rw [locate, if_neg (by omega), if_neg (by omega), if_pos (by omega), Int.toNat_natCast]
  exact put_eq_store hplace v

theorem put_of_limit_le (w : t.WellFormed) (hi : i < t.length) (hlimit : denseLimit ≤ i) (v : Int) :
    t.put i v = t.store (.far i) v := by
  have := w.dense_le_limit
  have hplace : t.locate .set i = .ok (.far i) := by
    rw [locate, if_neg (by omega), if_neg (by omega), if_neg (by omega), Int.toNat_natCast]
  exact put_eq_store hplace v

/-- An index below zero names a cell of the array, if any. -/
theorem exists_dense_of_locate {access : Access} {index : Int} {place : Place} (hneg : index < 0)
    (h : t.locate access index = .ok place) : ∃ i, place = .dense i := by
  rw [locate, if_pos (by omega), if_neg (by omega)] at h
  split at h
  · cases h
  · split at h
    · exact ⟨_, (Except.ok.inj h).symm⟩
    · cases h

theorem size_store_dense (t : Tape) (i : Nat) (v : Int) :
    (t.store (.dense i) v).dense.size = t.dense.size := by
  simp only [store, Array.size_setIfInBounds]

theorem size_store_unstored (w : t.WellFormed) (hsize : t.dense.size ≤ i) (v : Int) :
    (t.store (.unstored i) v).dense.size = min (doubledPast t.dense.size i)
      (min t.length denseLimit) := by
  have hgrown := lt_doubledPast (i := i) w.dense_pos
  have hlength := w.dense_le_length
  have hlimit := w.dense_le_limit
  rw [← size_grow (by omega)]
  simp only [store, Array.size_setIfInBounds]

/-- **A request that writes no cell at an index from zero on leaves the storage alone.** -/
theorem serve_of_cell?_eq_none (w : t.WellFormed) {r : Request} (h : r.cell? t.length = none) :
    (t.serve r).2.dense.size = t.dense.size ∧ (t.serve r).2.far = t.far := by
  cases r with
  | set index v =>
      have hindex : index < 0 ∨ t.length ≤ index := by
        by_contra hin
        rw [Request.cell?, if_pos (by omega)] at h
        cases h
      rcases hindex with hneg | hbeyond
      · cases hplace : t.locate .set index with
        | error fault =>
            simp only [serve, set, hplace, and_self]
        | ok place =>
            obtain ⟨i, rfl⟩ := exists_dense_of_locate hneg hplace
            simp only [serve, set, hplace]
            exact ⟨size_store_dense t i v, rfl⟩
      · obtain ⟨j, rfl⟩ := Int.eq_ofNat_of_zero_le (by omega : 0 ≤ index)
        rw [serve_set_beyondEnd w (by omega)]
        exact ⟨rfl, rfl⟩
  | _ =>
      rw [serve_snd_of_forall_ne_set (by simp)]
      exact ⟨rfl, rfl⟩

theorem serve_of_refused {r : Request} {fault : TapeFault} (h : (t.serve r).1 = .refused fault) :
    (t.serve r).2 = t := by
  cases r with
  | set index v =>
      simp only [serve] at h ⊢
      split at h
      · cases h
      · rfl
  | _ => rw [serve_snd_of_forall_ne_set (by simp)]

/-! ## What is stored -/

/-- The initial size, doubled `k` times, holds all cells written below `denseLimit`. -/
def Covers (written : Finset Nat) (k : Nat) : Prop :=
  ∀ i ∈ written, i < denseLimit → i < initialCells * 2 ^ k

/-- **What a tape stores** whose cells `written` have been written: an array of the least doubling
of the initial size that holds those below `denseLimit`, but no more than the tape and than
`denseLimit`; and each of the others by itself. -/
structure Stores (t : Tape) (written : Finset Nat) : Prop where
  size_eq : ∃ k, IsLeast {k | Covers written k} k ∧
    t.dense.size = min t.length (min denseLimit (initialCells * 2 ^ k))
  mem_far_iff : ∀ i, i ∈ t.far ↔ i ∈ written ∧ denseLimit ≤ i

theorem covers_insert_iff {k : Nat} :
    Covers (insert i written) k ↔ (i < denseLimit → i < initialCells * 2 ^ k) ∧ Covers written k :=
  Finset.forall_mem_insert _ _ _

/-- A cell that is held already asks for no more. -/
theorem isLeast_covers_insert {k : Nat} (h : IsLeast {k | Covers written k} k)
    (hi : i < denseLimit → i < initialCells * 2 ^ k) :
    IsLeast {k | Covers (insert i written) k} k :=
  ⟨covers_insert_iff.mpr ⟨hi, h.1⟩, fun _ hj => h.2 (covers_insert_iff.mp hj).2⟩

/-- A cell that is not asks for the least doubling behind it. -/
theorem isLeast_covers_grown {k m : Nat} (h : IsLeast {k | Covers written k} k)
    (hlimit : i < denseLimit) (hi : i < initialCells * 2 ^ k * 2 ^ m)
    (hleast : ∀ j, i < initialCells * 2 ^ k * 2 ^ j → m ≤ j) :
    IsLeast {k | Covers (insert i written) k} (k + m) := by
  have hpow : ∀ j, initialCells * 2 ^ (k + j) = initialCells * 2 ^ k * 2 ^ j := by
    intro j
    rw [Nat.pow_add, Nat.mul_assoc]
  constructor
  · refine covers_insert_iff.mpr ⟨fun _ => by rwa [hpow], fun j hj hjl => ?_⟩
    have hmore : initialCells * 2 ^ k ≤ initialCells * 2 ^ (k + m) := by
      rw [hpow]
      exact Nat.le_mul_of_pos_right _ (Nat.two_pow_pos m)
    exact Nat.lt_of_lt_of_le (h.1 j hj hjl) hmore
  · intro n hn
    obtain ⟨hin, hwritten⟩ := covers_insert_iff.mp hn
    obtain ⟨j, rfl⟩ : ∃ j, n = k + j := ⟨n - k, by have := h.2 hwritten; omega⟩
    have := hleast j (by rw [← hpow]; exact hin hlimit)
    omega

theorem stores_new {length : Nat} (cellWidth : Int) : (new length cellWidth).Stores ∅ := by
  refine ⟨⟨0, ⟨by simp [Covers], fun _ _ => Nat.zero_le _⟩, ?_⟩, by simp [new]⟩
  simp [new, initialCells, denseLimit]

/-- **Writing a cell stores that cell too.** -/
theorem Stores.put (h : t.Stores written) (w : t.WellFormed) (hi : i < t.length) (v : Int) :
    (t.put i v).Stores (insert i written) := by
  obtain ⟨⟨k, hk, hsize⟩, hfar⟩ := h
  rcases Nat.lt_or_ge i denseLimit with hlimit | hlimit
  · have hfar' : ∀ j, j ∈ t.far ↔ j ∈ insert i written ∧ denseLimit ≤ j := by
      intro j
      rw [hfar, Finset.mem_insert]
      refine and_congr_left fun hj => ?_
      rw [or_iff_right (by omega)]
    rcases Nat.lt_or_ge i t.dense.size with hstored | hstored
    · rw [put_of_lt_size hstored]
      refine ⟨⟨k, isLeast_covers_insert hk fun _ => by omega, ?_⟩, hfar'⟩
      rw [size_store_dense, length_store, hsize]
    · -- The array is not capped yet, so its size is a doubling of the initial one.
      have hfull : t.dense.size = initialCells * 2 ^ k := by omega
      obtain ⟨m, hm, hleast⟩ := exists_doubledPast w.dense_pos i
      have hpast := lt_doubledPast (i := i) w.dense_pos
      rw [hm, hfull] at hpast
      rw [hfull] at hleast
      rw [put_of_lt_limit hstored hi hlimit]
      refine ⟨⟨k + m, isLeast_covers_grown hk hlimit hpast hleast, ?_⟩, hfar'⟩
      rw [size_store_unstored w hstored, length_store, hm, hfull, Nat.pow_add, Nat.mul_assoc]
      omega
  · rw [put_of_limit_le w hi hlimit]
    refine ⟨⟨k, isLeast_covers_insert hk fun hlt => by omega, hsize⟩, ?_⟩
    intro j
    rw [Finset.mem_insert]
    simp only [store, Std.HashMap.mem_insert, hfar, beq_iff_eq]
    grind

/-- **One request keeps the storage in step with what is written.** -/
theorem Stores.serve {history : List Request} (h : t.Stores (writtenCells t.length history))
    (w : t.WellFormed) (r : Request) :
    (t.serve r).2.Stores (writtenCells t.length (history ++ [r])) := by
  cases hr : r.cell? t.length with
  | none =>
      obtain ⟨hsize, hfar⟩ := serve_of_cell?_eq_none w hr
      rw [writtenCells_concat_none hr]
      refine ⟨?_, ?_⟩
      · rw [hsize, length_serve]
        exact h.size_eq
      · rw [hfar]
        exact h.mem_far_iff
  | some i =>
      obtain ⟨hi, v, rfl⟩ := Request.cell?_eq_some hr
      rw [writtenCells_concat_some hr, serve_set hi]
      exact h.put w hi v

theorem eq_new_of_ofLength {length cellWidth : Int} (hnew : ofLength length cellWidth = .ok t) :
    1 ≤ length ∧ t = new length.toNat cellWidth := by
  unfold ofLength at hnew
  split at hnew
  · cases hnew
  · cases hnew
    exact ⟨by omega, rfl⟩

/-- **After any history a tape stores what the history has written.** -/
theorem stores_after {length cellWidth : Int} (hnew : ofLength length cellWidth = .ok t)
    (history : List Request) :
    (t.after history).Stores (writtenCells t.length history) := by
  induction history using List.reverseRecOn with
  | nil =>
      obtain ⟨_, rfl⟩ := eq_new_of_ofLength hnew
      exact stores_new cellWidth
  | append_singleton history r ih =>
      rw [← length_after t history] at ih ⊢
      rw [after_concat]
      exact ih.serve (after_wellFormed hnew history) r

/-! ## How much is stored -/

theorem card_far (t : Tape) : t.far.keys.toFinset.card = t.far.size := by
  have hnodup : t.far.keys.Nodup := by
    simpa [List.Nodup] using Std.HashMap.distinct_keys (m := t.far)
  rw [List.toFinset_card_of_nodup hnodup, Std.HashMap.length_keys]

theorem Stores.size_far (h : t.Stores written) :
    t.far.size = (written.filter (denseLimit ≤ ·)).card := by
  have hkeys : t.far.keys.toFinset = written.filter (denseLimit ≤ ·) := by
    ext i
    simp [h.mem_far_iff]
  rw [← card_far, hkeys]

theorem size_far_le {n : Nat} (h : ∀ i ∈ t.far, denseLimit ≤ i ∧ i < n) :
    t.far.size ≤ n - denseLimit := by
  have hsub : t.far.keys.toFinset ⊆ Finset.Ico denseLimit n := by
    intro i hi
    rw [Finset.mem_Ico]
    exact h i (by simpa using hi)
  have hcard := Finset.card_le_card hsub
  rwa [card_far, Nat.card_Ico] at hcard

/-- **No more is stored than the tape has cells.** -/
theorem allocated_le_length (w : t.WellFormed) : t.allocated ≤ t.length := by
  have hlength := w.dense_le_length
  have hlimit := w.dense_le_limit
  have hfar := size_far_le w.far_range
  rw [allocated]
  omega

/-! ## What one write adds -/

/-- **Doubling ends at twice the cell**, unless nothing has to be doubled. -/
theorem doubledPast_le (size i : Nat) : doubledPast size i ≤ max size (2 * i) := by
  fun_induction doubledPast size i with
  | case1 size hle ih => omega
  | case2 size hstop => exact Nat.le_max_left _ _

/-- **A cell is written in one of three ways**: in the array, behind it, or in the map. -/
theorem put_cases (w : t.WellFormed) (hi : i < t.length) (v : Int) :
    (i < t.dense.size ∧ t.put i v = t.store (.dense i) v) ∨
      (t.dense.size ≤ i ∧ t.put i v = t.store (.unstored i) v) ∨
        t.put i v = t.store (.far i) v := by
  rcases Nat.lt_or_ge i t.dense.size with hstored | hstored
  · exact .inl ⟨hstored, put_of_lt_size hstored v⟩
  · rcases Nat.lt_or_ge i denseLimit with hlimit | hlimit
    · exact .inr (.inl ⟨hstored, put_of_lt_limit hstored hi hlimit v⟩)
    · exact .inr (.inr (put_of_limit_le w hi hlimit v))

theorem size_put_le (w : t.WellFormed) (hi : i < t.length) (v : Int) :
    (t.put i v).dense.size ≤ max t.dense.size (2 * i) := by
  rcases put_cases w hi v with ⟨_, hput⟩ | ⟨hstored, hput⟩ | hput
  · rw [hput, size_store_dense]
    exact Nat.le_max_left _ _
  · have hdoubled := doubledPast_le t.dense.size i
    rw [hput, size_store_unstored w hstored]
    omega
  · rw [hput]
    exact Nat.le_max_left _ _

/-- A write adds no cell to the map, or the one that it writes. -/
theorem far_put (w : t.WellFormed) (hi : i < t.length) (v : Int) :
    (t.put i v).far = t.far ∨ (t.put i v).far = t.far.insert i v := by
  rcases put_cases w hi v with ⟨_, hput⟩ | ⟨_, hput⟩ | hput
  · exact .inl (hput ▸ rfl)
  · exact .inl (hput ▸ rfl)
  · exact .inr (hput ▸ rfl)

theorem size_far_put_le (w : t.WellFormed) (hi : i < t.length) (v : Int) :
    (t.put i v).far.size ≤ t.far.size + 1 := by
  rcases far_put w hi v with hfar | hfar
  · rw [hfar]
    exact Nat.le_succ _
  · rw [hfar]
    exact Std.HashMap.size_insert_le

theorem eq_or_mem_of_mem_far_put (w : t.WellFormed) (hi : i < t.length) {v : Int} {k : Nat}
    (hk : k ∈ (t.put i v).far) :
    k = i ∨ k ∈ t.far := by
  rcases far_put w hi v with hfar | hfar
  · rw [hfar] at hk
    exact .inr hk
  · rw [hfar, Std.HashMap.mem_insert, beq_iff_eq] at hk
    exact hk.imp_left Eq.symm

theorem Stores.size_mono {written' : Finset Nat} (h : t.Stores written) (h' : t'.Stores written')
    (hlen : t.length = t'.length) (hsub : written ⊆ written') : t.dense.size ≤ t'.dense.size := by
  obtain ⟨k, hk, hsize⟩ := h.size_eq
  obtain ⟨k', hk', hsize'⟩ := h'.size_eq
  have hle : k ≤ k' := hk.2 fun i hi => hk'.1 i (hsub hi)
  have hpow : initialCells * 2 ^ k ≤ initialCells * 2 ^ k' :=
    Nat.mul_le_mul_left _ (Nat.pow_le_pow_right (by decide) hle)
  omega

theorem Stores.lt_size (h : t.Stores written) (hi : i ∈ written) (hlen : i < t.length)
    (hlimit : i < denseLimit) :
    i < t.dense.size := by
  obtain ⟨k, hk, hsize⟩ := h.size_eq
  have := hk.1 i hi hlimit
  omega

/-- **Two tapes store the same cells.** -/
structure SameStorage (t t' : Tape) : Prop where
  size_eq : t.dense.size = t'.dense.size
  mem_far_iff : ∀ i, i ∈ t.far ↔ i ∈ t'.far
  allocated_eq : t.allocated = t'.allocated

/-- **The written cells say all there is to say of the storage.** -/
theorem Stores.sameStorage (h : t.Stores written) (h' : t'.Stores written)
    (hlen : t.length = t'.length) :
    t.SameStorage t' := by
  have hsize : t.dense.size = t'.dense.size :=
    Nat.le_antisymm (h.size_mono h' hlen subset_rfl) (h'.size_mono h hlen.symm subset_rfl)
  refine ⟨hsize, fun i => by rw [h.mem_far_iff, h'.mem_far_iff], ?_⟩
  rw [allocated, allocated, hsize, h.size_far, h'.size_far]

/-! ## After any history -/

/-- **Storage depends on the written cells alone.** After any history of requests the array has the
least doubling of the initial size that holds the written cells below `denseLimit`, capped by
`denseLimit` and the tape, and the map has the other written cells. Histories that write the same
cells lead to the same storage, in whatever order they do; a request that writes no cell at an index
from zero on leaves it as it is, and nothing at all is changed by one that is no write or is
refused. The array never shrinks, and where it has to grow for a cell the doubling ends behind that
cell and the array then holds it. -/
theorem after_stores {length : Int} (hl : 1 ≤ length) (cellWidth : Int) :
    ∃ t₀, ofLength length cellWidth = .ok t₀ ∧ ∀ history : List Request,
      (t₀.after history).Stores (writtenCells length.toNat history) ∧
      (t₀.after history).allocated =
        (t₀.after history).dense.size + ((writtenCells length.toNat history).filter (denseLimit ≤
          ·)).card ∧
      (t₀.after history).allocated ≤ length ∧
      (∀ history', writtenCells length.toNat history = writtenCells length.toNat history' →
        (t₀.after history).SameStorage (t₀.after history')) ∧
      (∀ history', history.Perm history' → (t₀.after history).SameStorage (t₀.after history')) ∧
      (∀ r : Request, r.cell? length.toNat = none →
        (t₀.after history).SameStorage (t₀.after (history ++ [r])) ∧
          ((∀ index v, r ≠ .set index v) ∨
            (∃ fault, ((t₀.after history).serve r).1 = .refused fault) →
            t₀.after (history ++ [r]) = t₀.after history)) ∧
      (∀ later, (t₀.after history).dense.size ≤ (t₀.after (history ++ later)).dense.size) ∧
      ∀ i : Nat, (t₀.after history).dense.size ≤ i → i < length → i < denseLimit →
        i < doubledPast (t₀.after history).dense.size i ∧
          i < ((t₀.after history).grow i).dense.size := by
  have hnew : ofLength length cellWidth = .ok (new length.toNat cellWidth) := by
    rw [ofLength, if_neg (by omega)]
  refine ⟨_, hnew, fun history => ?_⟩
  have hstores := stores_after hnew
  have hlen : ∀ history, ((new length.toNat cellWidth).after history).length = length.toNat :=
    length_after _
  have hsame : ∀ history', writtenCells length.toNat history = writtenCells length.toNat history' →
      ((new length.toNat cellWidth).after history).SameStorage
        ((new length.toNat cellWidth).after history') := by
    intro history' heq
    have h' := hstores history'
    rw [show (new length.toNat cellWidth).length = length.toNat from rfl, ← heq] at h'
    exact (hstores history).sameStorage h' (by rw [hlen, hlen])
  have w := after_wellFormed hnew history
  refine ⟨hstores history, ?_, ?_, hsame, fun history' h => hsame history' (writtenCells_perm h),
    ?_, ?_, ?_⟩
  · rw [allocated, (hstores history).size_far]
    rfl
  · have := allocated_le_length w
    rw [hlen] at this
    omega
  · intro r hr
    refine ⟨hsame _ (writtenCells_concat_none hr history).symm, ?_⟩
    rw [after_concat]
    rintro (hread | ⟨fault, hrefused⟩)
    · exact serve_snd_of_forall_ne_set hread
    · exact serve_of_refused hrefused
  · intro later
    refine (hstores history).size_mono (hstores (history ++ later)) (by rw [hlen, hlen]) ?_
    intro i hi
    simp only [writtenCells, List.mem_toFinset, List.filterMap_append, List.mem_append] at hi ⊢
    exact .inl hi
  · intro i hsize hi hlimit
    refine ⟨lt_doubledPast w.dense_pos, (lt_size_grow w hsize ?_ hlimit).1⟩
    rw [hlen]
    omega

/-- A cell for which the array doubles once, a cell in the map, and requests that store nothing. -/
theorem after_stores_grown :
    ∃ t₀, ofLength 4194400 8 = .ok t₀ ∧
      (t₀.after [.set 40000 7, .set (-1) 3, .set 4194399 9, .get 50000, .set 4194399 0,
        .set 4194400 1]).dense.size =
        65536 ∧
      (t₀.after [.set 40000 7, .set (-1) 3, .set 4194399 9, .get 50000, .set 4194399 0,
        .set 4194400 1]).allocated =
        65537 := by
  obtain ⟨t₀, hnew, hstores⟩ := after_stores (show (1 : Int) ≤ 4194400 by decide) 8
  refine ⟨t₀, hnew, ?_⟩
  have hwritten : writtenCells (4194400 : Int).toNat
      [.set 40000 7, .set (-1) 3, .set 4194399 9, .get 50000, .set 4194399 0, .set 4194400 1] =
        {40000, 4194399} := by
    decide
  have hleast : IsLeast {k | Covers {40000, 4194399} k} 1 := by
    refine ⟨by simp [Covers, denseLimit, initialCells], fun k hk => ?_⟩
    have hcover := hk 40000 (by simp) (by decide)
    rcases Nat.eq_zero_or_pos k with rfl | hpos
    · exact absurd hcover (by decide)
    · exact hpos
  obtain ⟨⟨⟨k, hk, hsize⟩, -⟩, hallocated, -⟩ :=
    hstores [.set 40000 7, .set (-1) 3, .set 4194399 9, .get 50000, .set 4194399 0, .set 4194400 1]
  rw [hwritten] at hk hallocated
  obtain rfl := hk.unique hleast
  obtain ⟨_, rfl⟩ := eq_new_of_ofLength hnew
  rw [length_after] at hsize
  have hdense : min (4194400 : Nat) (min denseLimit (initialCells * 2 ^ 1)) = 65536 := by decide
  have hcard : (({40000, 4194399} : Finset Nat).filter (denseLimit ≤ ·)).card = 1 := by decide
  have hsize' := hsize.trans hdense
  exact ⟨hsize', by rw [hallocated, hsize', hcard]⟩

end TapeLang.Tape
