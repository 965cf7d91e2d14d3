import TapeLang.Tape

/-!
# A tape reads as a plain row of cells

The view of a tape is `Tape.cell`: the value of each cell, wherever it is kept.

* `WellFormed` — what holds of every tape that is written at indices from zero on.
* `wellFormed_new`, `WellFormed.store` — a fresh tape has it, and writing keeps it.
* `get_eq_cell`, `get_beyondEnd` — reading gives the cell of the view inside the tape, and a fault
  behind its end.
* `cell_store` — writing changes the one cell and no other.
* `put` — writing a cell of the tape without the way to fail; `set_eq_put`, `cell_put`, `get_put`,
  `WellFormed.put`.
-/

namespace TapeLang.Tape

/-- The array holds at least one cell and reaches neither beyond the tape nor beyond `denseLimit`;
the map holds only cells of the tape from there on. -/
structure WellFormed (t : Tape) : Prop where
  dense_pos : 0 < t.dense.size
  dense_le_length : t.dense.size ≤ t.length
  dense_le_limit : t.dense.size ≤ denseLimit
  far_range : ∀ i, i ∈ t.far → denseLimit ≤ i ∧ i < t.length

/-- A place of the tape for cell `i`: the one where `locate` finds it. -/
def Place.Holds (t : Tape) (i : Nat) : Place → Prop
  | .dense j => j = i ∧ i < t.dense.size
  | .unstored j => j = i ∧ t.dense.size ≤ i ∧ i < t.length ∧ i < denseLimit
  | .far j => j = i ∧ t.dense.size ≤ i ∧ i < t.length ∧ denseLimit ≤ i

/-! ## Places -/

theorem locate_holds {t : Tape} {access : Access} {i : Nat} {place : Place}
    (h : t.locate access i = .ok place) : place.Holds t i := by
  unfold locate at h
  split at h
  · rename_i hd
    rw [if_pos (Int.natCast_nonneg i)] at h
    cases h
    exact ⟨by simp, by omega⟩
  · rename_i hd
    split at h
    · cases h
    · rename_i hl
      split at h
      · rename_i hf
        cases h
        exact ⟨by simp, by omega, by omega, by omega⟩
      · rename_i hf
        cases h
        exact ⟨by simp, by omega, by omega, by omega⟩

theorem exists_locate {t : Tape} (access : Access) {i : Nat} (h : i < t.length) :
    ∃ place, t.locate access i = .ok place := by
  unfold locate
  split
  · exact ⟨_, if_pos (Int.natCast_nonneg i)⟩
  · rw [if_neg (by omega)]
    split
    · exact ⟨_, rfl⟩
    · exact ⟨_, rfl⟩

theorem locate_beyondEnd {t : Tape} (w : t.WellFormed) (access : Access) {i : Nat}
    (h : t.length ≤ i) :
    t.locate access i = .error (.beyondEnd i t.length) := by
  have := w.dense_le_length
  unfold locate
  rw [if_neg (by omega), if_pos (by omega)]

/-! ## Reading -/

theorem load_eq_cell {t : Tape} (w : t.WellFormed) {i : Nat} {place : Place} (h : place.Holds t i) :
    t.load place = t.cell i := by
  cases place with
  | dense j =>
      obtain ⟨rfl, hj⟩ := h
      simp [load, cell, hj]
  | unstored j =>
      obtain ⟨rfl, hj, _, hl⟩ := h
      have hn : j ∉ t.far := fun hm => by have := (w.far_range j hm).1; omega
      simp [load, cell, Nat.not_lt.mpr hj, Std.HashMap.getD_eq_fallback hn]
  | far j =>
      obtain ⟨rfl, hj, _⟩ := h
      simp [load, cell, Nat.not_lt.mpr hj]

/-- **Reading inside the tape gives the cell.** -/
theorem get_eq_cell {t : Tape} (w : t.WellFormed) {i : Nat} (h : i < t.length) :
    t.get i = .ok (t.cell i) := by
  obtain ⟨place, hp⟩ := exists_locate .get h
  rw [get, hp, ← load_eq_cell w (locate_holds hp)]

/-- **Reading behind the end is refused.** -/
theorem get_beyondEnd {t : Tape} (w : t.WellFormed) {i : Nat} (h : t.length ≤ i) :
    t.get i = .error (.beyondEnd i t.length) := by
  rw [get, locate_beyondEnd w .get h]

/-! ## Growing -/

/-- **Doubling ends behind `i`.** -/
theorem lt_doubledPast {size i : Nat} (h : 0 < size) : i < doubledPast size i := by
  fun_induction doubledPast size i with
  | case1 size hle ih => exact ih (by omega)
  | case2 size hstop => omega

theorem size_grow {t : Tape} {i : Nat}
    (hi : t.dense.size ≤ min (doubledPast t.dense.size i) (min t.length denseLimit)) :
    (t.grow i).dense.size = min (doubledPast t.dense.size i) (min t.length denseLimit) := by
  simp only [grow, Array.size_append, Array.size_replicate]
  omega

theorem lt_size_grow {t : Tape} (w : t.WellFormed) {i : Nat} (hd : t.dense.size ≤ i)
    (hl : i < t.length) (hf : i < denseLimit) :
    i < (t.grow i).dense.size ∧ (t.grow i).dense.size ≤ min t.length denseLimit := by
  have hg := lt_doubledPast (i := i) w.dense_pos
  rw [size_grow (by omega)]
  omega

theorem getD_append_zeros (cells : Array Int) (n j : Nat) :
    (cells ++ Array.replicate n 0).getD j 0 = cells.getD j 0 := by
  simp only [Array.getD_eq_getD_getElem?, Array.getElem?_append]
  split
  · rfl
  · have hj : cells[j]? = none := Array.getElem?_eq_none (by omega)
    rw [hj, Array.getElem?_replicate]
    split <;> rfl

theorem getD_grow (t : Tape) (i j : Nat) : (t.grow i).dense.getD j 0 = t.dense.getD j 0 :=
  getD_append_zeros t.dense _ j

/-- The cell of a well-formed tape, read without a case on its place. -/
theorem cell_eq_add {t : Tape} (w : t.WellFormed) (i : Nat) :
    t.cell i = t.dense.getD i 0 + t.far.getD i 0 := by
  by_cases h : i < t.dense.size
  · have hn : i ∉ t.far := fun hm => by
      have := (w.far_range i hm).1
      have := w.dense_le_limit
      omega
    simp [cell, h, Std.HashMap.getD_eq_fallback hn]
  · simp [cell, h]

/-! ## Writing -/

theorem length_store (t : Tape) (place : Place) (v : Int) :
    (t.store place v).length = t.length := by
  cases place <;> rfl

/-- **Writing keeps a tape well-formed.** -/
theorem WellFormed.store {t : Tape} (w : t.WellFormed) {i : Nat} {place : Place}
    (h : place.Holds t i) (v : Int) :
    (t.store place v).WellFormed := by
  cases place with
  | dense j =>
      refine ⟨?_, ?_, ?_, w.far_range⟩
      · simpa [Tape.store] using w.dense_pos
      · simpa [Tape.store] using w.dense_le_length
      · simpa [Tape.store] using w.dense_le_limit
  | unstored j =>
      obtain ⟨rfl, hd, hl, hf⟩ := h
      have hg := lt_size_grow w hd hl hf
      refine ⟨?_, ?_, ?_, w.far_range⟩
      · simp only [Tape.store, Array.size_setIfInBounds]; omega
      · simp only [Tape.store, Array.size_setIfInBounds]
        show (t.grow j).dense.size ≤ t.length
        omega
      · simp only [Tape.store, Array.size_setIfInBounds]; omega
  | far j =>
      obtain ⟨rfl, hd, hl, hf⟩ := h
      refine ⟨w.dense_pos, w.dense_le_length, w.dense_le_limit, ?_⟩
      intro k hk
      rcases Std.HashMap.mem_insert.mp hk with hk | hk
      · have hk : j = k := by simpa using hk
        rw [length_store]
        omega
      · exact w.far_range k hk

/-- **Writing changes the one cell and no other.** -/
theorem cell_store {t : Tape} (w : t.WellFormed) {i : Nat} {place : Place} (h : place.Holds t i)
    (v : Int) (j : Nat) :
    (t.store place v).cell j = if j = i then v else t.cell j := by
  rw [cell_eq_add (w.store h v), cell_eq_add w]
  cases place with
  | dense k =>
      obtain ⟨rfl, hk⟩ := h
      have hn : k ∉ t.far := fun hm => by
        have := (w.far_range k hm).1
        have := w.dense_le_limit
        omega
      by_cases hj : j = k
      · subst hj
        simp [Tape.store, Array.getD_eq_getD_getElem?, hk, Std.HashMap.getD_eq_fallback hn]
      · simp [Tape.store, Array.getD_eq_getD_getElem?, hj, Ne.symm hj]
  | unstored k =>
      obtain ⟨rfl, hd, hl, hf⟩ := h
      have hg := (lt_size_grow w hd hl hf).1
      have hn : k ∉ t.far := fun hm => by have := (w.far_range k hm).1; omega
      have hfar : (t.grow k).far = t.far := rfl
      by_cases hj : j = k
      · subst hj
        simp [Tape.store, Array.getD_eq_getD_getElem?, hg, hfar, Std.HashMap.getD_eq_fallback hn]
      · have hgrow := getD_grow t k j
        rw [Array.getD_eq_getD_getElem?] at hgrow
        simp [Tape.store, Array.getD_eq_getD_getElem?, hj, Ne.symm hj, hfar, hgrow]
  | far k =>
      obtain ⟨rfl, hd, hl, hf⟩ := h
      by_cases hj : j = k
      · subst hj
        simp [Tape.store, Array.getD_eq_getD_getElem?, Array.getElem?_eq_none hd]
      · simp [Tape.store, Std.HashMap.getD_insert, hj, Ne.symm hj]

/-! ## Writing inside the tape -/

/-- The tape with cell `i` written; a cell behind its end changes nothing. -/
def put (t : Tape) (i : Nat) (v : Int) : Tape :=
  match t.locate .set i with
  | .ok place => t.store place v
  | .error _ => t

theorem locate_natCast (t : Tape) (access : Access) (i : Nat) :
    t.locate access i = t.locate .set i := by
  simp only [locate, Int.natCast_nonneg, if_true]

theorem put_eq_store {t : Tape} {access : Access} {i : Nat} {place : Place}
    (h : t.locate access i = .ok place) (v : Int) : t.put i v = t.store place v := by
  rw [locate_natCast] at h
  rw [put, h]

theorem set_eq_put {t : Tape} {i : Nat} (h : i < t.length) (v : Int) :
    t.set i v = .ok (t.put i v) := by
  obtain ⟨place, hp⟩ := exists_locate .set h
  rw [set, hp, put_eq_store hp]

@[simp]
theorem length_put (t : Tape) (i : Nat) (v : Int) : (t.put i v).length = t.length := by
  rw [put]
  split
  · exact length_store t _ v
  · rfl

theorem WellFormed.put {t : Tape} (w : t.WellFormed) (i : Nat) (v : Int) :
    (t.put i v).WellFormed := by
  rw [Tape.put]
  split
  · rename_i place hp
    exact w.store (locate_holds hp) v
  · exact w

theorem cell_put {t : Tape} (w : t.WellFormed) {i : Nat} (h : i < t.length) (v : Int) (j : Nat) :
    (t.put i v).cell j = if j = i then v else t.cell j := by
  obtain ⟨place, hp⟩ := exists_locate .set h
  rw [put_eq_store hp, cell_store w (locate_holds hp)]

/-- **Behind a write the cell reads as what was written**, and every other index as before. -/
theorem get_put {t : Tape} (w : t.WellFormed) {i : Nat} (h : i < t.length) (v : Int) (j : Nat) :
    (t.put i v).get j = if j = i then .ok v else t.get j := by
  have hw : (t.put i v).WellFormed := w.put i v
  have hlength := length_put t i v
  rcases Nat.lt_or_ge j t.length with hj | hj
  · rw [get_eq_cell hw (by omega), cell_put w h, get_eq_cell w hj]
    split <;> rfl
  · rw [if_neg (by omega), get_beyondEnd hw (by omega), get_beyondEnd w hj, hlength]

/-! ## Fresh tapes -/

theorem wellFormed_new {length : Nat} (h : 0 < length) (cellWidth : Int) :
    (new length cellWidth).WellFormed := by
  refine ⟨?_, ?_, ?_, ?_⟩
  · simp only [new, Array.size_replicate, initialCells]; omega
  · simp only [new, Array.size_replicate]; omega
  · simp only [new, Array.size_replicate, initialCells, denseLimit]; omega
  · intro i hi
    simp [new] at hi

@[simp]
theorem cell_new (length : Nat) (cellWidth : Int) (i : Nat) :
    (new length cellWidth).cell i = 0 := by
  simp [cell, new]

end TapeLang.Tape
