import TapeLang.Proofs.Tape.Allocation

/-!
# Where growth shows

Two tapes can have the same cells and store different numbers of them. From zero on no index tells
them apart. An index below zero does, because it counts from the end of what is stored.

* `SameCells`, `AlikeAt` — tapes with the same cells, and tapes that answer alike at an index.
* `SameCells.alikeAt` — tapes with the same cells answer alike at every index from zero on, on the
  tape or behind its end, and what is written there keeps their cells the same.
* `CountsFromEnd` — an index below zero names the cell that far before the end of the array, if
  there is one.
* `SameCells.alikeAt_iff` — they answer alike at every index exactly if their arrays are equally
  long.
* `after_growth` — all of it for any two histories.
-/

namespace TapeLang.Tape

variable {t t' : Tape}

/-- **Tapes with the same cells**: they are equally long, and each of their cells reads the same. -/
structure SameCells (t t' : Tape) : Prop where
  length_eq : t.length = t'.length
  get_eq : ∀ i : Nat, i < t.length → t.get i = t'.get i

/-- What two tapes say to the same write: they refuse it for the same reason, or both are written
and have the same cells. -/
inductive SameWrite : Except TapeFault Tape → Except TapeFault Tape → Prop
  | refused (fault : TapeFault) : SameWrite (.error fault) (.error fault)
  | written {t t' : Tape} : t.SameCells t' → SameWrite (.ok t) (.ok t')

/-- **Two tapes answer alike at an index**, to a read and to any write. -/
structure AlikeAt (t t' : Tape) (index : Int) : Prop where
  get_eq : t.get index = t'.get index
  set_same : ∀ v, SameWrite (t.set index v) (t'.set index v)

/-! ## From zero on -/

theorem sameCells_iff (w : t.WellFormed) (w' : t'.WellFormed) :
    t.SameCells t' ↔ t.length = t'.length ∧ ∀ i < t.length, t.cell i = t'.cell i := by
  have hget : ∀ i, i < t.length → i < t'.length → (t.get i = t'.get i ↔ t.cell i = t'.cell i) := by
    intro i hi hi'
    rw [get_eq_cell w hi, get_eq_cell w' hi', Except.ok.injEq]
  constructor
  · rintro ⟨hlen, hcells⟩
    exact ⟨hlen, fun i hi => (hget i hi (hlen ▸ hi)).mp (hcells i hi)⟩
  · rintro ⟨hlen, hcells⟩
    exact ⟨hlen, fun i hi => (hget i hi (hlen ▸ hi)).mpr (hcells i hi)⟩

/-- **Tapes with the same cells answer alike at every index from zero on.** -/
theorem SameCells.alikeAt (h : t.SameCells t') (w : t.WellFormed) (w' : t'.WellFormed) (i : Nat) :
    t.AlikeAt t' i := by
  obtain ⟨hlen, hcells⟩ := (sameCells_iff w w').mp h
  rcases Nat.lt_or_ge i t.length with hi | hi
  · have hi' : i < t'.length := hlen ▸ hi
    refine ⟨h.get_eq i hi, fun v => ?_⟩
    rw [set_eq_put hi, set_eq_put hi']
    refine .written ((sameCells_iff (w.put i v) (w'.put i v)).mpr ⟨by simpa using hlen, ?_⟩)
    intro j hj
    rw [length_put] at hj
    rw [cell_put w hi, cell_put w' hi', hcells j hj]
  · have hi' : t'.length ≤ i := hlen ▸ hi
    refine ⟨by rw [get_beyondEnd w hi, get_beyondEnd w' hi', hlen], fun v => ?_⟩
    rw [set, set, locate_beyondEnd w .set hi, locate_beyondEnd w' .set hi', hlen]
    exact .refused _

/-! ## Below zero -/

/-- **An index below zero counts from the end of the array**, and names no cell if it goes further
than to its start. -/
structure CountsFromEnd (t : Tape) : Prop where
  back : ∀ index : Int, index < 0 → 0 ≤ index + t.dense.size →
    t.get index = t.get (index + t.dense.size) ∧ ∀ v, t.set index v = t.set (index + t.dense.size) v
  tooFar : ∀ index : Int, index + t.dense.size < 0 →
    t.get index = .error (if index < -0x8000000000000000 then .tooWide else .beforeStart .get) ∧
      ∀ v, t.set index v =
        .error (if index < -0x8000000000000000 then .tooWide else .beforeStart .set)

theorem locate_back (w : t.WellFormed) (access : Access) {index : Int} (h : index < 0)
    (hstart : 0 ≤ index + t.dense.size) :
    t.locate access index = t.locate access (index + t.dense.size) := by
  have hlimit : t.dense.size ≤ 4194304 := w.dense_le_limit
  have hdense : index < t.dense.size := by omega
  have hback : index + t.dense.size < t.dense.size := by omega
  have hneg : ¬0 ≤ index := by omega
  have hwide : ¬index < -0x8000000000000000 := by omega
  simp only [locate, hdense, hback, hneg, hstart, hwide, if_true, if_false]

theorem locate_tooFar (t : Tape) (access : Access) {index : Int} (h : index + t.dense.size < 0) :
    t.locate access index =
      .error (if index < -0x8000000000000000 then .tooWide else .beforeStart access) := by
  have hdense : index < t.dense.size := by omega
  have hneg : ¬0 ≤ index := by omega
  have hstart : ¬0 ≤ index + t.dense.size := by omega
  simp only [locate, hdense, hneg, hstart, if_true, if_false]
  split <;> rfl

theorem WellFormed.countsFromEnd (w : t.WellFormed) : t.CountsFromEnd := by
  constructor
  · intro index h hstart
    exact ⟨by rw [get, get, locate_back w .get h hstart],
      fun v => by rw [set, set, locate_back w .set h hstart]⟩
  · intro index h
    exact ⟨by rw [get, locate_tooFar t .get h], fun v => by rw [set, locate_tooFar t .set h]⟩

theorem SameCells.alikeAt_of_size (h : t.SameCells t') (w : t.WellFormed) (w' : t'.WellFormed)
    (hsize : t.dense.size = t'.dense.size) (index : Int) : t.AlikeAt t' index := by
  by_cases hindex : 0 ≤ index
  · obtain ⟨i, rfl⟩ := Int.eq_ofNat_of_zero_le hindex
    exact h.alikeAt w w' i
  · have hneg : index < 0 := by omega
    by_cases hstart : 0 ≤ index + t.dense.size
    · obtain ⟨hget, hset⟩ := w.countsFromEnd.back index hneg hstart
      obtain ⟨hget', hset'⟩ := w'.countsFromEnd.back index hneg (hsize ▸ hstart)
      obtain ⟨i, hi⟩ := Int.eq_ofNat_of_zero_le hstart
      have halike := h.alikeAt w w' i
      rw [hi] at hget hset
      rw [← hsize, hi] at hget' hset'
      exact ⟨by rw [hget, hget', halike.get_eq],
        fun v => by rw [hset, hset']; exact halike.set_same v⟩
    · obtain ⟨hget, hset⟩ := w.countsFromEnd.tooFar index (by omega)
      obtain ⟨hget', hset'⟩ := w'.countsFromEnd.tooFar index (by omega)
      exact ⟨by rw [hget, hget'], fun v => by rw [hset, hset']; exact .refused _⟩

/-- The index that goes back to the first cell of one array goes too far in a shorter one. -/
theorem size_le_of_get_eq (w : t.WellFormed) (w' : t'.WellFormed)
    (h : t.get (-t'.dense.size) = t'.get (-t'.dense.size)) : t'.dense.size ≤ t.dense.size := by
  by_contra hlt
  have hpos := w'.dense_pos
  have hfirst : t'.get 0 = .ok (t'.cell 0) :=
    get_eq_cell w' (Nat.lt_of_lt_of_le hpos w'.dense_le_length)
  have hback := (w'.countsFromEnd.back (-t'.dense.size) (by omega) (by omega)).1
  rw [show -(t'.dense.size : Int) + t'.dense.size = 0 by omega, hfirst] at hback
  rw [(w.countsFromEnd.tooFar (-t'.dense.size) (by omega)).1, hback] at h
  cases h

/-- **Tapes with the same cells answer alike at every index exactly if their arrays are equally
long.** -/
theorem SameCells.alikeAt_iff (h : t.SameCells t') (w : t.WellFormed) (w' : t'.WellFormed) :
    (∀ index, t.AlikeAt t' index) ↔ t.dense.size = t'.dense.size := by
  constructor
  · intro halike
    refine Nat.le_antisymm ?_ ?_
    · exact size_le_of_get_eq w' w (halike _).get_eq.symm
    · exact size_le_of_get_eq w w' (halike _).get_eq
  · exact h.alikeAt_of_size w w'

/-! ## After any histories -/

/-- **From zero on growth is not observable, below zero it is.** Two tapes of one length, after any
histories that leave the same in every cell, answer alike at every index from zero on. They do so at
every index exactly if both store equally many cells in their arrays, from whose end an index below
zero counts. -/
theorem after_growth {length cellWidth cellWidth' : Int} {t₀ t₀' : Tape}
    (hnew : ofLength length cellWidth = .ok t₀) (hnew' : ofLength length cellWidth' = .ok t₀')
    (history history' : List Request)
    (hcells : ∀ i : Nat, (i : Int) < length →
      (t₀.after history).get i = (t₀'.after history').get i) :
    (∀ i : Nat, (t₀.after history).AlikeAt (t₀'.after history') i) ∧
      ((∀ index, (t₀.after history).AlikeAt (t₀'.after history') index) ↔
        (t₀.after history).dense.size = (t₀'.after history').dense.size) ∧
      (t₀.after history).CountsFromEnd := by
  have w := after_wellFormed hnew history
  have w' := after_wellFormed hnew' history'
  obtain ⟨hl, rfl⟩ := eq_new_of_ofLength hnew
  obtain ⟨-, rfl⟩ := eq_new_of_ofLength hnew'
  have hlen : ∀ cellWidth, (new length.toNat cellWidth).length = length.toNat := fun _ => rfl
  have hsame :
      ((new length.toNat cellWidth).after history).SameCells
      ((new length.toNat cellWidth').after history') := by
    constructor
    · rw [length_after, length_after, hlen, hlen]
    · intro i hi
      rw [length_after, hlen] at hi
      exact hcells i (by omega)
  exact ⟨hsame.alikeAt w w', hsame.alikeAt_iff w w', w.countsFromEnd⟩

/-! ## Tapes that differ in their storage alone -/

theorem get_after {length : Nat} (hl : 0 < length) (cellWidth : Int) {history : List Request}
    (hh : ∀ r ∈ history, r.FromStart) {i : Nat} (hi : i < length) :
    ((new length cellWidth).after history).get i = .ok (lastWritten i history) := by
  obtain ⟨w, hlen, hcell⟩ := after_keeps hl cellWidth hh
  rw [get_eq_cell w (by omega), hcell i hi]

/-- A tape that has stored all of its cells to hold a five in the fourth, and one that has not. -/
theorem after_growth_stored :
    ∃ t₀, ofLength 40000 8 = .ok t₀ ∧
      (∀ i : Nat, (i : Int) < 40000 →
        (t₀.after [.set 3 5]).get i = (t₀.after [.set 39999 1, .set 3 5, .set 39999 0]).get i) ∧
      ∀ i : Nat,
        (t₀.after [.set 3 5]).AlikeAt (t₀.after [.set 39999 1, .set 3 5, .set 39999 0]) i := by
  have hnew : ofLength 40000 8 = .ok (new 40000 8) := rfl
  have hcells : ∀ i : Nat, (i : Int) < 40000 →
      ((new 40000 8).after [.set 3 5]).get i =
        ((new 40000 8).after [.set 39999 1, .set 3 5, .set 39999 0]).get i := by
    intro i hi
    rw [get_after (by decide) 8 (by simp [Request.FromStart]) (by omega),
      get_after (by decide) 8 (by simp [Request.FromStart]) (by omega)]
    simp only [lastWritten, Request.writes?, List.reverse_cons, List.reverse_nil, List.nil_append,
      List.cons_append,
      List.findSome?_cons, List.findSome?_nil]
    grind
  exact ⟨_, hnew, hcells, (after_growth hnew hnew _ _ hcells).1⟩

/-- **An index below zero tells how much is stored**: both tapes hold zeros alone, and only one of
them has a cell there. -/
theorem get_below_zero_of_growth :
    ∃ t₀, ofLength 40000 8 = .ok t₀ ∧
      (∀ i : Nat, (i : Int) < 40000 → (t₀.after []).get i = (t₀.after [.set 39999 0]).get i) ∧
      (t₀.after []).get (-40000) = .error (.beforeStart .get) ∧
        (t₀.after [.set 39999 0]).get (-40000) = .ok 0 := by
  have hnew : ofLength 40000 8 = .ok (new 40000 8) := rfl
  have hzero : ∀ i : Nat, (i : Int) < 40000 →
      ((new 40000 8).after []).get i = .ok 0 ∧ ((new 40000 8).after [.set 39999 0]).get i =
        .ok 0 := by
    intro i hi
    rw [get_after (by decide) 8 (by simp) (by omega),
      get_after (by decide) 8 (by simp [Request.FromStart]) (by omega)]
    refine ⟨rfl, ?_⟩
    simp only [lastWritten, Request.writes?, List.reverse_cons, List.reverse_nil, List.nil_append,
      List.findSome?_cons, List.findSome?_nil]
    by_cases h : (39999 : Int) = i <;> simp [h]
  refine ⟨_, hnew, fun i hi => (hzero i hi).1.trans (hzero i hi).2.symm, ?_, ?_⟩
  · exact ((after_wellFormed hnew []).countsFromEnd.tooFar (-40000) (by simp [new, initialCells])).1
  · -- The write at the end has made the array as long as the tape.
    have w := after_wellFormed hnew [.set 39999 0]
    have hlen := length_after (new 40000 8) [.set 39999 0]
    have hlast := (stores_after hnew [.set 39999 0]).lt_size (i := 39999) (by decide)
      (by rw [hlen]; decide) (by decide)
    have hsize : ((new 40000 8).after [.set 39999 0]).dense.size = 40000 := by
      have hle := w.dense_le_length
      rw [hlen] at hle
      exact Nat.le_antisymm hle hlast
    rw [(w.countsFromEnd.back (-40000) (by decide) (by omega)).1, hsize]
    exact (hzero 0 (by decide)).2

end TapeLang.Tape
