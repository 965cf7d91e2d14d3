import Mathlib.Data.List.Infix
import Mathlib.Data.Nat.Find

/-!
# Words with brackets

A pair of brackets over any alphabet, and what it means that the brackets of a word pair up. The
same theory serves the bytes of a source and the instructions of a program.

* `Brackets.Balanced` — no prefix closes more than it opens, and the word closes all that it opens.
* `Brackets.Partners` — two brackets belong together: the word between them is balanced.
* `Brackets.depth` — how many brackets are open behind a number of symbols; `partners_iff_depth` and
  `balanced_iff_depth` say both notions by depth, so that their laws are linear arithmetic.
* `Partners.left_unique`, `Partners.right_unique`, `Partners.not_crossing` — a bracket has at most
  one partner, and two pairs are nested or apart (`Partners.nested_or_apart`).
* `Balanced.exists_close`, `Balanced.exists_open` — in a balanced word every bracket has a partner.
-/

namespace TapeLang

/-- An opening and a closing bracket. -/
structure Brackets (α : Type) where
  opening : α
  closing : α
  distinct : opening ≠ closing

namespace Brackets

variable {α : Type}

/-- The symbols strictly between two indices. -/
def between (w : List α) (i j : Nat) : List α :=
  (w.take j).drop (i + 1)

theorem length_between {w : List α} {i j : Nat} (hj : j ≤ w.length) :
    (between w i j).length = j - (i + 1) := by
  simp only [between, List.length_drop, List.length_take]
  omega

variable [DecidableEq α] (b : Brackets α)

/-- **The brackets of a word pair up**: no prefix has more closing than opening brackets, and the
word has as many of the one as of the other. -/
structure Balanced (w : List α) : Prop where
  prefix_le : ∀ p, p <+: w → p.count b.closing ≤ p.count b.opening
  total : w.count b.opening = w.count b.closing

/-- **The brackets at `i` and `j` belong together**: the one opens, the other closes, and the word
between them is balanced. -/
structure Partners (w : List α) (i j : Nat) : Prop where
  lt : i < j
  opens : w[i]? = some b.opening
  closes : w[j]? = some b.closing
  inner : b.Balanced (between w i j)

theorem Partners.lt_length {b : Brackets α} {w : List α} {i j : Nat} (h : b.Partners w i j) :
    j < w.length :=
  (List.getElem?_eq_some_iff.mp h.closes).1

/-- How many brackets more are opened than closed by the first `k` symbols of `w`. -/
def depth (w : List α) (k : Nat) : Int :=
  ((w.take k).count b.opening : Int) - ((w.take k).count b.closing : Int)

/-! ## Depth -/

@[simp]
theorem depth_zero (w : List α) : b.depth w 0 = 0 := by
  simp [depth]

/-- What a symbol adds to the depth. -/
def weight (x : α) : Int :=
  if x = b.opening then 1 else if x = b.closing then -1 else 0

@[simp]
theorem weight_opening : b.weight b.opening = 1 := by
  simp [weight]

@[simp]
theorem weight_closing : b.weight b.closing = -1 := by
  simp [weight, b.distinct.symm]

theorem neg_one_le_weight (x : α) : -1 ≤ b.weight x := by
  unfold weight
  split
  · omega
  · split <;> omega

theorem eq_closing_of_weight_neg {x : α} (h : b.weight x < 0) : x = b.closing := by
  unfold weight at h
  split at h
  · omega
  · split at h
    · assumption
    · omega

theorem eq_opening_of_weight_pos {x : α} (h : 0 < b.weight x) : x = b.opening := by
  unfold weight at h
  split at h
  · assumption
  · split at h <;> omega

theorem depth_succ {w : List α} {k : Nat} {x : α} (h : w[k]? = some x) :
    b.depth w (k + 1) = b.depth w k + b.weight x := by
  have hd := b.distinct
  simp only [depth, List.take_add_one, h, Option.toList_some, List.count_append,
    List.count_singleton, weight]
  by_cases ho : x = b.opening
  · subst ho
    simp [hd]
    omega
  · by_cases hc : x = b.closing
    · subst hc
      simp [ho]
      omega
    · simp [ho, hc]

theorem depth_of_length_le {w : List α} {k : Nat} (h : w.length ≤ k) :
    b.depth w k = b.depth w w.length := by
  simp [depth, List.take_of_length_le h]

theorem depth_append_of_le {w : List α} (v : List α) {k : Nat} (h : k ≤ w.length) :
    b.depth (w ++ v) k = b.depth w k := by
  simp [depth, List.take_append_of_le_length h]

theorem depth_append_add (w v : List α) (k : Nat) :
    b.depth (w ++ v) (w.length + k) = b.depth w w.length + b.depth v k := by
  simp only [depth, List.take_length_add_append, List.take_length, List.count_append]
  omega

theorem depth_cons (x : α) (w : List α) (k : Nat) :
    b.depth (x :: w) (k + 1) = b.weight x + b.depth w k := by
  have hone : b.depth [x] 1 = b.weight x := by
    rw [b.depth_succ (k := 0) (x := x) rfl, b.depth_zero, Int.zero_add]
  have hadd := b.depth_append_add [x] w k
  rw [List.length_singleton, hone] at hadd
  rw [← hadd, Nat.add_comm 1 k, List.singleton_append]

theorem depth_between {w : List α} {i j k : Nat} (hij : i < j) (hj : j ≤ w.length)
    (hk : i + 1 + k ≤ j) :
    b.depth (between w i j) k = b.depth w (i + 1 + k) - b.depth w (i + 1) := by
  have hsplit : (w.take j).take (i + 1) ++ between w i j = w.take j := List.take_append_drop _ _
  have hlen : ((w.take j).take (i + 1)).length = i + 1 := by
    simp only [List.length_take]
    omega
  have hadd := b.depth_append_add ((w.take j).take (i + 1)) (between w i j) k
  have hinit := b.depth_append_of_le (between w i j) (Nat.le_refl ((w.take j).take (i + 1)).length)
  rw [hsplit, hlen] at hadd hinit
  have htake : ∀ n, n ≤ j → b.depth (w.take j) n = b.depth w n := by
    intro n hn
    simp [depth, List.take_take, Nat.min_eq_left hn]
  rw [htake _ hk] at hadd
  rw [htake _ (by omega)] at hinit
  omega

/-! ## Balance and partners by depth -/

theorem balanced_iff_depth {w : List α} :
    b.Balanced w ↔ (∀ k ≤ w.length, 0 ≤ b.depth w k) ∧ b.depth w w.length = 0 := by
  constructor
  · intro h
    constructor
    · intro k _
      have := h.prefix_le _ (List.take_prefix k w)
      unfold depth
      omega
    · have := h.total
      unfold depth
      rw [List.take_length]
      omega
  · rintro ⟨hp, ht⟩
    constructor
    · intro p hpw
      have hk := hp p.length hpw.length_le
      rw [depth, ← List.prefix_iff_eq_take.mp hpw] at hk
      omega
    · rw [depth, List.take_length] at ht
      omega

/-- **Partners by depth**: behind the opening bracket the depth stays above its level until the
closing one. -/
theorem partners_iff_depth {w : List α} {i j : Nat} :
    b.Partners w i j ↔ i < j ∧ w[i]? = some b.opening ∧ w[j]? = some b.closing ∧
      (∀ k, i < k → k ≤ j → b.depth w (i + 1) ≤ b.depth w k) ∧ b.depth w j = b.depth w (i + 1) := by
  constructor
  · intro h
    have hj := h.lt_length
    obtain ⟨hlt, ho, hc, hin⟩ := h
    obtain ⟨hp, ht⟩ := b.balanced_iff_depth.mp hin
    rw [length_between (by omega)] at hp ht
    refine ⟨hlt, ho, hc, ?_, ?_⟩
    · intro k hik hkj
      have hk := hp (k - (i + 1)) (by omega)
      rw [b.depth_between hlt (by omega) (by omega), show i + 1 + (k - (i + 1)) = k by omega] at hk
      omega
    · rw [b.depth_between hlt (by omega) (by omega), show i + 1 + (j - (i + 1)) = j by omega] at ht
      omega
  · rintro ⟨hlt, ho, hc, hge, heq⟩
    obtain ⟨hj, _⟩ := List.getElem?_eq_some_iff.mp hc
    refine ⟨hlt, ho, hc, b.balanced_iff_depth.mpr ⟨?_, ?_⟩⟩
    · intro k hk
      rw [length_between (by omega)] at hk
      rw [b.depth_between hlt (by omega) (by omega)]
      have := hge (i + 1 + k) (by omega) (by omega)
      omega
    · rw [length_between (by omega), b.depth_between hlt (by omega) (by omega),
        show i + 1 + (j - (i + 1)) = j by omega]
      omega

/-! ## Laws of pairs -/

variable {b}

theorem depth_after_open {w : List α} {i : Nat} (h : w[i]? = some b.opening) :
    b.depth w (i + 1) = b.depth w i + 1 := by
  rw [b.depth_succ h, b.weight_opening]

theorem depth_after_close {w : List α} {j : Nat} (h : w[j]? = some b.closing) :
    b.depth w (j + 1) = b.depth w j - 1 := by
  rw [b.depth_succ h, b.weight_closing]
  omega

theorem Partners.right_unique {w : List α} {i j j' : Nat} (h : b.Partners w i j)
    (h' : b.Partners w i j') :
    j = j' := by
  obtain ⟨hij, _, hc, hge, heq⟩ := b.partners_iff_depth.mp h
  obtain ⟨hij', _, hc', hge', heq'⟩ := b.partners_iff_depth.mp h'
  have hdrop := depth_after_close hc
  have hdrop' := depth_after_close hc'
  by_contra hne
  rcases Nat.lt_or_gt_of_ne hne with hlt | hgt
  · have := hge' (j + 1) (by omega) (by omega)
    omega
  · have := hge (j' + 1) (by omega) (by omega)
    omega

theorem Partners.left_unique {w : List α} {i i' j : Nat} (h : b.Partners w i j)
    (h' : b.Partners w i' j) :
    i = i' := by
  obtain ⟨hij, ho, _, hge, heq⟩ := b.partners_iff_depth.mp h
  obtain ⟨hij', ho', _, hge', heq'⟩ := b.partners_iff_depth.mp h'
  have hrise := depth_after_open ho
  have hrise' := depth_after_open ho'
  by_contra hne
  rcases Nat.lt_or_gt_of_ne hne with hlt | hgt
  · have := hge i' (by omega) (by omega)
    omega
  · have := hge' i (by omega) (by omega)
    omega

/-- **Pairs do not cross**: one is inside the other, or it ends before the other begins. -/
theorem Partners.not_crossing {w : List α} {i j k m : Nat} (h : b.Partners w i j)
    (h' : b.Partners w k m) (hik : i < k) : j < k ∨ m < j := by
  obtain ⟨hij, ho, hc, hge, heq⟩ := b.partners_iff_depth.mp h
  obtain ⟨hkm, ho', hc', hge', heq'⟩ := b.partners_iff_depth.mp h'
  by_contra hcross
  have hjk : j ≠ k := by
    intro e
    rw [e, ho', Option.some.injEq] at hc
    exact b.distinct hc
  have hjm : j ≠ m := by
    intro e
    subst e
    exact absurd (h.left_unique h') (by omega)
  have hdrop := depth_after_close hc
  have hrise := depth_after_open ho'
  have hk := hge k (by omega) (by omega)
  have hj := hge' (j + 1) (by omega) (by omega)
  omega

theorem Partners.nested_or_apart {w : List α} {i j k l : Nat} (h : b.Partners w i j)
    (h' : b.Partners w k l) :
    (k = i ∧ l = j) ∨ (i < k ∧ l < j) ∨ (k < i ∧ j < l) ∨ l < i ∨ j < k := by
  have hlt := h.lt
  have hlt' := h'.lt
  rcases Nat.lt_trichotomy i k with hik | rfl | hki
  · have := h.not_crossing h' hik
    omega
  · exact .inl ⟨rfl, (h.right_unique h').symm⟩
  · have := h'.not_crossing h hki
    omega

/-- A prefix of the word decides whether two of its brackets belong together. -/
theorem partners_append {w : List α} (v : List α) {i j : Nat} (hj : j < w.length) :
    b.Partners (w ++ v) i j ↔ b.Partners w i j := by
  have hbetween : between (w ++ v) i j = between w i j := by
    simp only [between, List.take_append_of_le_length (by omega : j ≤ w.length)]
  constructor
  · rintro ⟨hlt, ho, hc, hin⟩
    rw [List.getElem?_append_left (by omega)] at ho hc
    exact ⟨hlt, ho, hc, hbetween ▸ hin⟩
  · rintro ⟨hlt, ho, hc, hin⟩
    refine ⟨hlt, ?_, ?_, hbetween.symm ▸ hin⟩
    · rwa [List.getElem?_append_left (by omega)]
    · rwa [List.getElem?_append_left (by omega)]

theorem partners_append_add (u w : List α) (i j : Nat) :
    b.Partners (u ++ w) (u.length + i) (u.length + j) ↔ b.Partners w i j := by
  have hget : ∀ k, (u ++ w)[u.length + k]? = w[k]? := by
    intro k
    rw [List.getElem?_append_right (by omega), Nat.add_sub_cancel_left]
  have hbetween : between (u ++ w) (u.length + i) (u.length + j) = between w i j := by
    simp only [between, List.take_length_add_append, Nat.add_assoc, List.drop_length_add_append]
  constructor
  · rintro ⟨hlt, ho, hc, hin⟩
    exact ⟨by omega, by rwa [hget] at ho, by rwa [hget] at hc, hbetween ▸ hin⟩
  · rintro ⟨hlt, ho, hc, hin⟩
    exact ⟨by omega, by rwa [hget], by rwa [hget], hbetween.symm ▸ hin⟩

theorem partners_of_balanced (u : List α) {w : List α} (v : List α) (h : b.Balanced w) :
    b.Partners (u ++ b.opening :: (w ++ b.closing :: v)) u.length (u.length + (w.length + 1)) := by
  have hp :=
    (partners_append_add (b := b) u (b.opening :: (w ++ b.closing :: v)) 0 (w.length + 1)).mpr
    ⟨by omega, rfl, by simp, by simpa [between] using h⟩
  exact hp

/-! ## Balanced words -/

theorem balanced_nil : b.Balanced [] :=
  ⟨fun p hp => by simp [List.prefix_nil.mp hp], by simp⟩

theorem Balanced.append {w v : List α} (hw : b.Balanced w) (hv : b.Balanced v) :
    b.Balanced (w ++ v) := by
  obtain ⟨pw, tw⟩ := b.balanced_iff_depth.mp hw
  obtain ⟨pv, tv⟩ := b.balanced_iff_depth.mp hv
  refine b.balanced_iff_depth.mpr ⟨?_, ?_⟩
  · intro k hk
    by_cases hkw : k ≤ w.length
    · rw [b.depth_append_of_le v hkw]
      exact pw k hkw
    · rw [List.length_append] at hk
      have := pv (k - w.length) (by omega)
      rw [show k = w.length + (k - w.length) by omega, b.depth_append_add]
      omega
  · rw [List.length_append, b.depth_append_add]
    omega

theorem balanced_singleton {x : α} (ho : x ≠ b.opening) (hc : x ≠ b.closing) : b.Balanced [x] := by
  refine ⟨?_, by simp [ho, hc]⟩
  intro p hp
  rcases List.prefix_cons_iff.mp hp with rfl | ⟨t, rfl, ht⟩
  · simp
  · simp [List.prefix_nil.mp ht, ho, hc]

theorem Balanced.wrap {w : List α} (h : b.Balanced w) :
    b.Balanced (b.opening :: (w ++ [b.closing])) := by
  have hd := b.distinct
  constructor
  · intro p hp
    rcases List.prefix_cons_iff.mp hp with rfl | ⟨t, rfl, ht⟩
    · simp
    · rcases List.prefix_concat_iff.mp ht with rfl | ht
      · have := h.total
        simp [hd, hd.symm, List.count_append]
        omega
      · have := h.prefix_le t ht
        simp [hd]
        omega
  · have := h.total
    simp [hd, hd.symm, List.count_append]
    omega

/-- **In a balanced word every opening bracket has a partner**: the first place behind it where the
depth falls below its level. -/
theorem Balanced.exists_close {w : List α} (h : b.Balanced w) {i : Nat}
    (ho : w[i]? = some b.opening) :
    ∃ j, b.Partners w i j := by
  obtain ⟨hp, ht⟩ := b.balanced_iff_depth.mp h
  obtain ⟨hi, _⟩ := List.getElem?_eq_some_iff.mp ho
  have hrise := depth_after_open ho
  have hex : ∃ k, i < k ∧ b.depth w k < b.depth w (i + 1) :=
    ⟨w.length, hi, by have := hp i (by omega); omega⟩
  -- `k` is the first such place, so the step to it is the one that closes the bracket.
  obtain ⟨k, hk, hmin⟩ : ∃ k, (i < k ∧ b.depth w k < b.depth w (i + 1)) ∧
      ∀ m < k, ¬(i < m ∧ b.depth w m < b.depth w (i + 1)) :=
    ⟨Nat.find hex, Nat.find_spec hex, fun m hm => Nat.find_min hex hm⟩
  have hik : i + 1 ≠ k := by
    rintro rfl
    omega
  have hlast := hmin (k - 1) (by omega)
  have hkw : k - 1 < w.length := by
    by_contra hge
    have hk1 := b.depth_of_length_le (w := w) (k := k) (by omega)
    have hk2 := b.depth_of_length_le (w := w) (k := k - 1) (by omega)
    omega
  obtain ⟨x, hx⟩ : ∃ x, w[k - 1]? = some x := ⟨_, List.getElem?_eq_getElem hkw⟩
  have hstep := b.depth_succ hx
  rw [show k - 1 + 1 = k by omega] at hstep
  have hclose : x = b.closing := b.eq_closing_of_weight_neg (by omega)
  have hlow := b.neg_one_le_weight x
  refine ⟨k - 1, b.partners_iff_depth.mpr ⟨by omega, ho, hclose ▸ hx, ?_, by omega⟩⟩
  intro m him hmk
  have := hmin m (by omega)
  omega

/-- **In a balanced word every closing bracket has a partner**: the last place before it where the
depth has not yet reached its level. -/
theorem Balanced.exists_open {w : List α} (h : b.Balanced w) {j : Nat}
    (hc : w[j]? = some b.closing) :
    ∃ i, b.Partners w i j := by
  obtain ⟨hp, _⟩ := b.balanced_iff_depth.mp h
  obtain ⟨hj, _⟩ := List.getElem?_eq_some_iff.mp hc
  have hdrop := depth_after_close hc
  have hafter := hp (j + 1) (by omega)
  have hzero := b.depth_zero w
  -- `i` is the last such place, counted back from `j`.
  obtain ⟨i, hij, hlow, hmax⟩ : ∃ i, i < j ∧ b.depth w i < b.depth w j ∧
      ∀ m, i < m → m ≤ j → b.depth w j ≤ b.depth w m := by
    have hex : ∃ n, n ≤ j ∧ b.depth w (j - n) < b.depth w j :=
      ⟨j, Nat.le_refl j, by rw [Nat.sub_self]; omega⟩
    refine ⟨j - Nat.find hex, ?_, (Nat.find_spec hex).2, ?_⟩
    · have hpos : Nat.find hex ≠ 0 := by
        intro e
        have := (Nat.find_spec hex).2
        rw [e, Nat.sub_zero] at this
        omega
      have := (Nat.find_spec hex).1
      omega
    · intro m hm hmj
      have hn := Nat.find_min hex (m := j - m) (by omega)
      rw [show j - (j - m) = m by omega] at hn
      omega
  obtain ⟨x, hx⟩ : ∃ x, w[i]? = some x := ⟨_, List.getElem?_eq_getElem (by omega)⟩
  have hstep := b.depth_succ hx
  have hnext := hmax (i + 1) (by omega) (by omega)
  have hopen : x = b.opening := b.eq_opening_of_weight_pos (by omega)
  subst hopen
  rw [b.weight_opening] at hstep
  refine ⟨i, b.partners_iff_depth.mpr ⟨hij, hx, hc, ?_, by omega⟩⟩
  intro m him hmj
  have := hmax m (by omega) hmj
  omega

end Brackets

end TapeLang
