import TapeLang.Proofs.Brackets.Balance

/-!
# Open brackets

A word that never closes more than it opens is made of balanced stretches, with the brackets between
them that are still open. `Brackets.Waiting` is that decomposition, with the places of the open
brackets, innermost first: what a reader keeps on its stack.

* `Waiting.push`, `Waiting.skip`, `Waiting.pop` — how the open brackets change with one more symbol.
* `Waiting.mem_iff` — they are the opening brackets without a partner.
* `Waiting.partners_concat_iff` — a closing bracket makes one pair, with the innermost of them.
* `Waiting.sorted`, `Waiting.balanced_iff` — they are listed from the last to the first, and there
  is none exactly in a balanced word.
* `Waiting.depth_eq`, `Waiting.mem_iff_partners` — there are as many as the depth tells, and in a
  balanced word they are those whose partners are further on.
* `Waiting.closings`, `Waiting.partners_closings` — closing brackets behind the word take them one
  by one.
-/

namespace TapeLang.Brackets

variable {α : Type} [DecidableEq α] (b : Brackets α)

/-- **The open brackets of a word**, innermost first: between any two of them, before the first and
behind the last the word is balanced. -/
inductive Waiting : List α → List Nat → Prop
  | balanced {w : List α} : b.Balanced w → Waiting w []
  | opened {w v : List α} {places : List Nat} :
      Waiting w places → b.Balanced v → Waiting (w ++ b.opening :: v) (w.length :: places)

variable {b} {w : List α} {places : List Nat}

/-! ## One more symbol -/

theorem Waiting.append {v : List α} (h : b.Waiting w places) (hv : b.Balanced v) :
    b.Waiting (w ++ v) places := by
  cases h with
  | balanced hw => exact .balanced (hw.append hv)
  | opened hw hu =>
      rw [List.append_assoc, List.cons_append]
      exact .opened hw (hu.append hv)

theorem Waiting.push (h : b.Waiting w places) : b.Waiting (w ++ [b.opening]) (w.length :: places) :=
  .opened h balanced_nil

theorem Waiting.skip {x : α} (h : b.Waiting w places) (ho : x ≠ b.opening) (hc : x ≠ b.closing) :
    b.Waiting (w ++ [x]) places :=
  h.append (balanced_singleton ho hc)

theorem Waiting.pop {first : Nat} (h : b.Waiting w (first :: places)) :
    b.Waiting (w ++ [b.closing]) places ∧ b.Partners (w ++ [b.closing]) first w.length := by
  cases h with
  | @opened w v places hw hv =>
      rw [List.append_assoc, List.cons_append]
      refine ⟨hw.append hv.wrap, ?_⟩
      have hp := partners_of_balanced w [] hv
      rwa [show w.length + (v.length + 1) = (w ++ b.opening :: v).length by simp] at hp

/-! ## Which brackets are open -/

theorem Waiting.lt_length (h : b.Waiting w places) : ∀ i ∈ places, i < w.length := by
  induction h with
  | balanced _ => intro i hi; cases hi
  | opened _ _ ih =>
      intro i hi
      rw [List.length_append, List.length_cons]
      rcases List.mem_cons.mp hi with rfl | hi
      · omega
      · have := ih i hi
        omega

theorem Waiting.sorted (h : b.Waiting w places) : places.Pairwise (· > ·) := by
  induction h with
  | balanced _ => exact .nil
  | opened hw _ ih => exact List.pairwise_cons.mpr ⟨hw.lt_length, ih⟩

theorem depth_lt_of_open (w : List α) {v : List α} (hv : b.Balanced v) {k : Nat}
    (hwk : w.length < k) (hk : k ≤ (w ++ b.opening :: v).length) :
    b.depth w w.length < b.depth (w ++ b.opening :: v) k := by
  rw [List.length_append, List.length_cons] at hk
  have hv' := (b.balanced_iff_depth.mp hv).1 (k - (w.length + 1)) (by omega)
  have hsplit := b.depth_append_add (w ++ [b.opening]) v (k - (w.length + 1))
  rw [List.append_assoc, List.singleton_append, List.length_append, List.length_singleton,
    show w.length + 1 + (k - (w.length + 1)) = k by omega] at hsplit
  have hone := depth_after_open (b := b) (w := w ++ [b.opening]) (i := w.length) (by simp)
  rw [b.depth_append_of_le _ (Nat.le_refl _)] at hone
  omega

theorem Waiting.depth_nonneg (h : b.Waiting w places) : ∀ k ≤ w.length, 0 ≤ b.depth w k := by
  induction h with
  | balanced hw => exact (b.balanced_iff_depth.mp hw).1
  | @opened w v places hw hv ih =>
      intro k hk
      by_cases hkw : k ≤ w.length
      · rw [b.depth_append_of_le _ hkw]
        exact ih k hkw
      · have hbase := ih w.length (Nat.le_refl _)
        have := depth_lt_of_open w hv (by omega) hk
        omega

/-- No pair begins before an open bracket, or there, and ends behind it. -/
theorem not_partners_across (w : List α) {v : List α} (hv : b.Balanced v) {i j : Nat}
    (hi : i ≤ w.length) (hj : w.length ≤ j) : ¬b.Partners (w ++ b.opening :: v) i j := by
  intro hp
  have hjl := hp.lt_length
  obtain ⟨hij, ho, hc, hge, heq⟩ := b.partners_iff_depth.mp hp
  have hrise := depth_after_open ho
  have hdrop := depth_after_close hc
  have hbase : b.depth (w ++ b.opening :: v) w.length = b.depth w w.length :=
    b.depth_append_of_le _ (Nat.le_refl _)
  have hend := depth_lt_of_open w hv (k := j + 1) (by omega) (by omega)
  by_cases hiw : i = w.length
  · subst hiw
    omega
  · have := hge w.length (by omega) hj
    omega

/-- **The open brackets are the opening brackets without a partner.** -/
theorem Waiting.mem_iff (h : b.Waiting w places) (i : Nat) :
    i ∈ places ↔ w[i]? = some b.opening ∧ ∀ j, ¬b.Partners w i j := by
  induction h with
  | balanced hw =>
      constructor
      · intro hi
        cases hi
      · rintro ⟨ho, hnone⟩
        obtain ⟨j, hj⟩ := hw.exists_close ho
        exact absurd hj (hnone j)
  | @opened w v places hw hv ih =>
      rcases Nat.lt_trichotomy i w.length with hlt | rfl | hgt
      · have hne : i ≠ w.length := by omega
        rw [List.mem_cons, or_iff_right hne, ih, List.getElem?_append_left hlt]
        refine and_congr_right fun _ => ⟨?_, ?_⟩
        · intro hnone j hp
          by_cases hj : j < w.length
          · exact hnone j ((partners_append _ hj).mp hp)
          · exact not_partners_across w hv (by omega) (by omega) hp
        · intro hnone j hp
          exact hnone j ((partners_append _ hp.lt_length).mpr hp)
      · refine iff_of_true List.mem_cons_self ⟨by simp, ?_⟩
        intro j hp
        have := hp.lt
        exact not_partners_across w hv (Nat.le_refl _) (by omega) hp
      · constructor
        · intro hi
          rcases List.mem_cons.mp hi with rfl | hi
          · omega
          · have := hw.lt_length i hi
            omega
        · -- The rest of the word is balanced, so an opening bracket in it has its partner there.
          rintro ⟨ho, hnone⟩
          rw [show w ++ b.opening :: v = (w ++ [b.opening]) ++ v by simp] at ho hnone
          rw [List.getElem?_append_right (by simp; omega)] at ho
          obtain ⟨j, hj⟩ := hv.exists_close ho
          have hp := (partners_append_add (w ++ [b.opening]) v _ _).mpr hj
          simp only [List.length_append, List.length_singleton] at hp
          rw [show w.length + 1 + (i - (w.length + 1)) = i by omega] at hp
          exact absurd hp (hnone _)

theorem Waiting.not_partners {first : Nat} (h : b.Waiting w (first :: places)) (j : Nat) :
    ¬b.Partners w first j ∧ ¬b.Partners w j first := by
  obtain ⟨ho, hnone⟩ := (h.mem_iff first).mp List.mem_cons_self
  refine ⟨hnone j, ?_⟩
  intro hp
  rw [hp.closes, Option.some.injEq] at ho
  exact b.distinct ho.symm

/-- **A closing bracket makes one pair**, with the innermost open bracket. -/
theorem Waiting.partners_concat_iff {first : Nat} (h : b.Waiting w (first :: places)) (i j : Nat) :
    b.Partners (w ++ [b.closing]) i j ↔ b.Partners w i j ∨ (i = first ∧ j = w.length) := by
  obtain ⟨_, hpair⟩ := h.pop
  by_cases hj : j < w.length
  · rw [partners_append _ hj, or_iff_left (by omega)]
  · have hnone : ¬b.Partners w i j := fun hp => hj hp.lt_length
    rw [or_iff_right hnone]
    constructor
    · intro hp
      have hlt := hp.lt_length
      rw [List.length_append, List.length_singleton] at hlt
      obtain rfl : j = w.length := by omega
      exact ⟨hp.left_unique hpair, rfl⟩
    · rintro ⟨rfl, rfl⟩
      exact hpair

/-- **There are no open brackets exactly in a balanced word.** -/
theorem Waiting.balanced_iff (h : b.Waiting w places) : b.Balanced w ↔ places = [] := by
  constructor
  · intro hw
    refine List.eq_nil_iff_forall_not_mem.mpr ?_
    intro i hi
    obtain ⟨ho, hnone⟩ := (h.mem_iff i).mp hi
    obtain ⟨j, hj⟩ := hw.exists_close ho
    exact hnone j hj
  · rintro rfl
    cases h with
    | balanced hw => exact hw

/-- **There are as many open brackets as the depth tells.** -/
theorem Waiting.depth_eq (h : b.Waiting w places) : b.depth w w.length = places.length := by
  induction h with
  | balanced hw => exact (b.balanced_iff_depth.mp hw).2
  | @opened w v places _ hv ih =>
      have hend := (b.balanced_iff_depth.mp hv).2
      rw [List.length_append, List.length_cons, b.depth_append_add, b.depth_cons, b.weight_opening,
        ih, hend,
        List.length_cons]
      omega

/-- **The open brackets of a prefix of a balanced word** are those in it whose partners are not. -/
theorem Waiting.mem_iff_partners (h : b.Waiting w places) {v : List α} (hw : b.Balanced (w ++ v))
    (i : Nat) :
    i ∈ places ↔ ∃ j, b.Partners (w ++ v) i j ∧ i < w.length ∧ w.length ≤ j := by
  rw [h.mem_iff]
  constructor
  · rintro ⟨ho, hnone⟩
    obtain ⟨hi, _⟩ := List.getElem?_eq_some_iff.mp ho
    obtain ⟨j, hj⟩ := hw.exists_close (i := i) (by rwa [List.getElem?_append_left hi])
    exact ⟨j, hj, hi, Nat.le_of_not_lt fun hlt => hnone j ((partners_append v hlt).mp hj)⟩
  · rintro ⟨j, hj, hi, hle⟩
    refine ⟨by rw [← List.getElem?_append_left hi]; exact hj.opens, fun k hk => ?_⟩
    have := hj.right_unique ((partners_append v hk.lt_length).mpr hk)
    have := hk.lt_length
    omega

/-! ## Closing what is open -/

/-- **Closing brackets take the open ones, innermost first.** -/
theorem Waiting.closings (h : b.Waiting w places) {n : Nat} (hn : n ≤ places.length) :
    b.Waiting (w ++ List.replicate n b.closing) (places.drop n) := by
  induction n with
  | zero => simpa using h
  | succ n ih =>
      have hdrop : places.drop n = places[n] :: places.drop (n + 1) := List.drop_eq_getElem_cons hn
      have hpop := (hdrop ▸ ih (by omega)).pop.1
      rwa [List.append_assoc, ← List.replicate_succ'] at hpop

/-- Each of them is the partner of the bracket it takes. -/
theorem Waiting.partners_closings (h : b.Waiting w places) {n t place : Nat}
    (ht : places[t]? = some place) (hn : t < n) :
    b.Partners (w ++ List.replicate n b.closing) place (w.length + t) := by
  obtain ⟨hlt, hget⟩ := List.getElem?_eq_some_iff.mp ht
  have hdrop : places.drop t = place :: places.drop (t + 1) := hget ▸ List.drop_eq_getElem_cons hlt
  have hpair := (hdrop ▸ h.closings (Nat.le_of_lt hlt)).pop.2
  rw [List.append_assoc, ← List.replicate_succ', List.length_append, List.length_replicate] at hpair
  have hsplit : w ++ List.replicate n b.closing =
      (w ++ List.replicate (t + 1) b.closing) ++ List.replicate (n - (t + 1)) b.closing := by
    rw [List.append_assoc, List.replicate_append_replicate, show t + 1 + (n - (t + 1)) = n by omega]
  rw [hsplit, partners_append _ (by rw [List.length_append, List.length_replicate]; omega)]
  exact hpair

end TapeLang.Brackets
