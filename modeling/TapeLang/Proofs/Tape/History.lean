import Mathlib.Data.List.Induction
import TapeLang.Tape.Lemmas
import TapeLang.Tape.Request

/-!
# A tape remembers what was written last

A tape that grows while it is used is a plain row of cells: a read gives what was written to the
cell last, whatever else was asked for in between and wherever the cell is kept.

* `Request.FromStart` — the index of the request, if it has one, counts from the first cell.
* `lastWritten` — what a history of requests wrote to a cell last.
* `WellFormed.serve`, `length_serve` — any request keeps a tape well-formed and of its length.
* `serve_keeps` — what one request does to the cells of a tape; `after_keeps` — what a history does.
* `serve_get`, `serve_get_beyondEnd`, `serve_set_beyondEnd` — the answers, by whether the cell is on
  the tape.
* `after_plain` — all of it together, for a tape of any possible length.
-/

namespace TapeLang.Tape

variable {t : Tape} {i : Nat}

def Request.FromStart : Request → Prop
  | .get index => 0 ≤ index
  | .set index _ => 0 ≤ index
  | _ => True

/-- What a request writes to cell `i`. -/
def Request.writes? (i : Nat) : Request → Option Int
  | .set index value => if index = i then some value else none
  | _ => none

theorem writes?_set (i j : Nat) (v : Int) :
    (Request.set (j : Nat) v).writes? i = if j = i then some v else none := by
  simp only [Request.writes?, Int.ofNat_inj]

/-- **What `history` wrote to cell `i` last**; zero, if it wrote nothing there. -/
def lastWritten (i : Nat) (history : List Request) : Int :=
  (history.reverse.findSome? (Request.writes? i)).getD 0

@[simp]
theorem lastWritten_nil (i : Nat) : lastWritten i [] = 0 := rfl

theorem lastWritten_concat (i : Nat) (history : List Request) (r : Request) :
    lastWritten i (history ++ [r]) = (r.writes? i).getD (lastWritten i history) := by
  rw [lastWritten, List.reverse_concat, List.findSome?_cons]
  cases r.writes? i <;> rfl

/-! ## One request -/

theorem serve_get (w : t.WellFormed) (h : i < t.length) :
    t.serve (.get i) = (.value (t.cell i), t) := by
  simp only [serve, get_eq_cell w h]

theorem serve_get_beyondEnd (w : t.WellFormed) (h : t.length ≤ i) :
    t.serve (.get i) = (.refused (.beyondEnd i t.length), t) := by
  simp only [serve, get_beyondEnd w h]

theorem serve_set (h : i < t.length) (v : Int) : t.serve (.set i v) = (.written, t.put i v) := by
  simp only [serve, set_eq_put h]

theorem serve_set_beyondEnd (w : t.WellFormed) (h : t.length ≤ i) (v : Int) :
    t.serve (.set i v) = (.refused (.beyondEnd i t.length), t) := by
  simp only [serve, set, locate_beyondEnd w .set h]

theorem serve_snd_of_forall_ne_set {r : Request} (h : ∀ index v, r ≠ .set index v) :
    (t.serve r).2 = t := by
  cases r with
  | get index =>
      unfold serve
      dsimp only
      split <;> rfl
  | set index v => exact absurd rfl (h index v)
  | length =>
      unfold serve
      dsimp only
      split <;> rfl
  | snapshot => rfl
  | label => rfl

theorem exists_holds_of_locate {access : Access} {index : Int} {place : Place}
    (h : t.locate access index = .ok place) :
    ∃ i, place.Holds t i := by
  by_cases hindex : 0 ≤ index
  · obtain ⟨i, rfl⟩ := Int.eq_ofNat_of_zero_le hindex
    exact ⟨i, locate_holds h⟩
  · simp only [locate, hindex, if_false] at h
    rw [if_pos (by omega)] at h
    split at h
    · cases h
    · split at h
      · rename_i hstart
        cases h
        exact ⟨_, rfl, by omega⟩
      · cases h

/-- **Any request keeps a tape well-formed**, also one whose index counts back from the end of the
array. -/
theorem WellFormed.serve (w : t.WellFormed) (r : Request) : (t.serve r).2.WellFormed := by
  cases r with
  | set index v =>
      simp only [Tape.serve, Tape.set]
      split
      · rename_i t' ht
        split at ht
        · rename_i place hplace
          cases ht
          obtain ⟨i, hi⟩ := exists_holds_of_locate hplace
          exact w.store hi v
        · cases ht
      · exact w
  | _ =>
      rw [serve_snd_of_forall_ne_set (by simp)]
      exact w

theorem length_serve (t : Tape) (r : Request) : (t.serve r).2.length = t.length := by
  cases r with
  | set index v =>
      simp only [serve, set]
      cases t.locate .set index with
      | ok place => exact length_store t place v
      | error f => rfl
  | _ => rw [serve_snd_of_forall_ne_set (by simp)]

theorem length_after (t : Tape) (history : List Request) : (t.after history).length = t.length := by
  induction history using List.reverseRecOn with
  | nil => rfl
  | append_singleton history r ih => rw [after_concat, length_serve, ih]

/-- **One request keeps a tape well-formed and of its length**, and a cell keeps its value unless it
is written. -/
theorem serve_keeps (w : t.WellFormed) {r : Request} (hr : r.FromStart) :
    (t.serve r).2.WellFormed ∧ (t.serve r).2.length = t.length ∧
      ∀ i < t.length, (t.serve r).2.cell i = (r.writes? i).getD (t.cell i) := by
  refine ⟨w.serve r, ?_⟩
  cases r with
  | set index v =>
      obtain ⟨j, rfl⟩ := Int.eq_ofNat_of_zero_le hr
      by_cases hj : j < t.length
      · rw [serve_set hj]
        refine ⟨length_put t j v, ?_⟩
        intro i _
        rw [cell_put w hj, writes?_set]
        by_cases hij : i = j
        · simp [hij]
        · simp [hij, Ne.symm hij]
      · rw [serve_set_beyondEnd w (Nat.le_of_not_lt hj)]
        refine ⟨rfl, ?_⟩
        intro i hi
        have hij : j ≠ i := by omega
        simp [writes?_set, hij]
  | _ =>
      rw [serve_snd_of_forall_ne_set (by simp)]
      exact ⟨rfl, fun _ _ => rfl⟩

/-! ## Histories -/

/-- **After any history a cell of a fresh tape holds what was written to it last.** -/
theorem after_keeps {length : Nat} (hl : 0 < length) (cellWidth : Int) {history : List Request}
    (hh : ∀ r ∈ history, r.FromStart) :
    ((new length cellWidth).after history).WellFormed ∧
      ((new length cellWidth).after history).length = length ∧
      ∀ i < length, ((new length cellWidth).after history).cell i = lastWritten i history := by
  induction history using List.reverseRecOn with
  | nil => exact ⟨wellFormed_new hl cellWidth, rfl, fun i _ => cell_new length cellWidth i⟩
  | append_singleton history r ih =>
      obtain ⟨w, hlen, hcell⟩ := ih fun r hr => hh r (List.mem_append_left _ hr)
      obtain ⟨w', hlen', hcell'⟩ := serve_keeps w (hh r (by simp))
      rw [after_concat]
      refine ⟨w', hlen'.trans hlen, ?_⟩
      intro i hi
      rw [hcell' i (by omega), hcell i hi, lastWritten_concat]

/-- **A tape is a plain row of cells.** After any history of requests with indices from zero on, a
read on the tape gives what was written to the cell last and a write there succeeds; a read or a
write behind the end is refused and changes nothing; and a write changes no other cell. -/
theorem after_plain {length : Int} (hl : 1 ≤ length) (cellWidth : Int) :
    ∃ t₀, ofLength length cellWidth = .ok t₀ ∧
      ∀ history : List Request, (∀ r ∈ history, r.FromStart) → ∀ i : Nat,
        ((i : Int) < length →
          (t₀.after history).serve (.get i) = (.value (lastWritten i history), t₀.after history) ∧
            ∀ v, ((t₀.after history).serve (.set i v)).1 = .written) ∧
        (length ≤ i →
          (t₀.after history).serve (.get i) = (.refused (.beyondEnd i length.toNat),
            t₀.after history) ∧
            ∀ v, (t₀.after history).serve (.set i v) =
              (.refused (.beyondEnd i length.toNat), t₀.after history)) ∧
        ∀ v, ∀ j : Nat, j ≠ i → (j : Int) < length →
          (((t₀.after history).serve (.set i v)).2.serve (.get j)).1 =
            ((t₀.after history).serve (.get j)).1 := by
  have hpos : 0 < length.toNat := by omega
  refine ⟨new length.toNat cellWidth, by simp [ofLength]; omega, ?_⟩
  intro history hh i
  obtain ⟨w, hlen, hcell⟩ := after_keeps hpos cellWidth hh
  generalize (new length.toNat cellWidth).after history = t at w hlen hcell
  refine ⟨?_, ?_, ?_⟩
  · intro hi
    have hi' : i < t.length := by omega
    refine ⟨?_, fun v => by rw [serve_set hi']⟩
    rw [serve_get w hi', hcell i (hlen ▸ hi')]
  · intro hi
    rw [← hlen]
    exact ⟨serve_get_beyondEnd w (by omega), serve_set_beyondEnd w (by omega)⟩
  · intro v j hji hj
    have hj' : j < t.length := by omega
    obtain ⟨w', hlen', hcell'⟩ := serve_keeps w (r := .set i v) (Int.natCast_nonneg i)
    rw [serve_get w hj', serve_get w' (hlen' ▸ hj'), hcell' j hj', writes?_set,
      if_neg (Ne.symm hji)]
    rfl

/-- A cell that is first read, then written by growing, then written again, with a write far out in
between. -/
theorem after_plain_grown :
    ∃ t₀, ofLength 4194400 8 = .ok t₀ ∧
      (t₀.after [.get 40000, .set 40000 7, .snapshot, .set 4194304 5, .set 4194400 6,
        .set 40000 (-1)]).serve
          (.get 40000) =
        (.value (-1),
          t₀.after [.get 40000, .set 40000 7, .snapshot, .set 4194304 5, .set 4194400 6,
            .set 40000 (-1)]) := by
  obtain ⟨t₀, hnew, hplain⟩ := after_plain (show (1 : Int) ≤ 4194400 by decide) 8
  refine ⟨t₀, hnew, ?_⟩
  have hstart :
    ∀ r ∈ ([.get 40000, .set 40000 7, .snapshot, .set 4194304 5, .set 4194400 6, .set 40000 (-1)] :
      List Request), r.FromStart := by
    simp [Request.FromStart]
  exact ((hplain _ hstart 40000).1 (by decide)).1

end TapeLang.Tape
