import TapeLang.Proofs.Program.Loading
import TapeLang.Proofs.Program.Pass
import TapeLang.Proofs.Source.Tokens

/-!
# Faults and what is appended to a source

A closing bracket that closes nothing stays the fault, whatever is appended. Open brackets wait to
be closed: appended closing brackets take them from the innermost on, until the source loads, and
the next one is a fault.

* `load_append_of_stuck` — the fault of a closing bracket stays.
* `closings`, `load_closings_open`, `load_closings_all`, `load_closings_beyond` — fewer closing
  brackets than are open, as many, and more.
* `PairsAt` — the brackets at two offsets are partners in a loaded program.
* `load_error_append` — all of it, by the fault that a source loads to.
-/

namespace TapeLang.Program

open Source (code)

variable {a : List UInt8} {m : Matching}

/-- Closing brackets. -/
def closings (n : Nat) : List UInt8 :=
  List.replicate n Source.brackets.closing

theorem code_closings (n : Nat) : code (closings n) = List.replicate n .loopClose := by
  have hbyte : Instruction.ofByte? Source.brackets.closing = some .loopClose := rfl
  rw [code, closings, List.filterMap_replicate, hbyte]

theorem length_closings (n : Nat) : (closings n).length = n :=
  List.length_replicate

theorem closings_split {t n : Nat} (h : t < n) :
    closings n = closings t ++ Instruction.loopClose.byte :: closings (n - (t + 1)) := by
  rw [closings, closings, closings, ← List.singleton_append, ← List.append_assoc]
  show _ = List.replicate t Source.brackets.closing ++ [Source.brackets.closing] ++ _
  rw [← List.replicate_succ', List.replicate_append_replicate, show t + 1 + (n - (t + 1)) =
    n by omega]

/-- **The brackets at two byte offsets are partners** in a program. -/
def PairsAt (p : Program) (o c : Nat) : Prop :=
  ∃ i j : Nat, p.offsets[i]? = some o ∧ p.offsets[j]? = some c ∧ p.jumps[i]? = some (some j) ∧
    p.jumps[j]? = some (some i)

/-! ## Offsets -/

theorem getD_offsets_append (a b : List UInt8) {i : Nat} (h : i < (code a).length) :
    (Source.offsets (a ++ b)).getD i 0 = (Source.offsets a).getD i 0 := by
  rw [List.getD_eq_getElem?_getD, List.getD_eq_getElem?_getD, Source.offsets_append_of_lt a b h]

theorem getD_offsets_lt (a : List UInt8) {i : Nat} (h : i < (code a).length) :
    (Source.offsets a).getD i 0 < a.length := by
  obtain ⟨o, ho, hbyte⟩ := Source.byte_at_offset (List.getElem?_eq_getElem h)
  rw [List.getD_eq_getElem?_getD, ho, Option.getD_some]
  exact (List.getElem?_eq_some_iff.mp hbyte).1

theorem offsets_closings (a : List UInt8) {t n : Nat} (h : t < n) :
    (Source.offsets (a ++ closings n))[(code a).length + t]? = some (a.length + t) := by
  have hat := Source.offsets_split (a ++ closings t) (closings (n - (t + 1))) .loopClose
  rwa [List.append_assoc, ← closings_split h, Source.code_append, code_closings, List.length_append,
    List.length_append, List.length_replicate, length_closings] at hat

/-! ## A closing bracket that closes nothing -/

/-- **The fault of a closing bracket stays**, with its place. -/
theorem load_append_of_stuck {i : Nat} (h : Matching.run {} (code a) = .error i) (b : List UInt8) :
    ∃ e e', load a = .error e ∧ load (a ++ b) = .error e' ∧ e.kind = .unopened ∧
      e'.kind = .unopened ∧
      e'.offset = e.offset ∧ e'.index = e.index ∧ e'.line = e.line ∧ e'.column = e.column := by
  have hi : i < (code a).length := Matching.lt_length_of_stuck h
  have hrun : Matching.run {} (code (a ++ b)) = .error i := by
    rw [Source.code_append, Matching.run_append, h]
  have ho := getD_offsets_lt a hi
  refine ⟨_, _, load_of_stuck h, load_of_stuck hrun, rfl, rfl, ?_⟩
  rw [getD_offsets_append a b hi, LoadError.locate_natCast, LoadError.locate_natCast,
    Source.position_append a b (Nat.le_of_lt ho)]
  exact ⟨rfl, rfl, rfl, rfl⟩

/-! ## Closing what is open -/

theorem run_append_closings (h : Matching.run {} (code a) = .ok m) (n : Nat) :
    Matching.run {} (code (a ++ closings n)) = m.run (List.replicate n .loopClose) := by
  rw [Source.code_append, code_closings, Matching.run_append, h]

/-- The offsets of the open brackets, outermost first. -/
def places (a : List UInt8) (m : Matching) : List Nat :=
  m.opened.reverse.map fun i => (Source.offsets a).getD i 0

/-- **Fewer closing brackets than are open** leave the outer ones open. -/
theorem load_closings_open (h : Matching.run {} (code a) = .ok m) {n : Nat}
    (hn : n < m.opened.length) :
    ∃ e, load (a ++ closings n) = .error e ∧
      e.kind = .unclosed (((places a m).take (m.opened.length - n)).map Int.ofNat) := by
  obtain ⟨next, hrun, hopened⟩ := m.run_closings (Nat.le_of_lt hn)
  have hset : Matching.Settled (code a) m := Matching.settled_nil.run_ok h
  obtain ⟨outermost, inner, hrest⟩ : ∃ outermost inner, next.opened.reverse =
    outermost :: inner := by
    refine List.exists_cons_of_ne_nil fun hnil => ?_
    rw [hopened, List.reverse_eq_nil_iff, List.drop_eq_nil_iff] at hnil
    omega
  refine ⟨_, load_of_opened ((run_append_closings h n).trans hrun) hrest, ?_⟩
  show LoadError.Kind.unclosed _ = _
  rw [hopened, List.reverse_drop, places, ← List.map_take, List.map_map]
  refine congrArg _ (List.map_congr_left fun i hi => ?_)
  have hmem : i ∈ m.opened := List.mem_reverse.mp (List.mem_of_mem_take hi)
  rw [getD_offsets_append a _ (hset.waiting.lt_length i hmem)]
  rfl

/-- **As many closing brackets as are open** make a program in which each is the partner of the
bracket it takes. -/
theorem load_closings_all (h : Matching.run {} (code a) = .ok m) :
    ∃ p, load (a ++ closings m.opened.length) = .ok p ∧
      ∀ t < m.opened.length, ∃ o, (places a m)[m.opened.length - 1 - t]? = some o ∧
        p.PairsAt o (a.length + t) := by
  obtain ⟨next, hrun, hopened⟩ := m.run_closings (Nat.le_refl _)
  have hset : Matching.Settled (code a) m := Matching.settled_nil.run_ok h
  have hrun' := (run_append_closings h m.opened.length).trans hrun
  have hset' : Matching.Settled (code (a ++ closings m.opened.length)) next :=
    Matching.settled_nil.run_ok hrun'
  have hnone : next.opened = [] := by rw [hopened, List.drop_length]
  refine ⟨_, load_of_closed hrun' hnone, fun t ht => ?_⟩
  obtain ⟨i, hi⟩ : ∃ i, m.opened[t]? = some i := ⟨_, List.getElem?_eq_getElem ht⟩
  have hlt : i < (code a).length := hset.waiting.lt_length i (List.mem_of_getElem? hi)
  have hpair : Instruction.brackets.Partners (code (a ++ closings m.opened.length)) i
    ((code a).length + t) := by
    rw [Source.code_append, code_closings]
    exact hset.waiting.partners_closings hi ht
  have hplace : (places a m)[m.opened.length - 1 - t]? = some ((Source.offsets a).getD i 0) := by
    rw [places, List.getElem?_map, List.getElem?_reverse (by omega),
      show m.opened.length - 1 - (m.opened.length - 1 - t) = t by omega, hi, Option.map_some]
  refine ⟨_, hplace, i, (code a).length + t, ?_, ?_, (hset'.jumps_iff _ _).mpr (.inl hpair),
    (hset'.jumps_iff _ _).mpr (.inr hpair)⟩
  · have hoffset : i < (Source.offsets a).length := by rwa [Source.length_offsets]
    rw [List.getElem?_toArray, Source.offsets_append_of_lt a _ hlt, List.getD_eq_getElem?_getD,
      List.getElem?_eq_getElem hoffset, Option.getD_some]
  · rw [List.getElem?_toArray, offsets_closings a ht]

/-- **One closing bracket more than are open** is a fault. -/
theorem load_closings_beyond (h : Matching.run {} (code a) = .ok m) {n : Nat}
    (hn : m.opened.length < n) :
    ∃ e, load (a ++ closings n) = .error e ∧ e.kind = .unopened ∧
      e.offset = (a.length + m.opened.length : Nat) := by
  have hset : Matching.Settled (code a) m := Matching.settled_nil.run_ok h
  have hrun := (run_append_closings h n).trans (m.run_too_many_closings hn)
  refine ⟨_, load_of_stuck hrun, rfl, ?_⟩
  show ((List.getD _ _ 0 : Nat) : Int) = _
  rw [hset.size_jumps, List.getD_eq_getElem?_getD, offsets_closings a hn, Option.getD_some]

theorem places_sorted (h : Matching.run {} (code a) = .ok m) : (places a m).Pairwise (· < ·) := by
  have hset : Matching.Settled (code a) m := Matching.settled_nil.run_ok h
  rw [places, List.map_reverse, List.pairwise_reverse]
  exact (Source.waiting_of_code hset.waiting rfl).sorted

/-! ## By the fault -/

/-- **Faults respond to what is appended.** A closing bracket that closes nothing stays the fault,
at the same place. Brackets that are open are taken by appended closing brackets, the last of them
first: with fewer than are open the others are the fault, with as many the source loads and each is
the partner of the bracket it takes, and with more the first that takes none is the fault. -/
theorem load_error_append {e : LoadError} (h : load a = .error e) :
    (e.kind = .unopened → ∀ b, ∃ e', load (a ++ b) = .error e' ∧ e'.kind = .unopened ∧
      e'.offset = e.offset ∧ e'.index = e.index ∧ e'.line = e.line ∧ e'.column = e.column) ∧
    ∀ positions : List Int, e.kind = .unclosed positions →
      positions.Pairwise (· < ·) ∧ ∀ n,
        (n < positions.length → ∃ e', load (a ++ closings n) = .error e' ∧
          e'.kind = .unclosed (positions.take (positions.length - n))) ∧
        (n = positions.length → ∃ p, load (a ++ closings n) = .ok p ∧
          ∀ t < n, ∃ o : Nat, positions[n - 1 - t]? = some (o : Int) ∧ p.PairsAt o (a.length + t)) ∧
        (positions.length < n → ∃ e', load (a ++ closings n) = .error e' ∧ e'.kind = .unopened ∧
          e'.offset = (a.length + positions.length : Nat)) := by
  cases hrun : Matching.run {} (code a) with
  | error i =>
      refine ⟨fun _ b => ?_, fun positions hkind => ?_⟩
      · obtain ⟨e₀, e', hload, hload', _, hkind', hplace⟩ := load_append_of_stuck hrun b
        obtain rfl : e = e₀ := Except.error.inj (h.symm.trans hload)
        exact ⟨e', hload', hkind', hplace⟩
      · rw [load_of_stuck hrun] at h
        cases h
        cases hkind
  | ok m =>
      obtain ⟨outermost, inner, hopened⟩ : ∃ outermost inner, m.opened.reverse =
        outermost :: inner := by
        refine List.exists_cons_of_ne_nil fun hnil => ?_
        rw [load_of_closed hrun (List.reverse_eq_nil_iff.mp hnil)] at h
        cases h
      rw [load_of_opened hrun hopened] at h
      cases h
      refine ⟨(fun hkind => nomatch hkind), ?_⟩
      rintro positions ⟨⟩
      have hpositions : m.opened.reverse.map (fun i => ((Source.offsets a).getD i 0 : Int)) =
          (places a m).map Int.ofNat := by
        rw [places, List.map_map]
        rfl
      have hlen : ((places a m).map Int.ofNat).length = m.opened.length := by simp [places]
      rw [hpositions, hlen]
      refine ⟨?_, fun n => ⟨fun hn => ?_, ?_, fun hn => load_closings_beyond hrun hn⟩⟩
      · rw [List.pairwise_map]
        exact (places_sorted hrun).imp fun hlt => Int.ofNat_lt.mpr hlt
      · rw [← List.map_take]
        exact load_closings_open hrun hn
      · rintro rfl
        obtain ⟨p, hload, hpairs⟩ := load_closings_all hrun
        refine ⟨p, hload, fun t ht => ?_⟩
        obtain ⟨o, ho, hpair⟩ := hpairs t ht
        exact ⟨o, by rw [List.getElem?_map, ho]; rfl, hpair⟩

/-- The source `[+[`, with one, two and three closing brackets behind it. -/
theorem load_error_append_nested :
    ∃ e, load [0x5B, 0x2B, 0x5B] = .error e ∧ e.kind = .unclosed [0, 2] ∧
      (∃ e', load ([0x5B, 0x2B, 0x5B] ++ closings 1) = .error e' ∧ e'.kind = .unclosed [0]) ∧
      (∃ p, load ([0x5B, 0x2B, 0x5B] ++ closings 2) = .ok p ∧ ∃ o : Nat, ([0, 2] : List Int)[1]? =
        some (o : Int) ∧
        p.PairsAt o 3) ∧
      ∃ e', load ([0x5B, 0x2B, 0x5B] ++ closings 3) = .error e' ∧ e'.kind = .unopened ∧
        e'.offset = 5 := by
  obtain ⟨e, h, hkind⟩ : ∃ e, load [0x5B, 0x2B, 0x5B] = .error e ∧ e.kind = .unclosed [0, 2] := by
    exact ⟨_, rfl, by decide⟩
  obtain ⟨-, hclosed⟩ := (load_error_append h).2 [0, 2] hkind
  obtain ⟨p, hload, hpairs⟩ := (hclosed 2).2.1 rfl
  exact ⟨e, h, hkind, (hclosed 1).1 (by decide), ⟨p, hload, hpairs 0 (by decide)⟩,
    (hclosed 3).2.2 (by decide)⟩

end TapeLang.Program
