import TapeLang.Proofs.Machine.Limit
import TapeLang.Proofs.Machine.Registers
import TapeLang.Proofs.Overflow

/-!
# Repeating an instruction

An instruction that counts by one, made `n` times in a row, counts by `n` at once, in every mode.

* `Direction.room` — how often a register can be counted before its range ends.
* `Register.Moved` — a register has been counted `n` times, and nothing beside it is different;
  `Moved.trans`, `Moved.get_of_pointer`, `Moved.dp_of_cell`.
* `steps_shift`, `steps_refused` — the repetition where the one shift gives a value, and where it is
  refused.
* `steps_repeated` — both together.
-/

namespace TapeLang

/-- How far a number can be moved in a direction before it is at the edge of `[0, bound - 1]`. -/
def Direction.room (d : Direction) (v bound : Int) : Int :=
  match d with
  | .up => bound - 1 - v
  | .down => v

/-- A shift that is refused is longer than there is room, and the room ends at the edge, from where
no step is possible. -/
theorem Direction.room_lt_of_refused {d : Direction} {v bound : Int} {n : Nat}
    (hv : 0 ≤ v ∧ v < bound) (hn : ¬(0 ≤ v + d.delta * n ∧ v + d.delta * n < bound)) :
    0 ≤ d.room v bound ∧ d.room v bound < n ∧ v + d.delta * d.room v bound = d.edge bound := by
  cases d <;> simp only [Direction.delta, Direction.room, Direction.edge] at hn ⊢ <;> omega

/-- **A register has been counted `n` times**, which leaves everything beside it as it was: the
other register, the other cells, and the counters of the streams. -/
structure Register.Moved (r : Register) (n : Nat) (s s' : State) : Prop where
  ip_eq : s'.ip = s.ip + n
  steps_eq : s'.steps = s.steps + n
  dp_eq : r ≠ .pointer → s'.dp = s.dp
  get_eq : ∀ i : Nat, (r = .cell → (i : Int) ≠ s.dp) → s'.tape.get i = s.tape.get i
  reachedEof_eq : s'.reachedEof = s.reachedEof
  bytesRead_eq : s'.bytesRead = s.bytesRead
  bytesWritten_eq : s'.bytesWritten = s.bytesWritten

namespace Register.Moved

variable {r : Register} {k n : Nat} {s s' s'' : State}

theorem refl (r : Register) (s : State) : r.Moved 0 s s :=
  ⟨(Int.add_zero _).symm, (Int.add_zero _).symm, fun _ => rfl, fun _ _ => rfl, rfl, rfl, rfl⟩

theorem trans (h : r.Moved k s s') (h' : r.Moved n s' s'') : r.Moved (k + n) s s'' := by
  have hip := h.ip_eq
  have hip' := h'.ip_eq
  have hsteps := h.steps_eq
  have hsteps' := h'.steps_eq
  refine ⟨by omega, by omega, fun hr => (h'.dp_eq hr).trans (h.dp_eq hr), ?_,
    h'.reachedEof_eq.trans h.reachedEof_eq,
    h'.bytesRead_eq.trans h.bytesRead_eq, h'.bytesWritten_eq.trans h.bytesWritten_eq⟩
  intro i hi
  have hi' : r = .cell → (i : Int) ≠ s'.dp := by
    rintro rfl
    rw [h.dp_eq (by decide)]
    exact hi rfl
  rw [h'.get_eq i hi', h.get_eq i hi]

theorem step {c : Config} (h : s.Fits c) (r : Register) (v : Int) :
    r.Moved 1 s (r.set s v).next := by
  cases r with
  | cell =>
      refine ⟨rfl, rfl, fun _ => rfl, fun i hi => ?_, rfl, rfl, rfl⟩
      have hne : i ≠ s.dp.toNat := by
        have := hi rfl
        have := h.dp_toNat
        omega
      show (s.tape.put s.dp.toNat v).get i = s.tape.get i
      rw [Tape.get_put h.tape h.dp_toNat_lt, if_neg hne]
  | pointer => exact ⟨rfl, rfl, fun hr => absurd rfl hr, fun _ _ => rfl, rfl, rfl, rfl⟩

theorem get_of_pointer (h : Register.pointer.Moved n s s') (j : Nat) :
    s'.tape.get j = s.tape.get j :=
  h.get_eq j fun hr => absurd hr (by decide)

theorem dp_of_cell (h : Register.cell.Moved n s s') : s'.dp = s.dp :=
  h.dp_eq (by decide)

end Register.Moved

namespace Machine

variable {m : Machine} {s : State} {v w : Int}

/-- **Repeated counting is one shift**, where that gives a value. -/
theorem steps_shift (r : Register) (d : Direction) (n : Nat) (h : s.Fits m.config)
    (hcode : m.Ahead s (List.replicate n (r.instruction d))) (hv : r.Holds s v)
    (hw : shift v (d.delta * n) (r.bound m.config) (r.mode m.config) = .ok w) (io : Streams) :
    ∃ s', m.steps n s io = .done s' io ∧ s'.Fits m.config ∧ r.Moved n s s' ∧ r.Holds s' w := by
  induction n generalizing s v with
  | zero =>
      rw [Int.natCast_zero, Int.mul_zero, shift_zero _ (r.mem_range h hv)] at hw
      obtain rfl := Except.ok.inj hw
      exact ⟨s, rfl, h, .refl r s, hv⟩
  | succ n ih =>
      -- The shift by `n + 1` is one by a single step, which gives a value, and one by the other
      -- `n`.
      have hsum : d.delta * (n + 1 : Nat) = d.delta + d.delta * n := by
        cases d <;> simp only [Direction.delta] <;> omega
      have hsign : r.mode m.config = .wrap ∨ (0 ≤ d.delta ∧ 0 ≤ d.delta * n) ∨
        (d.delta ≤ 0 ∧ d.delta * n ≤ 0) := by
        cases d <;> simp only [Direction.delta] <;> omega
      rw [hsum, ← shift_shift (r.mem_range h hv) hsign] at hw
      cases hfirst : shift v d.delta (r.bound m.config) (r.mode m.config) with
      | error e =>
          rw [hfirst] at hw
          cases hw
      | ok u =>
          rw [hfirst] at hw
          obtain ⟨i, hip, hop⟩ := hcode.head
          have hstep := step_register r d h hip hop hv io
          rw [hfirst] at hstep
          have hset : (r.set s u).next.Fits m.config :=
            (r.fits_set h (shift_range (r.bound_pos _) hfirst)).congr rfl rfl
          have hmoved := Register.Moved.step h r u
          obtain ⟨s', hsteps, hfits, hlater, hholds⟩ :=
            ih hset (hcode.tail hmoved.ip_eq) (r.holds_next.mpr (r.holds_set h u)) hw
          refine ⟨s', (steps_succ_done n hstep).trans hsteps, hfits, ?_, hholds⟩
          rw [Nat.add_comm]
          exact hmoved.trans hlater

/-- **Repeated counting stops at the edge**, where the one shift is refused. -/
theorem steps_refused (r : Register) (d : Direction) {n : Nat} (h : s.Fits m.config)
    (hcode : m.Ahead s (List.replicate n (r.instruction d))) (hv : r.Holds s v) {e : ShiftError}
    (he : shift v (d.delta * n) (r.bound m.config) (r.mode m.config) = .error e) (io : Streams) :
    r.mode m.config = .check ∧ ∃ k < n, (k : Int) = d.room v (r.bound m.config) ∧
      ∃ s', m.steps k s io = .done s' io ∧ r.Moved k s s' ∧ r.Holds s' (d.edge (r.bound m.config)) ∧
        m.step s' io = .fail (error s' (r.cause m.config d (d.edge (r.bound m.config)))) s' io := by
  have hrange := r.mem_range h hv
  obtain ⟨_, hcheck, hbeyond⟩ := (shift_eq_error_iff (r.bound_pos m.config)).mp he
  obtain ⟨hroom, hlt, hedge⟩ := d.room_lt_of_refused hrange hbeyond
  obtain ⟨k, hk⟩ := Int.eq_ofNat_of_zero_le hroom
  rw [hk] at hlt hedge
  have hkn : k < n := Int.ofNat_lt.mp hlt
  have hsplit : List.replicate n (r.instruction d) =
      List.replicate k (r.instruction d) ++ r.instruction d :: List.replicate (n - k - 1)
        (r.instruction d) := by
    rw [← List.replicate_succ, List.replicate_append_replicate, show k + (n - k - 1 + 1) =
      n by omega]
  rw [hsplit] at hcode
  -- The instructions up to the edge make a shift that is not refused.
  have hinside : shift v (d.delta * k) (r.bound m.config) (r.mode m.config) =
    .ok (d.edge (r.bound m.config)) := by
    rw [← hedge]
    refine shift_of_mem _ ?_ ?_ <;> cases d <;> simp only [Direction.edge] at hedge <;> omega
  obtain ⟨s', hsteps, hfits, hmoved, hholds⟩ := steps_shift r d k h hcode.left hv hinside io
  refine ⟨hcheck, k, hkn, hk.symm, s', hsteps, hmoved, hholds, ?_⟩
  have hahead : m.Ahead s' (r.instruction d :: List.replicate (n - k - 1) (r.instruction d)) := by
    refine hcode.right ?_
    rw [List.length_replicate]
    exact hmoved.ip_eq
  obtain ⟨i, hip, hop⟩ := hahead.head
  obtain ⟨f, hf⟩ := (shift_delta_iff (r.mem_range hfits hholds) d _).mpr ⟨hcheck, rfl⟩
  rw [step_register r d hfits hip hop hholds, hf]

/-- **Repeating an instruction equals one big shift, in every mode.** Let `n` instructions of one
kind, each counting a register by one, be ahead in a state whose memory is in order, and let the
register hold `v`. If the shift of `v` by all of them is a value, then `n` steps complete, leave
this value in the register and are counted, and nothing else is different. Otherwise the mode is a
check; as many steps complete as there is room for, leave the register at the edge, and the next one
is refused with the error of the register, which tells the edge, and changes nothing. -/
theorem steps_repeated (m : Machine) {s : State} (h : s.Fits m.config) (r : Register)
    (d : Direction) (n : Nat) (hcode : m.Ahead s (List.replicate n (r.instruction d)))
    (io : Streams) :
    ∃ v, r.Holds s v ∧
      match shift v (d.delta * n) (r.bound m.config) (r.mode m.config) with
      | .ok w => ∃ s', m.steps n s io = .done s' io ∧ r.Moved n s s' ∧ r.Holds s' w
      | .error _ =>
        let edge := d.edge (r.bound m.config)
        r.mode m.config = .check ∧ ∃ k < n, (k : Int) = d.room v (r.bound m.config) ∧
          ∃ s' e, m.steps k s io = .done s' io ∧ r.Moved k s s' ∧ r.Holds s' edge ∧
            m.step s' io = .fail (.execution e) s' io ∧
            e = ⟨r.cause m.config d edge, s'.ip, s'.dp⟩ ∧ e.value = some edge := by
  obtain ⟨v, hv⟩ := r.exists_holds h
  refine ⟨v, hv, ?_⟩
  cases hshift : shift v (d.delta * n) (r.bound m.config) (r.mode m.config) with
  | ok w =>
      obtain ⟨s', hsteps, _, hmoved, hholds⟩ := steps_shift r d n h hcode hv hshift io
      exact ⟨s', hsteps, hmoved, hholds⟩
  | error e =>
      obtain ⟨hcheck, k, hkn, hk, s', hsteps, hmoved, hholds, hstep⟩ :=
        steps_refused r d h hcode hv hshift io
      exact ⟨hcheck, k, hkn, hk, s', _, hsteps, hmoved, hholds, hstep, rfl,
        r.value_cause m.config d hholds⟩

/-- Three increments of a cell of one bit: under a check the second is refused. -/
theorem steps_repeated_refused :
    let m : Machine :=
      ⟨⟨[0x2B, 0x2B, 0x2B], #[.increment, .increment, .increment], #[0, 1, 2], #[none, none, none]⟩,
        { cellOverflow := .check, tapeLength := 1, cellWidth := 1 }⟩
    m.start.Fits m.config ∧ m.Ahead m.start (List.replicate 3 (Register.cell.instruction .up)) ∧
      ∃ s' e, m.steps 1 m.start {} = .done s' {} ∧ s'.cell = .ok 1 ∧
        m.step s' {} = .fail (.execution e) s' {} ∧
        e.cause = .arithmeticOverflow 1 ∧ e.value = some 1 := by
  intro m
  have hfits : m.start.Fits m.config := State.fits_start m
  have hcode : m.Ahead m.start (List.replicate 3 (Register.cell.instruction .up)) :=
    ⟨by decide, by decide⟩
  obtain ⟨v, hv, hshift⟩ := steps_repeated m hfits .cell .up 3 hcode {}
  obtain rfl : 0 = v := Except.ok.inj hv
  obtain ⟨_, k, _, hk, s', e, hsteps, _, hholds, hstep, rfl, hvalue⟩ := hshift
  obtain rfl : k = 1 := Int.ofNat_inj.mp hk
  exact ⟨hfits, hcode, s', _, hsteps, hholds, hstep, rfl, hvalue⟩

end Machine

end TapeLang
