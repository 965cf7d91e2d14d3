import TapeLang.Proofs.Machine.Thread
import TapeLang.Proofs.Tape.Snapshot

/-!
# A bound that is never hit can be enlarged

* `Config.Enlarges` — a configuration with a longer tape or wider cells, where leaving the smaller
  bound is refused; `Fault.Hits` — a fault of a bound that was enlarged.
* `State.Alike` — states that differ in the tape at most, and there in what is stored and not in the
  cells.
* `shift_enlarged` — below the smaller bound a checked number is moved under either bound alike.
* `move_alike` to `branch_alike`, `step_alike` — a step that does not hit an enlarged bound does the
  same under both.
* `trail_alike` — and so does a whole run; `enlarged_agrees` — in terms of what can be seen of it.
-/

namespace TapeLang

/-- **`c'` has larger bounds than `c`**: a longer tape, if the data pointer is checked, and cells
that are wider than a byte or as wide, if they are checked. -/
structure Config.Enlarges (c c' : Config) : Prop where
  cellOverflow : c'.cellOverflow = c.cellOverflow
  pointerOverflow : c'.pointerOverflow = c.pointerOverflow
  eof : c'.eof = c.eof
  tapeLength : c'.tapeLength = c.tapeLength ∨ c.pointerOverflow = .check ∧
    c.tapeLength ≤ c'.tapeLength
  cellWidth : c'.cellWidth = c.cellWidth ∨ c.cellOverflow = .check ∧ 8 ≤ c.cellWidth ∧
    c.cellWidth ≤ c'.cellWidth

/-- The fault is due to a bound of `c` that `c'` has enlarged. -/
def Fault.Hits (c c' : Config) (f : Fault) : Prop :=
  ∃ e, f = .execution e ∧
    ((∃ n, e.cause = .pointerOverflow n) ∧ c'.tapeLength ≠ c.tapeLength ∨
      (∃ v, e.cause = .arithmeticOverflow v) ∧ c'.cellWidth ≠ c.cellWidth)

/-- **States that look alike**: nothing but the storage of the tape differs. -/
def State.Alike (s s' : State) : Prop :=
  ∃ t : Tape, s' = { s with tape := t } ∧ ∀ i, t.cell i = s.tape.cell i

/-- Steps that raise the same, do the same to the streams and lead to states that look alike. -/
structure Step.Alike (r r' : Step) : Prop where
  fault : r'.fault = r.fault
  state : r.state.Alike r'.state
  streams : r'.streams = r.streams

theorem shift_enlarged {value delta bound bound' : Int} (hlt : value + delta < bound)
    (hle : bound ≤ bound') :
    shift value delta bound' .check = shift value delta bound .check := by
  by_cases hr : 0 ≤ value + delta
  · rw [shift_of_mem _ hr (by omega), shift_of_mem _ hr hlt]
  · rw [shift_check (fun h => hr h.1), shift_check (fun h => hr h.1)]

namespace State.Alike

variable {s s' : State} {c c' : Config}

theorem ip (h : s.Alike s') : s'.ip = s.ip := by
  obtain ⟨t, rfl, _⟩ := h
  rfl

theorem reachedEof (h : s.Alike s') : s'.reachedEof = s.reachedEof := by
  obtain ⟨t, rfl, _⟩ := h
  rfl

theorem current (h : s.Alike s') : s'.current = s.current := by
  obtain ⟨t, rfl, hcell⟩ := h
  exact hcell _

theorem put (h : s.Alike s') (hs : s.Fits c) (hs' : s'.Fits c') (v : Int) :
    (s.put v).Alike (s'.put v) := by
  obtain ⟨t, rfl, hcell⟩ := h
  refine ⟨t.put s.dp.toNat v, rfl, fun i => ?_⟩
  show (t.put s.dp.toNat v).cell i = (s.tape.put s.dp.toNat v).cell i
  have hlt' : s.dp.toNat < t.length := hs'.dp_toNat_lt
  rw [Tape.cell_put hs'.tape hlt', Tape.cell_put hs.tape hs.dp_toNat_lt, hcell]

theorem next (h : s.Alike s') : s.next.Alike s'.next := by
  obtain ⟨t, rfl, hcell⟩ := h
  exact ⟨t, rfl, hcell⟩

end State.Alike

namespace Machine

open State (Fits InRange)

variable {p : Program} {c c' : Config} {s s' : State} {io : Streams}

/-! ## One step -/

theorem move_alike (h : c.Enlarges c') (hs : s.Fits c) (ha : s.Alike s') (d : Direction)
    (hf : ∀ f, (move ⟨p, c⟩ d s io).fault = some f → ¬f.Hits c c') :
    (move ⟨p, c⟩ d s io).Alike (move ⟨p, c'⟩ d s' io) := by
  obtain ⟨t, rfl, hcell⟩ := ha
  rw [move_eq] at hf
  rw [move_eq, move_eq]
  simp only [h.pointerOverflow]
  by_cases hlength : c'.tapeLength = c.tapeLength
  · rw [hlength]
    split
    · exact ⟨rfl, ⟨t, rfl, hcell⟩, rfl⟩
    · exact ⟨rfl, ⟨t, rfl, hcell⟩, rfl⟩
  · obtain ⟨hcheck, hle⟩ := h.tapeLength.resolve_left hlength
    have := hs.dp_lt
    -- A move to the right can only be refused at the end of the shorter tape, which was not hit.
    have hlt : s.dp + d.delta < c.tapeLength := by
      refine Int.not_le.mp fun hge => ?_
      cases d with
      | up =>
          have hout :
              ¬(0 ≤ s.dp + Direction.up.delta ∧ s.dp + Direction.up.delta < c.tapeLength) := by
            omega
          simp only [hcheck, shift_check hout] at hf
          exact hf _ rfl ⟨_, rfl, .inl ⟨⟨_, rfl⟩, hlength⟩⟩
      | down =>
          simp only [Direction.delta] at hge
          omega
    simp only [hcheck, shift_enlarged hlt (Int.ofNat_le.mpr hle)]
    split
    · exact ⟨rfl, ⟨t, rfl, hcell⟩, rfl⟩
    · rename_i hshift
      cases d with
      | up =>
          simp only [hcheck, hshift] at hf
          exact absurd ⟨_, rfl, .inl ⟨⟨_, rfl⟩, hlength⟩⟩ (hf _ rfl)
      | down => exact ⟨rfl, ⟨t, rfl, hcell⟩, rfl⟩

theorem cellModulus_le (h : c.cellWidth ≤ c'.cellWidth) : c.cellModulus ≤ c'.cellModulus := by
  rw [Config.cellModulus_eq, Config.cellModulus_eq]
  exact Nat.pow_le_pow_right (by decide) h

theorem adjust_alike (h : c.Enlarges c') (hs : s.Fits c) (hs' : s'.Fits c') (ha : s.Alike s')
    (d : Direction) (hf : ∀ f, (adjust ⟨p, c⟩ d s io).fault = some f → ¬f.Hits c c') :
    (adjust ⟨p, c⟩ d s io).Alike (adjust ⟨p, c'⟩ d s' io) := by
  have hshift : shift s.current d.delta c'.cellModulus c.cellOverflow =
      shift s.current d.delta c.cellModulus c.cellOverflow := by
    by_cases hwidth : c'.cellWidth = c.cellWidth
    · rw [Config.cellModulus, hwidth, Config.cellModulus]
    · obtain ⟨hcheck, _, hle⟩ := h.cellWidth.resolve_left hwidth
      have hrange := hs.current_range
      have hmodulus : (c.cellModulus : Int) ≤ c'.cellModulus :=
        Int.ofNat_le.mpr (cellModulus_le hle)
      rw [hcheck]
      refine shift_enlarged (Int.not_le.mp fun hge => ?_) hmodulus
      cases d with
      | up =>
          have hout :
              ¬(0 ≤ s.current + Direction.up.delta ∧
                s.current + Direction.up.delta < c.cellModulus) := by
            omega
          rw [adjust_eq hs] at hf
          simp only [hcheck, shift_check hout] at hf
          exact hf _ rfl ⟨_, rfl, .inr ⟨⟨_, rfl⟩, hwidth⟩⟩
      | down =>
          simp only [Direction.delta] at hge
          omega
  rw [adjust_eq hs, adjust_eq hs']
  simp only [h.cellOverflow, ha.current, hshift]
  split
  · exact ⟨rfl, (ha.put hs hs' _).next, rfl⟩
  · obtain ⟨t, rfl, hcell⟩ := ha
    exact ⟨rfl, ⟨t, rfl, hcell⟩, rfl⟩

theorem write_alike (hs : s.Fits c) (hs' : s'.Fits c') (ha : s.Alike s') :
    (write s io).Alike (write s' io) := by
  simp only [write, hs.cell_eq, hs'.cell_eq, ha.current]
  obtain ⟨t, rfl, hcell⟩ := ha
  split
  · exact ⟨rfl, ⟨t, rfl, hcell⟩, rfl⟩
  · exact ⟨rfl, ⟨t, rfl, hcell⟩, rfl⟩

theorem readNothing_alike (h : c.Enlarges c') (hs : s.Fits c) (hs' : s'.Fits c') (ha : s.Alike s') :
    (readNothing ⟨p, c⟩ s io).Alike (readNothing ⟨p, c'⟩ s' io) := by
  have hput := ha.put hs hs' 0
  rw [readNothing_eq hs, readNothing_eq hs']
  simp only [h.eof]
  obtain ⟨t, rfl, hcell⟩ := ha
  obtain ⟨t', ht', hcell'⟩ := hput
  cases c.eof with
  | keep => exact ⟨rfl, ⟨t, rfl, hcell⟩, rfl⟩
  | zero => exact ⟨rfl, ⟨t', by rw [ht']; rfl, hcell'⟩, rfl⟩
  | check => exact ⟨rfl, ⟨t, rfl, hcell⟩, rfl⟩

theorem byte_mod_enlarged (h : c.Enlarges c') (b : UInt8) :
    b.toNat % c'.cellModulus = b.toNat % c.cellModulus := by
  rcases h.cellWidth with hwidth | ⟨_, hbyte, hle⟩
  · rw [Config.cellModulus, hwidth, Config.cellModulus]
  · have hlt : b.toNat < c.cellModulus := by
      have hpow : 2 ^ 8 ≤ 2 ^ c.cellWidth := Nat.pow_le_pow_right (by decide) hbyte
      have := b.toNat_lt
      rw [Config.cellModulus_eq]
      omega
    rw [Nat.mod_eq_of_lt hlt, Nat.mod_eq_of_lt (Nat.lt_of_lt_of_le hlt (cellModulus_le hle))]

theorem readByte_alike (h : c.Enlarges c') (hs : s.Fits c) (hs' : s'.Fits c') (ha : s.Alike s')
    (b : UInt8) :
    (readByte ⟨p, c⟩ b s io).Alike (readByte ⟨p, c'⟩ b s' io) := by
  rw [readByte_eq hs, readByte_eq hs']
  simp only [byte_mod_enlarged h]
  have hput := ha.put hs hs' (b.toNat % c.cellModulus : Nat)
  obtain ⟨t, rfl, _⟩ := ha
  obtain ⟨t', ht', hcell'⟩ := hput
  exact ⟨rfl, ⟨t', by rw [ht']; rfl, hcell'⟩, rfl⟩

theorem read_alike (h : c.Enlarges c') (hs : s.Fits c) (hs' : s'.Fits c') (ha : s.Alike s') :
    (read ⟨p, c⟩ s io).Alike (read ⟨p, c'⟩ s' io) := by
  have heof : s'.reachedEof = s.reachedEof := ha.reachedEof
  unfold read
  rw [heof]
  split
  · exact readNothing_alike h hs hs' ha
  · rcases io.input.next with ⟨_ | ⟨b, rest⟩⟩ | _ | f
    · exact readNothing_alike h hs hs' ha
    · exact readByte_alike h hs hs' ha b
    · exact readNothing_alike h hs hs' ha
    · obtain ⟨t, rfl, hcell⟩ := ha
      exact ⟨rfl, ⟨t, rfl, hcell⟩, rfl⟩

theorem branch_alike (hs : s.Fits c) (hs' : s'.Fits c') (ha : s.Alike s') (i : Nat)
    (onZero : Bool) :
    (branch ⟨p, c⟩ i onZero s io).Alike (branch ⟨p, c'⟩ i onZero s' io) := by
  rw [branch_eq hs, branch_eq hs', ha.current]
  obtain ⟨t, rfl, hcell⟩ := ha
  simp only
  split
  · cases p.partner i with
    | none => exact ⟨rfl, ⟨t, rfl, hcell⟩, rfl⟩
    | some j => exact ⟨rfl, ⟨t, rfl, hcell⟩, rfl⟩
  · exact ⟨rfl, ⟨t, rfl, hcell⟩, rfl⟩

theorem perform_alike (h : c.Enlarges c') (hs : s.Fits c) (hs' : s'.Fits c') (ha : s.Alike s')
    (i : Nat) (op : Instruction)
    (hf : ∀ f, (perform ⟨p, c⟩ i op s io).fault = some f → ¬f.Hits c c') :
    (perform ⟨p, c⟩ i op s io).Alike (perform ⟨p, c'⟩ i op s' io) := by
  cases op with
  | moveRight => exact move_alike h hs ha .up hf
  | moveLeft => exact move_alike h hs ha .down hf
  | increment => exact adjust_alike h hs hs' ha .up hf
  | decrement => exact adjust_alike h hs hs' ha .down hf
  | write => exact write_alike hs hs' ha
  | read => exact read_alike h hs hs' ha
  | loopOpen => exact branch_alike hs hs' ha i true
  | loopClose => exact branch_alike hs hs' ha i false

/-- **A step that does not hit an enlarged bound does the same under both.** -/
theorem step_alike (h : c.Enlarges c') (hs : s.InRange ⟨p, c⟩) (hs' : s'.InRange ⟨p, c'⟩)
    (ha : s.Alike s') (hf : ∀ f, (step ⟨p, c⟩ s io).fault = some f → ¬f.Hits c c') :
    (step ⟨p, c⟩ s io).Alike (step ⟨p, c'⟩ s' io) := by
  have hfinished : finished ⟨p, c'⟩ s' = finished ⟨p, c⟩ s :=
    congrArg (fun ip => decide ((p.size : Int) ≤ ip)) ha.ip
  cases hfin : finished ⟨p, c⟩ s with
  | true =>
      rw [step, step, if_pos hfin, if_pos (hfinished.trans hfin)]
      exact ⟨rfl, ha, rfl⟩
  | false =>
      obtain ⟨i, op, hip, hop⟩ := exists_instruction hs hfin
      rw [step_eq_perform hip hop] at hf
      rw [step_eq_perform hip hop, step_eq_perform (m := ⟨p, c'⟩) (ha.ip.trans hip) hop]
      exact perform_alike h hs.toFits hs'.toFits ha i op hf

/-! ## Whole runs -/

theorem trail_alike (hp : p.Paired) (h : c.Enlarges c') (n : Nat) {s s' : State}
    (hs : s.InRange ⟨p, c⟩) (hs' : s'.InRange ⟨p, c'⟩) (ha : s.Alike s') (io : Streams)
    (hf : ∀ a ∈ (trail ⟨p, c⟩ n s io).attempts, ∀ f, a.outcome.fault = some f → ¬f.Hits c c') :
    (trail ⟨p, c'⟩ n s' io).faults = (trail ⟨p, c⟩ n s io).faults ∧
      (trail ⟨p, c'⟩ n s' io).streams = (trail ⟨p, c⟩ n s io).streams ∧
      (trail ⟨p, c⟩ n s io).state.Alike (trail ⟨p, c'⟩ n s' io).state := by
  induction n generalizing s s' io with
  | zero => exact ⟨rfl, rfl, ha⟩
  | succ n ih =>
      -- Both runs stay in range, each within its own bounds, so that the step lemma applies again.
      obtain ⟨hfirst, hlater⟩ := List.forall_mem_cons.mp hf
      have hstep : (step ⟨p, c⟩ s io).Alike (step ⟨p, c'⟩ s' io) := step_alike h hs hs' ha hfirst
      obtain ⟨hfaults, hstreams, hstate⟩ :=
        ih (step_safe hp hs (.refl io)).state (step_safe hp hs' (.refl io)).state
        hstep.state (step ⟨p, c⟩ s io).streams hlater
      simp only [trail, attempt, Trail.faults, List.map_cons, hstep.fault, hstep.streams]
      exact ⟨congrArg (List.cons _) hfaults, hstreams, hstate⟩

theorem start_alike (p : Program) (c c' : Config) : (start ⟨p, c⟩).Alike (start ⟨p, c'⟩) :=
  ⟨_, rfl, fun _ => (Tape.cell_new _ _ _).trans (Tape.cell_new _ _ _).symm⟩

/-- **Enlarging a checked bound changes no run that did not hit it.** Let the tape be longer, where
the data pointer is checked, or the cells wider, where they are checked and have room for a byte. If
none of the first `n` attempts is refused at an enlarged bound, the same is raised at each of them
under the larger bounds, and they lead to the same streams and to the same state: nothing but the
storage of the tape differs, and neither a cell nor the snapshot shows that. -/
theorem enlarged_agrees {source : List UInt8} {p : Program} (hload : Program.load source = .ok p)
    {c c' : Config} (h : c.Enlarges c') (io : Streams) (n : Nat)
    (hf : ∀ a ∈ (trail ⟨p, c⟩ n (start ⟨p, c⟩) io).attempts, ∀ f, a.outcome.fault = some f →
      ¬f.Hits c c') :
    let t := trail ⟨p, c⟩ n (start ⟨p, c⟩) io
    let t' := trail ⟨p, c'⟩ n (start ⟨p, c'⟩) io
    t'.faults = t.faults ∧ t'.streams = t.streams ∧
      t'.state = { t.state with tape := t'.state.tape } ∧
      (∀ i : Nat, i < c.tapeLength → t'.state.tape.get i = t.state.tape.get i) ∧
      t'.state.tape.snapshot = t.state.tape.snapshot := by
  intro t t'
  have hp := Program.paired_of_load hload
  obtain ⟨hfaults, hstreams, tape, hstate, hcell⟩ :=
    trail_alike hp h n (inRange_start _) (inRange_start _) (start_alike p c c') io hf
  have ht : t.state.InRange ⟨p, c⟩ := ((trail_thread _ n _ io).inRange hp (inRange_start _)).1
  have ht' : t'.state.InRange ⟨p, c'⟩ := ((trail_thread _ n _ io).inRange hp (inRange_start _)).1
  have htape : t'.state.tape = tape := congrArg State.tape hstate
  have hsame : ∀ i, t'.state.tape.cell i = t.state.tape.cell i := fun i => htape ▸ hcell i
  refine ⟨hfaults, hstreams, htape ▸ hstate, ?_, Tape.snapshot_eq ht.tape ht'.tape hsame⟩
  intro i hi
  have hlength : c.tapeLength ≤ c'.tapeLength := by
    rcases h.tapeLength with heq | ⟨_, hle⟩
    · exact Nat.le_of_eq heq.symm
    · exact hle
  have hi' : i < t'.state.tape.length := by
    rw [ht'.length_eq]
    exact Nat.lt_of_lt_of_le hi hlength
  rw [Tape.get_eq_cell ht.tape (by rwa [ht.length_eq]), Tape.get_eq_cell ht'.tape hi', hsame]

/-- A byte is read into the last of two cells, and the first cannot be decremented, on a longer tape
of wider cells too. -/
theorem enlarged_agrees_two_cells :
    let c : Config := { cellOverflow := .check, tapeLength := 2 }
    let c' : Config := { cellOverflow := .check, tapeLength := 5, cellWidth := 16 }
    let p : Program := ⟨[0x3E, 0x2C, 0x3C, 0x2D], #[.moveRight, .read, .moveLeft, .decrement],
      #[0, 1, 2, 3],
      #[none, none, none, none]⟩
    let t := trail ⟨p, c⟩ 5 (start ⟨p, c⟩) ⟨.ofBytes [0xFF], {}⟩
    let t' := trail ⟨p, c'⟩ 5 (start ⟨p, c'⟩) ⟨.ofBytes [0xFF], {}⟩
    let refused : Fault := .execution ⟨.arithmeticUnderflow 0, 3, 0⟩
    c.Enlarges c' ∧ t.faults = [none, none, none, some refused, some refused] ∧
      t'.faults = t.faults ∧
      t.state.tape.snapshot = #[0, 0xFF] ∧ t'.state.tape.snapshot = t.state.tape.snapshot := by
  intro c c' p t t' refused
  have hload : Program.load p.source = .ok p := by decide
  have henlarges : c.Enlarges c' :=
    ⟨rfl, rfl, rfl, .inr ⟨rfl, by decide⟩, .inr ⟨rfl, by decide, by decide⟩⟩
  have hfaults : t.faults = [none, none, none, some refused, some refused] := by decide +kernel
  have hspared : ∀ a ∈ t.attempts, ∀ f, a.outcome.fault = some f → ¬f.Hits c c' := by
    rintro a ha f hf ⟨e, rfl, hcause⟩
    have hmem : some (.execution e) ∈ [none, none, none, some refused, some refused] := by
      rw [← hfaults, ← hf]
      exact List.mem_map_of_mem ha
    obtain rfl : e = ⟨.arithmeticUnderflow 0, 3, 0⟩ := by simpa [refused] using hmem
    rcases hcause with ⟨⟨_, hn⟩, _⟩ | ⟨⟨_, hv⟩, _⟩
    · cases hn
    · cases hv
  have hsnapshot : t.state.tape.snapshot = #[0, 0xFF] := by decide +kernel
  obtain ⟨hfaults', _, _, _, hsnapshot'⟩ :=
    enlarged_agrees hload henlarges ⟨.ofBytes [0xFF], {}⟩ 5 hspared
  exact ⟨henlarges, hfaults, hfaults', hsnapshot, hsnapshot'⟩

end Machine

end TapeLang
