import TapeLang.Proofs.Machine.Safety
import TapeLang.Proofs.Overflow
import TapeLang.Proofs.Tape.Allocation

/-!
# Storage stays in proportion to the work done

* `State.Touches` — all that a step can do to the tape and the data pointer; `move_touches` to
  `branch_touches` go through the handlers, `step_touches` through all steps.
* `State.Near` — where the data pointer does not wrap around, it and all that is stored stay near
  the start; `Touches.near`.
* `State.Thrifty` — each cell of the map has cost a step, and `Near` where that applies;
  `Touches.thrifty`, `reachable_thrifty` — a step keeps it, so it holds in every reachable state.
* `reachable_storage` — what that leaves for the number of cells that are stored.
-/

namespace TapeLang

namespace State

variable {c : Config} {s s' : State}

/-- **What a step can do to the memory**: nothing, move the data pointer by one or write the current
cell; and each of the last two is counted. -/
inductive Touches (c : Config) (s s' : State) : Prop
  | kept : s'.tape = s.tape → s'.dp = s.dp → s.steps ≤ s'.steps → Touches c s s'
  | moved (d : Direction) : shift s.dp d.delta c.tapeLength c.pointerOverflow = .ok s'.dp →
    s'.tape = s.tape →
      s'.steps = s.steps + 1 → Touches c s s'
  | wrote (v : Int) : s'.tape = s.tape.put s.dp.toNat v → s'.dp = s.dp → s'.steps = s.steps + 1 →
    Touches c s s'

/-- **What a data pointer that does not wrap around leaves**: neither the pointer nor anything
stored is further out than there were steps to move and to write, beside what is stored from the
start and what doubling adds. -/
structure Near (c : Config) (s : State) : Prop where
  dp_le : s.dp ≤ s.steps
  size_dense_le : (s.tape.dense.size : Int) ≤ max (min (c.tapeLength : Int) initialCells)
    (2 * s.steps)
  far_lt : ∀ i ∈ s.tape.far, (i : Int) < s.steps

/-- **Storage that is paid for by steps.** -/
structure Thrifty (c : Config) (s : State) : Prop where
  size_far_le : (s.tape.far.size : Int) ≤ s.steps
  near : c.pointerOverflow ≠ .wrap → s.Near c

theorem near_start (m : Machine) : m.start.Near m.config := by
  refine ⟨Int.le_refl 0, ?_, ?_⟩
  · show ((Array.replicate (min m.config.tapeLength initialCells) 0).size : Int) ≤ _
    rw [Array.size_replicate]
    omega
  · intro i hi
    exact absurd hi Std.HashMap.not_mem_empty

theorem thrifty_start (m : Machine) : m.start.Thrifty m.config :=
  ⟨Int.le_refl 0, fun _ => near_start m⟩

namespace Touches

theorem near (ht : Touches c s s') (h : s.Fits c) (hmode : c.pointerOverflow ≠ .wrap)
    (hs : s.Near c) : s'.Near c := by
  obtain ⟨hdp, hsize, hfar⟩ := hs
  cases ht with
  | kept htape hdp' hsteps =>
      refine ⟨by omega, by rw [htape]; omega, fun i hi => ?_⟩
      have := hfar i (htape ▸ hi)
      omega
  | moved d hshift htape hsteps =>
      have hle := shift_le ⟨h.dp_nonneg, h.dp_lt⟩ hmode hshift
      have hdelta : d.delta ≤ 1 := by cases d <;> decide
      refine ⟨by omega, by rw [htape]; omega, fun i hi => ?_⟩
      have := hfar i (htape ▸ hi)
      omega
  | wrote v htape hdp' hsteps =>
      have hcell := h.dp_toNat
      have hput := Tape.size_put_le h.tape h.dp_toNat_lt v
      refine ⟨by omega, by rw [htape]; omega, fun i hi => ?_⟩
      rw [htape] at hi
      rcases Tape.eq_or_mem_of_mem_far_put h.tape h.dp_toNat_lt hi with rfl | hi
      · omega
      · have := hfar i hi
        omega

theorem thrifty (ht : Touches c s s') (h : s.Fits c) (hs : s.Thrifty c) : s'.Thrifty c := by
  refine ⟨?_, fun hmode => ht.near h hmode (hs.near hmode)⟩
  have hsize := hs.size_far_le
  cases ht with
  | kept htape hdp hsteps => rw [htape]; omega
  | moved d hshift htape hsteps => rw [htape]; omega
  | wrote v htape hdp hsteps =>
      have hput := Tape.size_far_put_le h.tape h.dp_toNat_lt v
      rw [htape]
      omega

end Touches

end State

namespace Machine

open State (Fits Touches)

variable {m : Machine} {s : State} {io : Streams}

/-! ## What the instructions touch -/

theorem touches_self (c : Config) (s : State) : Touches c s s :=
  .kept rfl rfl (Int.le_refl _)

theorem move_touches (d : Direction) : Touches m.config s (m.move d s io).state := by
  rw [move_eq]
  split
  · rename_i hshift
    exact .moved d hshift rfl rfl
  · exact touches_self _ s

theorem adjust_touches (h : s.Fits m.config) (d : Direction) :
    Touches m.config s (m.adjust d s io).state := by
  rw [adjust_eq h]
  split
  · exact .wrote _ rfl rfl rfl
  · exact touches_self _ s

theorem write_touches (h : s.Fits m.config) : Touches m.config s (write s io).state := by
  rw [write_eq h]
  split
  · exact touches_self _ s
  · exact .kept rfl rfl (Int.le_add_one (Int.le_refl _))

theorem readNothing_touches (h : s.Fits m.config) (io : Streams) :
    Touches m.config s (m.readNothing s io).state := by
  rw [readNothing_eq h]
  split
  · exact .kept rfl rfl (Int.le_add_one (Int.le_refl _))
  · exact .wrote _ rfl rfl rfl
  · exact .kept rfl rfl (Int.le_refl _)

theorem readByte_touches (h : s.Fits m.config) (b : UInt8) (io : Streams) :
    Touches m.config s (m.readByte b s io).state := by
  rw [readByte_eq h]
  exact .wrote _ rfl rfl rfl

theorem read_touches (h : s.Fits m.config) : Touches m.config s (m.read s io).state := by
  unfold read
  split
  · exact readNothing_touches h io
  · split
    · exact touches_self _ s
    · exact readByte_touches h _ _
    · exact readNothing_touches h _

theorem branch_touches (h : s.Fits m.config) (i : Nat) (onZero : Bool) :
    Touches m.config s (m.branch i onZero s io).state := by
  rw [branch_eq h]
  split
  · split
    · exact .kept rfl rfl (Int.le_add_one (Int.le_refl _))
    · exact touches_self _ s
  · exact .kept rfl rfl (Int.le_add_one (Int.le_refl _))

theorem perform_touches (h : s.Fits m.config) (i : Nat) (op : Instruction) :
    Touches m.config s (m.perform i op s io).state := by
  cases op with
  | moveRight => exact move_touches .up
  | moveLeft => exact move_touches .down
  | increment => exact adjust_touches h .up
  | decrement => exact adjust_touches h .down
  | write => exact write_touches h
  | read => exact read_touches h
  | loopOpen => exact branch_touches h i true
  | loopClose => exact branch_touches h i false

/-- **A step moves the data pointer by one, or writes the current cell, or leaves the memory
alone.** -/
theorem step_touches (h : s.Fits m.config) (io : Streams) :
    Touches m.config s (m.step s io).state := by
  unfold step
  split
  · exact touches_self _ s
  · split
    · exact touches_self _ s
    · exact perform_touches h _ _

/-! ## Reachable states -/

theorem reachable_thrifty (hp : m.program.Paired) {io₀ : Streams} (h : m.Reachable io₀ s io) :
    s.Thrifty m.config := by
  have hkeeps : ∀ s io, ((s.InRange m ∧ io₀.Later io) ∧ s.Thrifty m.config) →
      ((m.step s io).state.InRange m ∧ io₀.Later (m.step s io).streams) ∧
        (m.step s io).state.Thrifty m.config := by
    rintro s io ⟨hs, hthrifty⟩
    exact ⟨step_keeps hp io₀ s io hs, (step_touches hs.1.toFits io).thrifty hs.1.toFits hthrifty⟩
  exact (h.preserves hkeeps ⟨⟨inRange_start m, .refl io₀⟩, State.thrifty_start m⟩).2

/-- **Storage stays in proportion to the work done**, whatever the length of the tape. In every
state that calls on a fresh interpreter lead to: if the data pointer does not wrap around, it is at
most at the number of steps, and no more cells are stored than those a fresh tape stores, or twice
the number of steps. If it does, each step beyond what fits into the array stores at most one
cell. -/
theorem reachable_storage {source : List UInt8} {p : Program}
    (hload : Program.load source = .ok p) (config : Config) {io₀ io : Streams} {s : State}
    (h : Reachable ⟨p, config⟩ io₀ s io) :
    (config.pointerOverflow = .check ∨ config.pointerOverflow = .saturate →
      s.dp ≤ s.steps ∧ (s.tape.allocated : Int) ≤ max (min (config.tapeLength : Int) 32768)
        (2 * s.steps)) ∧
      (config.pointerOverflow = .wrap →
        (s.tape.allocated : Int) ≤ min (config.tapeLength : Int) 4194304 + s.steps) := by
  have hp := Program.paired_of_load hload
  have hfits : s.Fits config := (reachable_inRange hp h).1.toFits
  have hthrifty : s.Thrifty config := reachable_thrifty hp h
  have hlength := hfits.tape.dense_le_length
  have hlimit := hfits.tape.dense_le_limit
  have hinitialCells : initialCells = 32768 := rfl
  have hdenseLimit : denseLimit = 4194304 := rfl
  rw [hfits.length_eq] at hlength
  rw [Tape.allocated, Nat.cast_add]
  refine ⟨fun hmode => ?_, fun _ => ?_⟩
  · have hnowrap : config.pointerOverflow ≠ .wrap := by rcases hmode with
      hmode | hmode <;> rw [hmode] <;> decide
    obtain ⟨hdp, hdense, hfar⟩ := hthrifty.near hnowrap
    -- A map with anything in it means that there were more steps than fit into the array.
    have hmap : s.tape.far.size ≤ s.steps.toNat - denseLimit := by
      refine Tape.size_far_le fun i hi => ⟨(hfits.tape.far_range i hi).1, ?_⟩
      have := hfar i hi
      omega
    exact ⟨hdp, by omega⟩
  · have hmap := hthrifty.size_far_le
    omega

/-- What `<+` comes to on a tape that is longer than the array may grow, when the data pointer wraps
around: the increment stores one cell more, in the map. -/
theorem exists_around {m : Machine} (hcode : m.program.instructions = #[.moveLeft, .increment])
    (hlength : m.config.tapeLength = 5000000) (hpointer : m.config.pointerOverflow = .wrap)
    (hcell : m.config.cellOverflow = .wrap) (hwidth : m.config.cellWidth = 8) :
    ∃ s, m.Reachable {} s {} ∧ s.steps = 2 ∧ s.dp = 4999999 ∧ s.tape.allocated = 32769 := by
  let s₁ : State := { m.start with dp := 4999999 }.next
  let s₂ : State := { s₁ with tape := s₁.tape.store (.far 4999999) 1 }.next
  have hmove : m.step m.start {} = .done s₁ {} := by
    have hshift : shift 0 (-1) (5000000 : Nat) .wrap = .ok 4999999 := by decide
    have hzero : m.start.dp = 0 := rfl
    refine (step_eq_perform (i := 0) rfl (by rw [hcode]; rfl) {}).trans ?_
    simp only [perform, move, hzero, hlength, hpointer, Direction.delta, hshift]
    rfl
  have hplace : s₁.tape.locate .get s₁.dp = .ok (.far 4999999) := by
    simp [s₁, Tape.locate, start, State.next, State.goTo, Tape.new, initialCells, denseLimit,
      hlength]
  have hload : s₁.tape.load (.far 4999999) = 0 := by
    simp [s₁, Tape.load, start, State.next, State.goTo, Tape.new]
  have hadjust : m.step s₁ {} = .done s₂ {} := by
    refine (step_eq_perform (i := 1) rfl (by rw [hcode]; rfl) {}).trans ?_
    simp only [perform, adjust, hplace, hload, hcell, Config.cellModulus, hwidth, Direction.delta]
    rfl
  have hreach : m.Reachable {} s₁ {} :=
    .call .start (show m.call 0 .step m.start {} = some ⟨.ok (.stepped _), s₁, {}⟩ by
      rw [call, hmove]; rfl)
  refine ⟨s₂, .call hreach (show m.call 0 .step s₁ {} = some ⟨.ok (.stepped _), s₂, {}⟩ by
    rw [call, hadjust]; rfl), rfl, rfl, ?_⟩
  have hfar : ((∅ : Std.HashMap Nat Int).insert 4999999 1).size = 1 := by
    simp [Std.HashMap.size_insert]
  simp [s₂, s₁, Tape.allocated, Tape.store, start, State.next, State.goTo, Tape.new, initialCells,
    hlength, hfar]

/-- A move to the right under a check leaves the storage of a fresh tape. A move to the left around
a tape that is longer than the array may grow, and an increment there, store one cell more. -/
theorem reachable_storage_around :
    let right : Machine := ⟨⟨[0x3E], #[.moveRight], #[0], #[none]⟩, {}⟩
    let around : Machine := ⟨⟨[0x3C, 0x2B], #[.moveLeft, .increment], #[0, 1], #[none, none]⟩,
      { pointerOverflow := .wrap, tapeLength := 5000000 }⟩
    let s := (right.step right.start {}).state
    (Program.load [0x3E] = .ok right.program ∧ right.Reachable {} s {} ∧ s.dp ≤ 1 ∧
      (s.tape.allocated : Int) ≤ 32768) ∧
      Program.load [0x3C, 0x2B] = .ok around.program ∧ ∃ s', around.Reachable {} s' {} ∧
        s'.dp = 4999999 ∧ s'.tape.allocated = 32769 ∧ (s'.tape.allocated : Int) ≤ 4194304 + 2 := by
  intro right around s
  have hload : Program.load [0x3E] = .ok right.program := by decide
  have hreach : right.Reachable {} s {} :=
    .call .start (show right.call 0 .step right.start {} = some _ from rfl)
  obtain ⟨hdp, hstored⟩ := (reachable_storage hload right.config hreach).1 (.inl rfl)
  have hload' : Program.load [0x3C, 0x2B] = .ok around.program := by decide
  obtain ⟨s', hreach', hsteps, hdp', hallocated⟩ :=
    exists_around (m := around) rfl rfl rfl rfl rfl
  have hstored' := (reachable_storage hload' around.config hreach').2 rfl
  rw [hsteps] at hstored'
  exact ⟨⟨hload, hreach, hdp, hstored.trans (by decide)⟩, hload', s', hreach', hdp', hallocated,
    hstored'⟩

end Machine

end TapeLang
