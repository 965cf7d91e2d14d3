import TapeLang.Proofs.Machine.Safety

/-!
# A step that fails changes nothing

* `Step.Atomic` — what holds of every step of an unfinished program, also in a state that was set by
  hand: it completes and counts once, or it leaves the state as it was and the output without a
  byte. Only the end of the input is remembered.
* `move_atomic` to `branch_atomic` prove it handler by handler, `step_atomic` of every step.
* `reachable_step_atomic` — in reachable states nothing but a refused read at the end of the input
  is remembered.
-/

namespace TapeLang

/-- Whether the fault is a read behind the end of the input. -/
def Fault.isEndOfInput (f : Fault) : Bool :=
  match f with
  | .execution e => e.cause = .endOfInput
  | _ => false

/-- Whether the fault is a step limit that was reached. -/
def Fault.isStepLimit (f : Fault) : Bool :=
  match f with
  | .execution e =>
    match e.cause with
    | .stepLimit _ => true
    | _ => false
  | _ => false

/-- **A step completes, or it leaves everything as it was**, but for the end of the input that it
may have found. Beside the tape that end is also remembered when the cell to be cleared is not
there. -/
structure Step.Atomic (s : State) (io : Streams) (r : Step) : Prop where
  counted : r.fault = none → r.state.steps = s.steps + 1
  kept : ∀ f, r.fault = some f → r.state = { s with reachedEof := r.state.reachedEof }
  reachedEof : ∀ f, r.fault = some f →
    (∃ g, f = .tape g) ∨ r.state.reachedEof = (s.reachedEof || f.isEndOfInput)
  unlimited : ∀ f, r.fault = some f → f.isStepLimit = false
  bytes : ∀ f, r.fault = some f → r.streams.output.bytes = io.output.bytes

section

variable {s s' : State} {io io' : Streams}

theorem Step.atomic_done (h : s'.steps = s.steps + 1) : (Step.done s' io').Atomic s io :=
  ⟨fun _ => h, nofun, nofun, nofun, nofun⟩

theorem Step.atomic_next (h : s'.steps = s.steps) : (Step.done s'.next io').Atomic s io :=
  atomic_done (congrArg (· + 1) h)

theorem Step.atomic_fail {f : Fault} (he : f.isEndOfInput = false) (hl : f.isStepLimit = false)
    (hb : io'.output.bytes = io.output.bytes) : (Step.fail f s io').Atomic s io := by
  refine ⟨nofun, fun _ _ => rfl, ?_, ?_, fun _ _ => hb⟩
  · rintro g ⟨⟩
    exact .inr (by simp [Step.fail, he])
  · rintro g ⟨⟩
    exact hl

end

namespace Machine

open State (InRange)

variable {m : Machine} {s : State} {io io₀ : Streams}

theorem stream_isEndOfInput (s : State) (g : StreamFault) :
    (if g.isSystem then error s (.io g) else Fault.stream g).isEndOfInput = false := by
  split <;> rfl

theorem stream_isStepLimit (s : State) (g : StreamFault) :
    (if g.isSystem then error s (.io g) else Fault.stream g).isStepLimit = false := by
  split <;> rfl

/-! ## The handlers -/

theorem move_atomic (d : Direction) : (m.move d s io).Atomic s io := by
  unfold move
  split
  · exact Step.atomic_next rfl
  · cases d <;> exact Step.atomic_fail rfl rfl rfl
  · exact Step.atomic_fail rfl rfl rfl

theorem adjust_atomic (d : Direction) : (m.adjust d s io).Atomic s io := by
  unfold adjust
  split
  · exact Step.atomic_fail rfl rfl rfl
  · split
    · exact Step.atomic_next rfl
    · cases d <;> exact Step.atomic_fail rfl rfl rfl
    · exact Step.atomic_fail rfl rfl rfl

theorem write_atomic : (write s io).Atomic s io := by
  unfold write
  split
  · exact Step.atomic_fail rfl rfl rfl
  · split
    · exact Step.atomic_fail (stream_isEndOfInput s _) (stream_isStepLimit s _) rfl
    · exact Step.atomic_next rfl

/-- The one handler that writes to the state in front of a failure. -/
theorem readNothing_atomic (io' : Streams) (h : io'.output.bytes = io.output.bytes) :
    (m.readNothing s io').Atomic s io := by
  unfold readNothing
  dsimp only
  split
  · exact Step.atomic_next rfl
  · split
    · refine ⟨nofun, fun _ _ => rfl, ?_, ?_, fun _ _ => h⟩
      · rintro f ⟨⟩
        exact .inl ⟨_, rfl⟩
      · rintro f ⟨⟩
        rfl
    · exact Step.atomic_next rfl
  · refine ⟨nofun, fun _ _ => rfl, ?_, ?_, fun _ _ => h⟩
    · rintro f ⟨⟩
      exact .inr (by simp [Step.fail, error, Fault.isEndOfInput])
    · rintro f ⟨⟩
      rfl

theorem readByte_atomic (b : UInt8) (io' : Streams) (h : io'.output.bytes = io.output.bytes) :
    (m.readByte b s io').Atomic s io := by
  unfold readByte
  split
  · exact Step.atomic_fail rfl rfl h
  · exact Step.atomic_next rfl

theorem read_atomic : (m.read s io).Atomic s io := by
  unfold read
  split
  · exact readNothing_atomic io rfl
  · split
    · exact Step.atomic_fail (stream_isEndOfInput s _) (stream_isStepLimit s _) rfl
    · exact readByte_atomic _ _ rfl
    · exact readNothing_atomic _ rfl

theorem branch_atomic (i : Nat) (onZero : Bool) : (m.branch i onZero s io).Atomic s io := by
  unfold branch
  split
  · exact Step.atomic_fail rfl rfl rfl
  · split
    · split
      · exact Step.atomic_done rfl
      · exact Step.atomic_fail rfl rfl rfl
    · exact Step.atomic_next rfl

/-! ## Every step -/

theorem perform_atomic (i : Nat) (op : Instruction) : (m.perform i op s io).Atomic s io := by
  cases op with
  | moveRight => exact move_atomic .up
  | moveLeft => exact move_atomic .down
  | increment => exact adjust_atomic .up
  | decrement => exact adjust_atomic .down
  | write => exact write_atomic
  | read => exact read_atomic
  | loopOpen => exact branch_atomic i true
  | loopClose => exact branch_atomic i false

/-- **Every step of an unfinished program is atomic**, in whatever state it is made. -/
theorem step_atomic (hf : m.finished s = false) (io : Streams) : (m.step s io).Atomic s io := by
  rw [step, hf, if_neg (by decide)]
  split
  · exact Step.atomic_fail rfl rfl rfl
  · exact perform_atomic _ _

theorem finished_eq_false_of_fault {f : Fault} (h : (m.step s io).fault = some f) :
    m.finished s = false := by
  by_contra hf
  rw [step, if_pos (by simpa using hf)] at h
  cases h

/-- **A step that fails in a reachable state changes nothing**, whatever the streams do at that
moment: the state behind it is the state before it, with the pointers, the counters and the tape, so
with every cell, the storage and the snapshot; only a read that is refused at the end of the input
is remembered. And the output has not grown. -/
theorem reachable_step_atomic {source : List UInt8} {p : Program}
    (hload : Program.load source = .ok p) (config : Config) {io₀ io : Streams} {s : State}
    (h : Reachable ⟨p, config⟩ io₀ s io) (io' : Streams) {f : Fault}
    (hf : (Machine.step ⟨p, config⟩ s io').fault = some f) :
    (Machine.step ⟨p, config⟩ s io').state =
        (if f.isEndOfInput then { s with reachedEof := true } else s) ∧
      (Machine.step ⟨p, config⟩ s io').streams.output.bytes = io'.output.bytes := by
  have hp := Program.paired_of_load hload
  have hs := (reachable_inRange (m := ⟨p, config⟩) hp h).1
  have hatomic := step_atomic (finished_eq_false_of_fault hf) io'
  have hdeclared : f.Declared io' := (step_safe hp hs (.refl io')).fault f hf
  refine ⟨?_, hatomic.bytes f hf⟩
  rcases hatomic.reachedEof f hf with ⟨g, rfl⟩ | heof
  · -- A fault of the tape needs a data pointer beside it, which no reachable state has.
    rcases hdeclared with ⟨e, he⟩ | ⟨g', hg', _⟩
    · cases he
    · cases hg'
  · rw [hatomic.kept f hf, heof]
    cases f.isEndOfInput <;> simp

/-- A read behind the end of the input, one step after the start: the cell that was counted up stays
as it is. -/
theorem reachable_step_atomic_refused_read :
    let m : Machine :=
      ⟨⟨[0x2B, 0x2C], #[.increment, .read], #[0, 1], #[none, none]⟩,
        { eof := .check, tapeLength := 2 }⟩
    let s := (m.step m.start {}).state
    Program.load [0x2B, 0x2C] = .ok m.program ∧ m.Reachable {} s {} ∧
      (m.step s {}).fault = some (error s .endOfInput) ∧
      (m.step s {}).state = { s with reachedEof := true } ∧ s.reachedEof = false ∧
        s.tape.get 0 = .ok 1 ∧
      (m.step s {}).streams.output.bytes = #[] := by
  intro m s
  have hload : Program.load [0x2B, 0x2C] = .ok m.program := by decide
  have hreach : m.Reachable {} s {} :=
    .call .start (show m.call 0 .step m.start {} = some _ from rfl)
  have hf : (m.step s {}).fault = some (error s .endOfInput) := rfl
  have hstep := reachable_step_atomic hload m.config hreach {} hf
  exact ⟨hload, hreach, hf, hstep.1, rfl, rfl, hstep.2⟩

end Machine

end TapeLang
