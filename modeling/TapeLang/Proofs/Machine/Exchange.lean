import Mathlib.Tactic.Choose
import TapeLang.Machine.Stepping

/-!
# What a step says to the streams

A step makes one call on a stream at most, which call that is depends on the state alone, and
nothing of the streams but the answer to it counts.

* `Exchange` — the call: none, one read, or one write of a byte; `Machine.exchange` — the call of
  the next step.
* `Exchange.response`, `Exchange.streams` — the answer to it, and the streams behind it.
* `Exchange.Governs` — a step that makes just this call: a fault that the stream raises ends it with
  the state as it was, any other answer settles the fault, which no stream raised, and the state
  behind it.
* `step_governed` — the call of the next step governs it.
-/

namespace TapeLang

/-- What a step asks of the streams. -/
inductive Exchange
  | silent
  | read
  | write (b : UInt8)
  deriving DecidableEq, Repr

namespace Exchange

variable {io : Streams}

/-- What the streams answer: a fault, or the byte that a read delivers. -/
def response (e : Exchange) (io : Streams) : Except StreamFault (Option UInt8) :=
  match e with
  | .silent => .ok none
  | .read =>
    match io.input.next with
    | .fault g => .error g
    | r => .ok r.byte?
  | .write _ =>
    match io.output.next with
    | some g => .error g
    | none => .ok none

/-- The streams behind the exchange. -/
def streams (e : Exchange) (io : Streams) : Streams :=
  match e with
  | .silent => io
  | .read => ⟨io.input.advance, io.output⟩
  | .write b =>
    match io.output.next with
    | some _ => ⟨io.input, io.output.reject⟩
    | none => ⟨io.input, io.output.accept b⟩

end Exchange

namespace Machine

variable {m : Machine} {s : State}

/-- The exchange that the next step makes. -/
def exchange (m : Machine) (s : State) : Exchange :=
  if m.finished s then .silent
  else
    match m.program.get s.ip with
    | .ok .read => if s.reachedEof then .silent else .read
    | .ok .write =>
      match s.cell with
      | .ok v => .write (outputByte v)
      | .error _ => .silent
    | _ => .silent

/-- What the step is kept by when a stream raises `g`. -/
def streamFault (s : State) (g : StreamFault) : Fault :=
  if g.isSystem then error s (.io g) else .stream g

theorem streamFault_ofStream (s : State) (g : StreamFault) : (streamFault s g).ofStream = true := by
  unfold streamFault
  split <;> rfl

end Machine

/-- **The exchange `e` governs a step from state `s`**: a fault of the stream keeps it from
completing, any other answer settles all of it. -/
def Exchange.Governs (e : Exchange) (s : State) (step : Streams → Step) : Prop :=
  ∃ (fault : Option UInt8 → Option Fault) (state : Option UInt8 → State),
    (∀ b f, fault b = some f → f.ofStream = false) ∧
    ∀ io, step io =
      match e.response io with
      | .error g => .fail (Machine.streamFault s g) s (e.streams io)
      | .ok b => ⟨fault b, state b, e.streams io⟩

namespace Exchange.Governs

variable {s s' : State}

theorem done : Exchange.silent.Governs s (Step.done s') :=
  ⟨fun _ => none, fun _ => s', nofun, fun _ => rfl⟩

theorem fail {f : Fault} (h : f.ofStream = false) : Exchange.silent.Governs s (Step.fail f s') := by
  refine ⟨fun _ => some f, fun _ => s', ?_, fun _ => rfl⟩
  rintro _ g ⟨⟩
  exact h

end Exchange.Governs

namespace Machine

variable {m : Machine} {s : State}

theorem move_governed (d : Direction) : Exchange.silent.Governs s (m.move d s) := by
  unfold move
  split
  · exact .done
  · cases d <;> exact .fail rfl
  · exact .fail rfl

theorem adjust_governed (d : Direction) : Exchange.silent.Governs s (m.adjust d s) := by
  unfold adjust
  split
  · exact .fail rfl
  · split
    · exact .done
    · cases d <;> exact .fail rfl
    · exact .fail rfl

theorem branch_governed (i : Nat) (onZero : Bool) :
    Exchange.silent.Governs s (m.branch i onZero s) := by
  unfold branch
  split
  · exact .fail rfl
  · split
    · split
      · exact .done
      · exact .fail rfl
    · exact .done

theorem write_governed {v : Int} (h : s.cell = .ok v) :
    (Exchange.write (outputByte v)).Governs s (write s) := by
  refine ⟨fun _ => none, fun _ => { s with bytesWritten := s.bytesWritten + 1 }.next, nofun, ?_⟩
  intro io
  cases hnext : io.output.next <;> simp [write, h, hnext, Exchange.response, Exchange.streams,
    streamFault, Step.done]

theorem write_governed_of_error {f : TapeFault} (h : s.cell = .error f) :
    Exchange.silent.Governs s (write s) := by
  unfold write
  rw [h]
  exact .fail rfl

theorem readNothing_governed : Exchange.silent.Governs s (m.readNothing s) := by
  unfold readNothing
  dsimp only
  split
  · exact .done
  · split
    · exact .fail rfl
    · exact .done
  · exact .fail rfl

theorem readByte_governed (b : UInt8) : Exchange.silent.Governs s (m.readByte b s) := by
  unfold readByte
  split
  · exact .fail rfl
  · exact .done

theorem read_governed (h : s.reachedEof = false) : Exchange.read.Governs s (m.read s) := by
  -- Behind the call a read is silent, with one effect for each byte and one for none at all.
  obtain ⟨fault₀, state₀, hown₀, hnothing⟩ := readNothing_governed (m := m) (s := s)
  choose fault state hown hbyte using fun b => readByte_governed (m := m) (s := s) b
  refine ⟨fun b? => b?.elim (fault₀ none) (fault · none),
    fun b? => b?.elim (state₀ none) (state · none), ?_, ?_⟩
  · rintro (_ | b) f hf
    · exact hown₀ none f hf
    · exact hown b none f hf
  · intro io
    rw [read, h, if_neg (by decide), Exchange.response]
    rcases io.input.next with ⟨_ | ⟨b, _⟩⟩ | _ | g
    · exact hnothing _
    · exact hbyte b _
    · exact hnothing _
    · rfl

/-- **What the next step asks of the streams governs it.** -/
theorem step_governed (m : Machine) (s : State) : (m.exchange s).Governs s (m.step s) := by
  unfold step exchange
  split
  · exact .done
  · unfold Program.get
    cases m.program.slot s.ip with
    | error f => exact .fail rfl
    | ok i =>
        dsimp only
        cases m.program.instructions[i] with
        | moveRight => exact move_governed .up
        | moveLeft => exact move_governed .down
        | increment => exact adjust_governed .up
        | decrement => exact adjust_governed .down
        | write =>
            dsimp only
            split
            · exact write_governed ‹_›
            · exact write_governed_of_error ‹_›
        | read =>
            dsimp only
            split
            · rename_i heof
              have hread : m.read s = m.readNothing s := by
                funext io
                rw [read, if_pos heof]
              show Exchange.silent.Governs s (m.read s)
              rw [hread]
              exact readNothing_governed
            · rename_i heof
              exact read_governed (by simpa using heof)
        | loopOpen => exact branch_governed i true
        | loopClose => exact branch_governed i false

end Machine

end TapeLang
