import TapeLang.Proofs.Structured.Block

/-!
# A reference semantics of trees

Big-step evaluation of a block over a plain array of cells: no instruction pointer, no jump table,
no storage that grows. Cells and data pointer are bounded by their types, so no state of the
evaluator is out of range.

* `neighbour` — one up or down inside a range, as each overflow mode has it.
* `Store` — the array of cells, the data pointer and the counters; `Store.zero` is where every
  evaluation begins.
* `Store.act` — the table of the six actions.
* `Eval` — evaluation of a block; a loop is evaluated as *while the current cell is not zero, do the
  body*.
* `Eval.deterministic` — an evaluation has one outcome.
-/

namespace TapeLang.Structured

/-- **One up or down from `v` inside `[0, bound - 1]`**: `wrap` reduces modulo the bound, `saturate`
stays in the range, and `check` gives nothing at the edge. -/
def neighbour (mode : Overflow) (d : Direction) {bound : Nat} (v : Fin bound) :
    Option (Fin bound) :=
  match mode, d with
  | .wrap, .up => some ⟨(v + 1) % bound, Nat.mod_lt _ v.pos⟩
  | .wrap, .down => some ⟨(v + (bound - 1)) % bound, Nat.mod_lt _ v.pos⟩
  | .saturate, .up => some ⟨min (v + 1) (bound - 1), by omega⟩
  | .saturate, .down => some ⟨v - 1, by omega⟩
  | .check, .up => if h : v + 1 < bound then some ⟨v + 1, h⟩ else none
  | .check, .down => if 0 < v.val then some ⟨v - 1, by omega⟩ else none

/-- The state of the evaluator: all cells of the tape, the data pointer and the counters. -/
structure Store (c : Config) where
  cells : Vector (Fin c.cellModulus) c.tapeLength
  dp : Fin c.tapeLength
  steps : Nat := 0
  reachedEof : Bool := false
  bytesRead : Nat := 0
  bytesWritten : Nat := 0

/-- How an evaluation ends, with the state and the streams it leaves. -/
inductive Outcome (c : Config)
  | done (σ : Store c) (io : Streams)
  | failed (f : Fault) (σ : Store c) (io : Streams)

namespace Store

variable {c : Config}

/-- All cells zero, and the data pointer on the first. -/
def zero (c : Config) : Store c where
  cells := Vector.replicate c.tapeLength ⟨0, c.cellModulus_pos⟩
  dp := ⟨0, c.tapeLength_pos⟩

/-- The current cell. -/
def cell (σ : Store c) : Fin c.cellModulus :=
  σ.cells[σ.dp]

/-- The state with the current cell written. -/
def put (σ : Store c) (v : Fin c.cellModulus) : Store c :=
  { σ with cells := σ.cells.set σ.dp v }

/-- The state with one step more on its counter. -/
def tick (σ : Store c) : Store c :=
  { σ with steps := σ.steps + 1 }

/-- An execution error at instruction `i`. -/
def error (σ : Store c) (i : Nat) (cause : ExecutionError.Cause) : Fault :=
  .execution ⟨cause, i, σ.dp.val⟩

/-- A stream call that fails at instruction `i`: the system's errors are execution errors, all
others pass through. -/
def streamFault (σ : Store c) (i : Nat) (f : StreamFault) : Fault :=
  if f.isSystem then σ.error i (.io f) else .stream f

/-- A read without a byte, as the end-of-input mode has it. -/
def atEnd (σ : Store c) (i : Nat) (io : Streams) : Outcome c :=
  match c.eof with
  | .keep => .done { σ with reachedEof := true }.tick io
  | .zero => .done { σ.put ⟨0, c.cellModulus_pos⟩ with reachedEof := true }.tick io
  | .check => .failed (σ.error i .endOfInput) { σ with reachedEof := true } io

/-- **The effect of an action** that stands at instruction `i`. -/
def act (a : Action) (i : Nat) (σ : Store c) (io : Streams) : Outcome c :=
  match a with
  | .move d =>
    match neighbour c.pointerOverflow d σ.dp with
    | some dp => .done { σ with dp }.tick io
    | none => .failed (σ.error i (d.pointerCause c.tapeLength)) σ io
  | .adjust d =>
    match neighbour c.cellOverflow d σ.cell with
    | some v => .done (σ.put v).tick io
    | none => .failed (σ.error i (d.cellCause σ.cell.val)) σ io
  | .write =>
    match io.output.next with
    | none =>
      .done { σ with bytesWritten := σ.bytesWritten + 1 }.tick
        ⟨io.input, io.output.accept (UInt8.ofNat (σ.cell.val &&& 0xFF))⟩
    | some f => .failed (σ.streamFault i f) σ ⟨io.input, io.output.reject⟩
  | .read =>
    if σ.reachedEof then σ.atEnd i io
    else
      match io.input.next with
      | .chunk (b :: _) =>
        .done { σ.put ⟨b.toNat % c.cellModulus, Nat.mod_lt _ c.cellModulus_pos⟩ with
          bytesRead := σ.bytesRead + 1 }.tick ⟨io.input.advance, io.output⟩
      | .chunk [] => σ.atEnd i ⟨io.input.advance, io.output⟩
      | .nothing => σ.atEnd i ⟨io.input.advance, io.output⟩
      | .fault f => .failed (σ.streamFault i f) σ ⟨io.input.advance, io.output⟩

end Store

/-- **Big-step evaluation.** `Eval c i b σ io r`: the block `b`, whose first instruction has index
`i`, is evaluated from `σ` with outcome `r`. The test of a loop costs one step: it is the evaluation
of `[` when the loop is entered, and that of `]` behind each pass through the body. -/
inductive Eval (c : Config) : Nat → Block → Store c → Streams → Outcome c → Prop
  | done {i : Nat} {σ : Store c} {io : Streams} : Eval c i .done σ io (.done σ io)
  | act {i : Nat} {a : Action} {rest : Block} {σ σ' : Store c} {io io' : Streams} {r : Outcome c} :
      σ.act a i io = .done σ' io' → Eval c (i + 1) rest σ' io' r → Eval c i (.act a rest) σ io r
  | actFails {i : Nat} {a : Action} {rest : Block} {σ σ' : Store c} {io io' : Streams} {f : Fault} :
      σ.act a i io = .failed f σ' io' → Eval c i (.act a rest) σ io (.failed f σ' io')
  /-- The current cell is zero: the loop is left. -/
  | leave {i : Nat} {body rest : Block} {σ : Store c} {io : Streams} {r : Outcome c} :
      σ.cell.val = 0 → Eval c (i + body.size + 2) rest σ.tick io r →
        Eval c i (.loop body rest) σ io r
  /-- The current cell is not zero: the body is evaluated, and the loop once more. -/
  | pass {i : Nat} {body rest : Block} {σ σ' : Store c} {io io' : Streams} {r : Outcome c} :
      σ.cell.val ≠ 0 → Eval c (i + 1) body σ.tick io (.done σ' io') →
        Eval c i (.loop body rest) σ' io' r →
      Eval c i (.loop body rest) σ io r
  /-- The body fails, and the loop with it. -/
  | bodyFails {i : Nat} {body rest : Block} {σ σ' : Store c} {io io' : Streams} {f : Fault} :
      σ.cell.val ≠ 0 → Eval c (i + 1) body σ.tick io (.failed f σ' io') →
      Eval c i (.loop body rest) σ io (.failed f σ' io')

variable {c : Config}

/-- **An evaluation has one outcome.** -/
theorem Eval.deterministic {i : Nat} {b : Block} {σ : Store c} {io : Streams} {r r' : Outcome c}
    (h : Eval c i b σ io r) (h' : Eval c i b σ io r') : r = r' := by
  induction h generalizing r' with
  | done =>
      cases h'
      rfl
  | act ha _ ih =>
      cases h' with
      | act ha' hrest =>
          rw [ha] at ha'
          cases ha'
          exact ih hrest
      | actFails ha' =>
          rw [ha] at ha'
          cases ha'
  | actFails ha =>
      cases h' with
      | act ha' _ =>
          rw [ha] at ha'
          cases ha'
      | actFails ha' =>
          rw [ha] at ha'
          cases ha'
          rfl
  | leave hz _ ih =>
      cases h' with
      | leave _ hrest => exact ih hrest
      | pass hnz _ _ => exact absurd hz hnz
      | bodyFails hnz _ => exact absurd hz hnz
  | pass hnz _ _ ihb ihl =>
      cases h' with
      | leave hz _ => exact absurd hz hnz
      | pass _ hbody hloop =>
          cases ihb hbody
          exact ihl hloop
      | bodyFails _ hbody => cases ihb hbody
  | bodyFails hnz _ ihb =>
      cases h' with
      | leave hz _ => exact absurd hz hnz
      | pass _ hbody _ => cases ihb hbody
      | bodyFails _ hbody =>
          cases ihb hbody
          rfl

end TapeLang.Structured
