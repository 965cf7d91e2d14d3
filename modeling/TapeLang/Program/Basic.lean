import TapeLang.Instruction

/-!
# Programs

Model of `bfvm.loader`: `Program`, with `loop_count`, `max_depth` and how it shows.

* `Program.slot` — the place that an index names: an index below zero counts from the end.
* `Program.loopCount`, `Program.maxDepth` — how many loops there are, and how deep they nest.
-/

namespace TapeLang

/-- A source that is ready to run. The three tables have one entry for each instruction. -/
structure Program where
  source : List UInt8
  instructions : Array Instruction
  offsets : Array Nat
  /-- For each bracket the index of its partner, and nothing for any other instruction. -/
  jumps : Array (Option Nat)
  deriving DecidableEq, Repr

inductive IndexFault
  | outOfRange
  /-- The index does not fit into the 64-bit word that table indices are held in. -/
  | tooWide
  deriving DecidableEq, Repr

def IndexFault.message : IndexFault → String
  | .outOfRange => "tuple index out of range"
  | .tooWide => "cannot fit 'int' into an index-sized integer"

/-- Whether an integer fits into the signed 64-bit word that indices are held in. -/
def fitsIndex (i : Int) : Bool :=
  -0x8000000000000000 ≤ i && i < 0x8000000000000000

namespace Program

def size (p : Program) : Nat :=
  p.instructions.size

/-- The place that an index names. From zero on it counts from the front, below zero from the
end. -/
def slot (p : Program) (index : Int) : Except IndexFault (Fin p.instructions.size) :=
  let i := if index < 0 then index + p.instructions.size else index
  if h : 0 ≤ i ∧ i < p.instructions.size then .ok ⟨i.toNat, by omega⟩
  else .error (if fitsIndex index then .outOfRange else .tooWide)

def get (p : Program) (index : Int) : Except IndexFault Instruction :=
  match p.slot index with
  | .ok i => .ok p.instructions[i]
  | .error fault => .error fault

def partner (p : Program) (i : Nat) : Option Nat :=
  p.jumps[i]?.join

def loopCount (p : Program) : Nat :=
  p.instructions.count .loopOpen

/-- The greatest number of loops open at once, where `depth` are open in front. What closes more
than is open counts below zero. -/
def deepest (depth : Int) : List Instruction → Int
  | [] => depth
  | .loopOpen :: rest => deepest (depth + 1) rest
  | .loopClose :: rest => max depth (deepest (depth - 1) rest)
  | _ :: rest => deepest depth rest

def maxDepth (p : Program) : Nat :=
  (deepest 0 p.instructions.toList).toNat

/-- The instructions as they are written, without comments. -/
def text (p : Program) : String :=
  String.ofList (p.instructions.toList.map Instruction.symbol)

def label (p : Program) : String :=
  "<Program: " ++ toString p.size ++ " instructions, " ++ toString p.loopCount ++ " loops>"

end Program

end TapeLang
