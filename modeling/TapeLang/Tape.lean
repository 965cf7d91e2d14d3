import Std.Data.HashMap

/-!
# The tape

Model of `bfvm.tape`: `Tape`. The first cells are kept in an array that doubles when a cell behind
its end is written, the cells from `denseLimit` on in a map. A cell without storage reads as zero.
An index below zero counts from the end of the array.

* `Tape.locate`, `Tape.load`, `Tape.store` — the place an index names, and the cell there.
* `Tape.get`, `Tape.set`, `Tape.snapshot` — what is asked of a tape.
-/

namespace TapeLang

/-- How many cells a fresh tape stores, if it has as many. -/
def initialCells : Nat := 32768

/-- The first cell that is kept in the map. -/
def denseLimit : Nat := 4194304

structure Tape where
  length : Nat
  /-- The size of a cell in bits. It is reported and bounds nothing here. -/
  cellWidth : Int
  dense : Array Int
  /-- The cells written from `denseLimit` on. -/
  far : Std.HashMap Nat Int := {}

inductive Access
  | get | set
  deriving DecidableEq, Repr

inductive TapeFault
  | beyondEnd (index : Int) (length : Nat)
  /-- The index counts back beyond the first cell. -/
  | beforeStart (access : Access)
  /-- The index does not fit into the 64-bit word that array indices are held in. -/
  | tooWide
  deriving DecidableEq, Repr

def TapeFault.message : TapeFault → String
  | .beyondEnd index length => "cell " ++ toString index ++ " outside tape of length " ++
      toString length
  | .beforeStart .get => "list index out of range"
  | .beforeStart .set => "list assignment index out of range"
  | .tooWide => "cannot fit 'int' into an index-sized integer"

inductive LengthFault
  | tooShort (length : Int)
  /-- The length does not fit into the 64-bit word that lengths are reported in. -/
  | tooWide
  deriving DecidableEq, Repr

def LengthFault.message : LengthFault → String
  | .tooShort length => "tape length must be at least 1, got " ++ toString length
  | .tooWide => "cannot fit 'int' into an index-sized integer"

namespace Tape

inductive Place
  | dense (i : Nat)
  /-- Behind the end of the array, which has to grow before the cell can be written. -/
  | unstored (i : Nat)
  | far (i : Nat)
  deriving DecidableEq, Repr

def new (length : Nat) (cellWidth : Int) : Tape :=
  { length, cellWidth, dense := Array.replicate (min length initialCells) 0 }

def ofLength (length cellWidth : Int) : Except LengthFault Tape :=
  if length < 1 then .error (.tooShort length) else .ok (new length.toNat cellWidth)

def reportedLength (t : Tape) : Except LengthFault Nat :=
  if t.length < 0x8000000000000000 then .ok t.length else .error .tooWide

/-- The place that an index names. -/
def locate (t : Tape) (access : Access) (index : Int) : Except TapeFault Place :=
  if index < t.dense.size then
    if 0 ≤ index then .ok (.dense index.toNat)
    else if index < -0x8000000000000000 then .error .tooWide
    else if 0 ≤ index + t.dense.size then .ok (.dense (index + t.dense.size).toNat)
    else .error (.beforeStart access)
  else if t.length ≤ index then .error (.beyondEnd index t.length)
  else if index < denseLimit then .ok (.unstored index.toNat)
  else .ok (.far index.toNat)

def load (t : Tape) : Place → Int
  | .dense i => t.dense.getD i 0
  | .unstored _ => 0
  | .far i => t.far.getD i 0

/-- `size`, doubled until it is more than `i`. There is nothing to double in a size of zero. -/
def doubledPast (size i : Nat) : Nat :=
  if 0 < size ∧ size ≤ i then doubledPast (size * 2) i else size
termination_by i + 1 - size

/-- Lengthens the array so that it holds cell `i`, by doubling and never beyond the tape or
`denseLimit`. -/
def grow (t : Tape) (i : Nat) : Tape :=
  let size := min (doubledPast t.dense.size i) (min t.length denseLimit)
  { t with dense := t.dense ++ Array.replicate (size - t.dense.size) 0 }

def store (t : Tape) (place : Place) (value : Int) : Tape :=
  match place with
  | .dense i => { t with dense := t.dense.setIfInBounds i value }
  | .unstored i =>
    let t := t.grow i
    { t with dense := t.dense.setIfInBounds i value }
  | .far i => { t with far := t.far.insert i value }

def get (t : Tape) (index : Int) : Except TapeFault Int :=
  match t.locate .get index with
  | .ok place => .ok (t.load place)
  | .error fault => .error fault

def set (t : Tape) (index value : Int) : Except TapeFault Tape :=
  match t.locate .set index with
  | .ok place => .ok (t.store place value)
  | .error fault => .error fault

def allocated (t : Tape) : Nat :=
  t.dense.size + t.far.size

/-- The value of cell `i`, counted from the first. -/
def cell (t : Tape) (i : Nat) : Int :=
  if h : i < t.dense.size then t.dense[i] else t.far.getD i 0

/-- How many of the first `n` cells remain without the zeros they end with. -/
def trimmedSize (cells : Array Int) : Nat → Nat
  | 0 => 0
  | n + 1 => if cells.getD n 0 = 0 then trimmedSize cells n else n + 1

/-- One more than the largest index in the map whose cell is not zero; zero if there is none. -/
def farExtent (t : Tape) : Nat :=
  t.far.fold (fun n i v => if v = 0 then n else max n (i + 1)) 0

/-- The array with the cells of the map that are not zero, filled up to `size` cells. -/
def flattened (t : Tape) (size : Nat) : Array Int :=
  t.far.fold (fun cells i v => if v = 0 then cells else cells.setIfInBounds i v)
    (t.dense ++ Array.replicate (size - t.dense.size) 0)

/-- The cells up to the last that is not zero. If that is in the map, all of the array stands before
it; otherwise the zeros that the array ends with are left out. -/
def snapshot (t : Tape) : Array Int :=
  let extent := t.farExtent
  if 0 < extent then t.flattened extent else t.dense.take (trimmedSize t.dense t.dense.size)

def label (t : Tape) : String :=
  "<Tape: " ++ toString t.length ++ " x " ++ toString t.cellWidth ++ "-bit, " ++
    toString t.allocated ++ " allocated>"

end Tape

end TapeLang
