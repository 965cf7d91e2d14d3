import TapeLang.Overflow
import TapeLang.Text.Quoted

/-!
# Policies and geometry

Model of `bfvm.policy`: `EofMode` and `PolicyConfig`.

* `Config` — the three policies of an execution with the size of its tape and cells.
* `Config.sized`, `Config.ofNames` — a configuration, if sizes and names are possible. Sizes are
  checked before names.
-/

namespace TapeLang

/-- What a read does when the input has ended. -/
inductive EofMode
  /-- The cell keeps its value. -/
  | keep
  /-- The cell becomes zero. -/
  | zero
  /-- The read is refused. -/
  | check
  deriving DecidableEq, Repr

namespace EofMode

def all : List EofMode := [.keep, .zero, .check]

def name : EofMode → String
  | .keep => "noop"
  | .zero => "set0"
  | .check => "check"

def ofName? (s : String) : Option EofMode :=
  all.find? (·.name = s)

end EofMode

inductive ConfigError
  | tapeLength (length : Int)
  | cellWidth (width : Int)
  | overflowName (name : String)
  | eofName (name : String)
  | noOverflow
  | noEof
  deriving DecidableEq, Repr

def ConfigError.message : ConfigError → String
  | .tapeLength n => "tape_length must be at least 1, got " ++ toString n
  | .cellWidth n => "cell_width must be at least 1, got " ++ toString n
  | .overflowName s => Text.quoted s ++ " is not a valid Overflow"
  | .eofName s => Text.quoted s ++ " is not a valid EofMode"
  | .noOverflow => "[] is not a valid Overflow"
  | .noEof => "[] is not a valid EofMode"

structure Config where
  /-- When a cell would leave `[0, 2 ^ cellWidth - 1]`. -/
  cellOverflow : Overflow := .wrap
  /-- When the data pointer would leave `[0, tapeLength - 1]`. -/
  pointerOverflow : Overflow := .check
  eof : EofMode := .keep
  tapeLength : Nat := 1000000
  cellWidth : Nat := 8
  tapeLength_pos : 0 < tapeLength := by decide
  cellWidth_pos : 0 < cellWidth := by decide
  deriving DecidableEq, Repr

namespace Config

def cellModulus (c : Config) : Nat :=
  1 <<< c.cellWidth

def cellMax (c : Config) : Nat :=
  (1 <<< c.cellWidth) - 1

/-- The default policies on a tape of `tapeLength` cells of `cellWidth` bits. -/
def sized (tapeLength cellWidth : Int) : Except ConfigError Config :=
  if hl : 1 ≤ tapeLength then
    if hw : 1 ≤ cellWidth then
      .ok {
        tapeLength := tapeLength.toNat
        cellWidth := cellWidth.toNat
        tapeLength_pos := by omega
        cellWidth_pos := by omega }
    else .error (.cellWidth cellWidth)
  else .error (.tapeLength tapeLength)

def overflow (name : String) : Except ConfigError Overflow :=
  match Overflow.ofName? name with
  | some mode => .ok mode
  | none => .error (.overflowName name)

def eofMode (name : String) : Except ConfigError EofMode :=
  match EofMode.ofName? name with
  | some mode => .ok mode
  | none => .error (.eofName name)

def ofNames (cellOverflow pointerOverflow eof : String) (tapeLength cellWidth : Int) :
    Except ConfigError Config := do
  let c ← sized tapeLength cellWidth
  let cell ← overflow cellOverflow
  let pointer ← overflow pointerOverflow
  let eof ← eofMode eof
  return { c with cellOverflow := cell, pointerOverflow := pointer, eof }

def describe (c : Config) : String :=
  "cell=" ++ c.cellOverflow.name ++ " (" ++ toString c.cellWidth ++ "-bit) ptr=" ++
    c.pointerOverflow.name
    ++ " (tape " ++ toString c.tapeLength ++ ") eof=" ++ c.eof.name

theorem one_lt_cellModulus (c : Config) : 1 < c.cellModulus := by
  rw [cellModulus, Nat.one_shiftLeft]
  exact Nat.one_lt_two_pow (Nat.ne_of_gt c.cellWidth_pos)

theorem cellModulus_pos (c : Config) : 0 < c.cellModulus :=
  Nat.lt_trans Nat.zero_lt_one c.one_lt_cellModulus

end Config

end TapeLang
