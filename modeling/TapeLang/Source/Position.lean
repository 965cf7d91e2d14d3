/-!
# Places in a source text

Model of `bfvm.errors`: `_line_col`. Lines and columns count from 1, and a column counts bytes.

* `position` — the place of a byte offset, by counting newlines.
* `position_eq_foldl` — it is also reached by walking over the bytes before it.
-/

namespace TapeLang.Source

def newline : UInt8 := 0x0A

/-- The bytes of a text that is given as characters: its UTF-8 encoding. -/
def ofString (text : String) : List UInt8 :=
  text.toList.flatMap String.utf8EncodeChar

/-- A line and a column, both counted from 1. -/
structure Position where
  line : Nat
  column : Nat
  deriving DecidableEq, Repr

namespace Position

def start : Position := ⟨1, 1⟩

/-- The place behind byte `b`, when `b` is at `p`. -/
def after (p : Position) (b : UInt8) : Position :=
  if b = newline then ⟨p.line + 1, 1⟩ else ⟨p.line, p.column + 1⟩

end Position

/-- The part of the current line that stands before the end of `bytes`. -/
def lastLine (bytes : List UInt8) : List UInt8 :=
  (bytes.reverse.takeWhile (· != newline)).reverse

/-- The place of byte offset `offset`. Behind the end of the source the column goes on counting. -/
def position (source : List UInt8) (offset : Nat) : Position :=
  let before := source.take offset
  ⟨before.count newline + 1, (lastLine before).length + (offset - before.length) + 1⟩

/-- The offset that an integer names. Below zero it counts back from the end, and no further than to
the first byte. -/
def offsetAt (source : List UInt8) (offset : Int) : Nat :=
  if offset < 0 then (offset + source.length).toNat else offset.toNat

@[simp]
theorem offsetAt_natCast (source : List UInt8) (offset : Nat) :
    offsetAt source offset = offset := by
  have h : ¬(offset : Int) < 0 := by omega
  simp [offsetAt, h]

theorem lastLine_concat (bytes : List UInt8) (b : UInt8) :
    lastLine (bytes ++ [b]) = if b = newline then [] else lastLine bytes ++ [b] := by
  by_cases h : b = newline <;> simp [lastLine, h]

theorem position_length (before : List UInt8) :
    position before before.length = ⟨before.count newline + 1, (lastLine before).length + 1⟩ := by
  simp [position]

theorem position_take (source : List UInt8) {offset : Nat} (h : offset ≤ source.length) :
    position source offset = position (source.take offset) (source.take offset).length := by
  simp [position, Nat.min_eq_left h, List.take_take]

theorem position_concat (before : List UInt8) (b : UInt8) :
    position (before ++ [b]) (before ++ [b]).length = (position before before.length).after b := by
  rw [position_length, position_length, lastLine_concat, List.count_append]
  by_cases h : b = newline <;> simp [Position.after, h]

theorem position_length_eq_foldl (before : List UInt8) :
    position before before.length = before.foldl Position.after .start := by
  rw [← List.reverse_reverse before]
  induction before.reverse with
  | nil => rfl
  | cons b rest ih => rw [List.reverse_cons, position_concat, ih, List.foldl_append]; rfl

/-- **Counting newlines and walking byte by byte give the same place**, up to the end of the
source. -/
theorem position_eq_foldl (source : List UInt8) {offset : Nat} (h : offset ≤ source.length) :
    position source offset = (source.take offset).foldl Position.after .start := by
  rw [position_take source h, position_length_eq_foldl]

end TapeLang.Source
