import TapeLang.Source.Position
import TapeLang.Text.Blank
import TapeLang.Text.Utf8

/-!
# The line around an offset

Model of `bfvm.errors`: `_excerpt`, the line that holds an offset without the blanks at its ends and
with each tab as four spaces, and where in it the offset lies.
-/

namespace TapeLang.Source

open TapeLang.Text

/-- The bytes between the last newline before `offset` and `offset`. -/
def lineBefore (source : List UInt8) (offset : Nat) : List UInt8 :=
  lastLine (source.take offset)

def lineFrom (source : List UInt8) (offset : Nat) : List UInt8 :=
  (source.drop offset).takeWhile (· != newline)

def lineAround (source : List UInt8) (offset : Nat) : List UInt8 :=
  lineBefore source offset ++ lineFrom source offset

/-- A byte as it is shown: a tab is four spaces. -/
def expandTab (b : UInt8) : List UInt8 :=
  if b = 0x09 then [0x20, 0x20, 0x20, 0x20] else [b]

def expandTabs (bytes : List UInt8) : List UInt8 :=
  bytes.flatMap expandTab

def trimEnd (bytes : List UInt8) : List UInt8 :=
  (bytes.reverse.dropWhile isBlankByte).reverse

def margin (line : List UInt8) : Nat :=
  (line.takeWhile isBlankByte).length

/-- The bytes that are shown of the line that holds `offset`. -/
def shownLine (source : List UInt8) (offset : Nat) : List UInt8 :=
  let line := lineAround source offset
  trimEnd (expandTabs (line.drop (margin line)))

/-- How many shown bytes stand before `offset`: none if the line holds no byte at `offset`. -/
def arrow (source : List UInt8) (offset : Nat) : Nat :=
  if (lineFrom source offset).isEmpty then 0
  else (expandTabs ((lineBefore source offset).drop (margin (lineAround source offset)))).length

def excerpt (source : List UInt8) (offset : Nat) : String :=
  Utf8.decode (shownLine source offset)

theorem expandTabs_append (xs ys : List UInt8) :
    expandTabs (xs ++ ys) = expandTabs xs ++ expandTabs ys := by
  simp [expandTabs]

end TapeLang.Source
