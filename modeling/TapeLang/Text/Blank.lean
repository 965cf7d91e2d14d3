/-!
# Blanks

White space of ASCII and of any script (Unicode 14.0: bidirectional classes B, S and WS, category
Zs).
-/

namespace TapeLang.Text

def isBlankByte (b : UInt8) : Bool :=
  (0x09 ≤ b && b ≤ 0x0D) || b = 0x20

def isBlank (c : Char) : Bool :=
  let n := c.toNat
  (0x09 ≤ n && n ≤ 0x0D) || (0x1C ≤ n && n ≤ 0x20) || n = 0x85 || n = 0xA0 || n = 0x1680 ||
    (0x2000 ≤ n && n ≤ 0x200A) || n = 0x2028 || n = 0x2029 || n = 0x202F || n = 0x205F ||
    n = 0x3000

def isNumeralBlank (c : Char) : Bool :=
  (0x09 ≤ c.toNat && c.toNat ≤ 0x0D) || c = ' '

def trim (p : Char → Bool) (cs : List Char) : List Char :=
  ((cs.dropWhile p).reverse.dropWhile p).reverse

/-- Around a numeral in a text that is not all ASCII, blanks beyond ASCII are dropped as well. -/
def trimNumeral (cs : List Char) : List Char :=
  trim (fun c => isNumeralBlank c || (0x7F < c.toNat && isBlank c)) cs

/-- A carriage return and a newline behind it end one line together. -/
def isLineBreak (c : Char) : Bool :=
  let n := c.toNat
  (0x0A ≤ n && n ≤ 0x0D) || (0x1C ≤ n && n ≤ 0x1E) || n = 0x85 || n = 0x2028 || n = 0x2029

end TapeLang.Text
