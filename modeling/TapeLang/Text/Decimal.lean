import TapeLang.Text.Blank

/-!
# Decimal digits and integer numerals

The digits of all scripts (Unicode 14.0, category Nd), which come in runs of ten that begin at a
zero, and the numerals that options take.
-/

namespace TapeLang.Text

/-- The zero of each run of decimal digits, ascending. -/
def zeros : Array Nat :=
  #[
    0x30, 0x660, 0x6F0, 0x7C0, 0x966, 0x9E6, 0xA66, 0xAE6, 0xB66, 0xBE6, 0xC66, 0xCE6, 0xD66, 0xDE6,
      0xE50, 0xED0,
    0xF20, 0x1040, 0x1090, 0x17E0, 0x1810, 0x1946, 0x19D0, 0x1A80, 0x1A90, 0x1B50, 0x1BB0, 0x1C40,
      0x1C50, 0xA620,
    0xA8D0, 0xA900, 0xA9D0, 0xA9F0, 0xAA50, 0xABF0, 0xFF10, 0x104A0, 0x10D30, 0x11066, 0x110F0,
      0x11136, 0x111D0,
    0x112F0, 0x11450, 0x114D0, 0x11650, 0x116C0, 0x11730, 0x118E0, 0x11950, 0x11C50, 0x11D50,
      0x11DA0, 0x16A60,
    0x16AC0, 0x16B50, 0x1D7CE, 0x1D7D8, 0x1D7E2, 0x1D7EC, 0x1D7F6, 0x1E140, 0x1E2F0, 0x1E950,
      0x1FBF0
  ]

/-- The value of a decimal digit of any script. -/
def digit? (c : Char) : Option Nat :=
  (zeros.find? fun first => first ≤ c.toNat && c.toNat < first + 10).map (c.toNat - ·)

def maxDigits : Nat := 4300

/-- The digits of a numeral with single underscores between them. `held` tells that a digit stands
before the rest. -/
def digits? (held : Bool) : List Char → Option (List Nat)
  | [] => if held then some [] else none
  | c :: rest =>
    if c = '_' then
      if held then digits? false rest else none
    else
      match digit? c with
      | some d => (digits? true rest).map (d :: ·)
      | none => none

def ofDigits (ds : List Nat) : Nat :=
  ds.foldl (fun n d => 10 * n + d) 0

def natural? (cs : List Char) : Option Nat :=
  match digits? false cs with
  | some ds => if ds.length ≤ maxDigits then some (ofDigits ds) else none
  | none => none

/-- The integer that a text stands for. A text that is all ASCII may be surrounded by ASCII blanks;
in any other text the blanks of all scripts count, except the four ASCII separators. -/
def integer? (text : String) : Option Int :=
  match trimNumeral text.toList with
  | '+' :: rest => (natural? rest).map Int.ofNat
  | '-' :: rest => (natural? rest).map fun n => -Int.ofNat n
  | cs => (natural? cs).map Int.ofNat

/-- Whether a text reads as a negative number: a minus sign and digits, which a point may precede or
divide. One newline may follow. -/
def isNegativeNumber (text : String) : Bool :=
  let isDigit (c : Char) : Bool := (digit? c).isSome
  let unended (cs : List Char) : List Char := if cs.getLast? = some '\n' then cs.dropLast else cs
  match text.toList with
  | '-' :: rest =>
    match (unended rest).dropWhile isDigit with
    | [] => (unended rest) != []
    | '.' :: fraction => fraction != [] && fraction.all isDigit
    | _ => false
  | _ => false

end TapeLang.Text
