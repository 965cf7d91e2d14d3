import TapeLang.Text.Printable

/-!
# Quoted text

A text in a message stands between apostrophes, or between double quotes if it has an apostrophe and
no double quote. What does not show is written as an escape.
-/

namespace TapeLang.Text

/-- `n` in exactly `width` lower-case hexadecimal digits. -/
def hexDigits (width n : Nat) : List Char :=
  match width with
  | 0 => []
  | w + 1 => hexDigits w (n / 16) ++ [Nat.digitChar (n % 16)]

def quote (cs : List Char) : Char :=
  if cs.contains '\'' && !cs.contains '"' then '"' else '\''

/-- A character as it is written between two quotes `q`. -/
def escaped (q c : Char) : List Char :=
  if c = q || c = '\\' then ['\\', c]
  else if c = '\t' then ['\\', 't']
  else if c = '\n' then ['\\', 'n']
  else if c = '\r' then ['\\', 'r']
  else if isPrintable c then [c]
  else if c.toNat ≤ 0xFF then '\\' :: 'x' :: hexDigits 2 c.toNat
  else if c.toNat ≤ 0xFFFF then '\\' :: 'u' :: hexDigits 4 c.toNat
  else '\\' :: 'U' :: hexDigits 8 c.toNat

def quoted (text : String) : String :=
  let q := quote text.toList
  String.ofList (q :: text.toList.flatMap (escaped q) ++ [q])

end TapeLang.Text
