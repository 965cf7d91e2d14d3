/-!
# Reading bytes as UTF-8 text

Any bytes can be read: the replacement character stands for each longest run of bytes that begins a
character but does not complete one, and for each byte that begins none.
-/

namespace TapeLang.Text.Utf8

/-- Shown in place of bytes that are no text. -/
def replacement : Char := '\uFFFD'

/-- A character that has begun: how many bytes it still needs, between which bounds the next of them
must lie, and the bits read so far. -/
structure Pending where
  owed : Nat
  low : UInt8
  high : UInt8
  bits : Nat
  deriving DecidableEq, Repr

/-- What a byte begins: a character of one byte, a longer one, or nothing. -/
inductive Lead
  | whole (c : Char)
  | partly (p : Pending)
  | stray
  deriving DecidableEq, Repr

/-- What byte `b` begins. The bounds on the second byte leave out overlong forms, surrogates and
what lies beyond U+10FFFF. -/
def lead (b : UInt8) : Lead :=
  if b < 0x80 then .whole (Char.ofNat b.toNat)
  else if b < 0xC2 then .stray
  else if b < 0xE0 then .partly ⟨1, 0x80, 0xBF, b.toNat - 0xC0⟩
  else if b < 0xF0 then
    .partly ⟨2, if b = 0xE0 then 0xA0 else 0x80, if b = 0xED then 0x9F else 0xBF, b.toNat - 0xE0⟩
  else if b < 0xF5 then
    .partly ⟨3, if b = 0xF0 then 0x90 else 0x80, if b = 0xF4 then 0x8F else 0xBF, b.toNat - 0xF0⟩
  else .stray

def begin (b : UInt8) : List Char × Option Pending :=
  match lead b with
  | .whole c => ([c], none)
  | .partly p => ([], some p)
  | .stray => ([replacement], none)

/-- One byte further. A byte that does not continue the character begun ends it and is read
afresh. -/
def step : Option Pending → UInt8 → List Char × Option Pending
  | none, b => begin b
  | some p, b =>
    if p.low ≤ b ∧ b ≤ p.high then
      let bits := p.bits * 64 + (b.toNat - 0x80)
      if p.owed = 1 then ([Char.ofNat bits], none)
      else ([], some ⟨p.owed - 1, 0x80, 0xBF, bits⟩)
    else
      let (cs, q) := begin b
      (replacement :: cs, q)

def decodeFrom : Option Pending → List UInt8 → List Char
  | none, [] => []
  | some _, [] => [replacement]
  | q, b :: rest => (step q b).1 ++ decodeFrom (step q b).2 rest

def decode (bytes : List UInt8) : String :=
  String.ofList (decodeFrom none bytes)

end TapeLang.Text.Utf8
