import TapeLang.Instruction
import TapeLang.Source.Position

/-!
# Tokens

Model of `bfvm.syntax`: `Token` and `tokenize`. Bytes that stand for no instruction give no token.
-/

namespace TapeLang.Source

/-- An instruction, the byte offset it stands at and the line and column of that offset. -/
structure Token where
  instruction : Instruction
  offset : Nat
  position : Position
  deriving DecidableEq, Repr

/-- A token as it is listed, for instance `<READ@2:5>`. -/
def Token.label (t : Token) : String :=
  "<" ++ t.instruction.label ++ "@" ++ toString t.position.line ++ ":" ++
    toString t.position.column ++ ">"

/-- The tokens of `bytes`, whose first byte stands at `offset` and `position`. -/
def tokensFrom (offset : Nat) (position : Position) : List UInt8 → List Token
  | [] => []
  | b :: rest =>
    let later := tokensFrom (offset + 1) (position.after b) rest
    match Instruction.ofByte? b with
    | some i => ⟨i, offset, position⟩ :: later
    | none => later

def tokens (source : List UInt8) : List Token :=
  tokensFrom 0 .start source

@[simp]
theorem tokensFrom_nil (offset : Nat) (position : Position) :
    tokensFrom offset position [] = [] := rfl

theorem map_instruction_tokensFrom (source : List UInt8) (offset : Nat) (position : Position) :
    (tokensFrom offset position source).map (·.instruction) =
      source.filterMap Instruction.ofByte? := by
  induction source generalizing offset position with
  | nil => rfl
  | cons b rest ih =>
      simp only [tokensFrom, List.filterMap_cons]
      cases Instruction.ofByte? b <;> simp [ih]

theorem map_instruction_tokens (source : List UInt8) :
    (tokens source).map (·.instruction) = source.filterMap Instruction.ofByte? :=
  map_instruction_tokensFrom source 0 .start

end TapeLang.Source
