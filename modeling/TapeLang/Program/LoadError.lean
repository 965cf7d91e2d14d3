import TapeLang.Source.Excerpt

/-!
# Structural faults of a source

Model of `bfvm.errors`: `LoadError`, `UnmatchedLoopOpen` and `UnmatchedLoopClose`.

* `LoadError.locate` — the fault at a byte offset, with its line, column and excerpt. An offset
  below zero finds its line from the end, but the column is reckoned with the number as it is.
* `LoadError.diagnostic` — the fault with its line and a caret under it.
-/

namespace TapeLang

inductive LoadError.Kind
  /-- Something is wrong, with no more to say. -/
  | malformed
  /-- Loops are opened and not closed; the byte offsets of their opening brackets, outermost
  first. -/
  | unclosed (positions : List Int)
  /-- A bracket closes a loop where none is open. -/
  | unopened
  deriving DecidableEq, Repr

structure LoadError where
  kind : LoadError.Kind
  offset : Int
  /-- The number of instructions before it. -/
  index : Int
  line : Nat
  /-- The column of the fault: from 1 on, if the offset does not count from the end. -/
  column : Int
  excerpt : String
  /-- How many bytes of the line that is shown stand before the fault. -/
  arrow : Nat
  deriving DecidableEq, Repr

namespace LoadError

def Kind.detail : Kind → String
  | .malformed => "syntax error"
  | .unclosed _ => "missing closing bracket ']'"
  | .unopened => "unexpected closing bracket ']'"

/-- The fault of kind `kind` at byte `offset` of `source`, behind `index` instructions. -/
def locate (kind : Kind) (source : List UInt8) (offset index : Int) : LoadError :=
  let place := Source.offsetAt source offset
  let position := Source.position source place
  { kind, offset, index
    line := position.line
    column := position.column + (offset - place)
    excerpt := Source.excerpt source place
    arrow := if offset < 0 then 0 else Source.arrow source place }

def message (e : LoadError) : String :=
  "syntax error at line " ++ toString e.line ++ ", column " ++ toString e.column ++ ": "
    ++ e.kind.detail

/-- **A fault at an offset from zero on has the line, the column and the arrow of that offset.** -/
theorem locate_natCast (kind : Kind) (source : List UInt8) (offset : Nat) (index : Int) :
    locate kind source offset index =
      { kind, index
        offset := offset
        line := (Source.position source offset).line
        column := (Source.position source offset).column
        excerpt := Source.excerpt source offset
        arrow := Source.arrow source offset } := by
  have h : ¬(offset : Int) < 0 := by omega
  simp [locate, h]

/-- A caret under the fault, with dashes under the rest of the excerpt. -/
def marker (e : LoadError) : String :=
  String.ofList (List.replicate e.arrow '-' ++
    '^' :: List.replicate (e.excerpt.length - e.arrow - 1) '-')

def diagnostic (e : LoadError) : String :=
  e.message ++ "\n\t" ++ e.excerpt ++ "\n\t" ++ e.marker

end LoadError

end TapeLang
