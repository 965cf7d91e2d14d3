import TapeLang.Program.Basic
import TapeLang.Program.LoadError
import TapeLang.Program.Matching
import TapeLang.Source.Token

/-!
# Loading a source

Model of `bfvm.loader`: `load`. A closing bracket without a partner is reported where it stands.
Loops that are never closed are reported at the outermost one, and only if there is no such bracket.
-/

namespace TapeLang.Program

/-- The fault of a source whose brackets do not pair. -/
def unpairedError (source : List UInt8) (offsets : Array Nat) (kind : LoadError.Kind)
    (index : Nat) : LoadError :=
  .locate kind source (offsets.getD index 0) index

def load (source : List UInt8) : Except LoadError Program :=
  let found := Source.tokens source
  let code := found.map (·.instruction)
  let offsets := (found.map (·.offset)).toArray
  match Matching.run {} code with
  | .error index => .error (unpairedError source offsets .unopened index)
  | .ok m =>
    match m.opened.reverse with
    | [] => .ok ⟨source, code.toArray, offsets, m.jumps⟩
    | outermost :: inner =>
      let positions := (outermost :: inner).map fun i => (offsets.getD i 0 : Int)
      .error (unpairedError source offsets (.unclosed positions) outermost)

def loadText (text : String) : Except LoadError Program :=
  load (Source.ofString text)

end TapeLang.Program
