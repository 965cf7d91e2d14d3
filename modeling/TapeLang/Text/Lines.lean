import TapeLang.Text.Blank

/-!
# Lines of text
-/

namespace TapeLang.Text

def consLine (c : Char) : List (List Char) → List (List Char)
  | [] => [[c]]
  | line :: later => (c :: line) :: later

def lines : List Char → List (List Char)
  | [] => []
  | c :: rest =>
    if isLineBreak c && !(c = '\r' && rest.head? = some '\n') then [c] :: lines rest
    else consLine c (lines rest)

/-- The text with `margin` before each line that holds more than blanks. -/
def indent (margin text : String) : String :=
  String.join ((lines text.toList).map fun line =>
    (if line.all isBlank then "" else margin) ++ String.ofList line)

end TapeLang.Text
