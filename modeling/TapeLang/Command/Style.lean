/-!
# How reports look

Model of `bfvm.cli`: the codes of `C`, and `header`, `ok`, `fail` and `dim` that use them.
-/

namespace TapeLang.Command

/-- Terminal codes for colours and weights. -/
structure Style where
  bold : String
  dim : String
  red : String
  green : String
  cyan : String
  reset : String
  deriving DecidableEq, Repr

namespace Style

def colored : Style := ⟨"\x1b[1m", "\x1b[2m", "\x1b[31m", "\x1b[32m", "\x1b[36m", "\x1b[0m"⟩

def plain : Style := ⟨"", "", "", "", "", ""⟩

def rule (s : Style) : String :=
  s.bold ++ s.cyan ++ String.ofList (List.replicate 60 '─') ++ s.reset

/-- The head of a report, between two lines. -/
def header (s : Style) (text : String) : String :=
  "\n" ++ s.rule ++ "\n" ++ s.bold ++ "  " ++ text ++ s.reset ++ "\n" ++ s.rule

def passed (s : Style) (text : String) : String :=
  "  " ++ s.green ++ "✓" ++ s.reset ++ " " ++ text

def failed (s : Style) (text : String) : String :=
  "  " ++ s.red ++ "✗" ++ s.reset ++ " " ++ text

def faint (s : Style) (text : String) : String :=
  s.dim ++ text ++ s.reset

end Style

end TapeLang.Command
