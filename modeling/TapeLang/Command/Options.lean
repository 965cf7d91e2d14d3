import TapeLang.Command.Grammar
import TapeLang.Command.Usage
import TapeLang.Config

/-!
# The command line

Model of `bfvm.cli`: the parser that `build_parser` makes, and what it hands to `main`.

* `Setting`, `RunOptions`, `Invocation` — an option, those of `run`, and a command line understood.
* `runGrammar`, `checkGrammar`, `mainGrammar` — which words each may hold.
* `Invocation.parse` — reads a command line. Words that mean nothing, wherever they stand, are
  refused together by the main grammar.
-/

namespace TapeLang.Command

/-- What an option was given. -/
inductive Setting (α : Type)
  | given (value : α)
  /-- It was left without a value. -/
  | void
  deriving DecidableEq, Repr

namespace Setting

variable {α ε : Type}

def getD : Setting α → α → α
  | given value, _ => value
  | void, default => default

def orError : Setting α → ε → Except ε α
  | given value, _ => .ok value
  | void, error => .error error

@[simp]
theorem getD_given (value default : α) : (given value).getD default = value := rfl

@[simp]
theorem orError_given (value : α) (error : ε) : (given value).orError error = .ok value := rfl

end Setting

structure RunOptions where
  program : String := ""
  /-- The path of the input; a dash is standard input. -/
  input : Setting String := .given "-"
  /-- The path of the output; a dash is standard output. -/
  output : Setting String := .given "-"
  cellOverflow : Setting Overflow := .given .wrap
  pointerOverflow : Setting Overflow := .given .check
  eof : Setting EofMode := .given .keep
  tapeLength : Setting Int := .given 1000000
  cellWidth : Setting Int := .given 8
  maxSteps : Setting (Option Int) := .given none
  stats : Bool := false
  deriving DecidableEq, Repr

inductive Task
  /-- To show the help, for want of a command. -/
  | help
  | run (options : RunOptions)
  | check (program : String)
  deriving DecidableEq, Repr

structure Invocation where
  task : Task := .help
  color : Bool := true
  verbose : Bool := false
  deriving DecidableEq, Repr

def invalidChoice (names : List String) (word : String) : String :=
  "invalid choice: " ++ Text.quoted word ++ " (choose from " ++
    ", ".intercalate (names.map Text.quoted) ++ ")"

/-- An argument that is one of a few names. -/
def choice {α σ : Type} (names : List String) (ofName? : String → Option α)
    (apply : Setting α → σ → σ) : Action σ :=
  .value
    (fun word x =>
      match ofName? word with
      | some a => .ok (apply (.given a) x)
      | none => .error (invalidChoice names word))
    (apply .void)

def integer {σ : Type} (apply : Setting Int → σ → σ) : Action σ :=
  .value
    (fun word x =>
      match Text.integer? word with
      | some n => .ok (apply (.given n) x)
      | none => .error ("invalid int value: " ++ Text.quoted word))
    (apply .void)

def anyText {σ : Type} (apply : Setting String → σ → σ) : Action σ :=
  .value (fun word x => .ok (apply (.given word) x)) (apply .void)

def overflowChoice {σ : Type} (apply : Setting Overflow → σ → σ) : Action σ :=
  choice (Overflow.all.map (·.name)) Overflow.ofName? apply

/-- A limit that was given. -/
def Setting.limit : Setting Int → Setting (Option Int)
  | .given n => .given (some n)
  | .void => .void

def runGrammar : Grammar RunOptions where
  program := programName ++ " run"
  usage := runUsage
  rules :=
    [ ⟨["-h", "--help"], .info runHelp⟩,
      ⟨["-i", "--input"], anyText fun path o => { o with input := path }⟩,
      ⟨["-o", "--output"], anyText fun path o => { o with output := path }⟩,
      ⟨["-w", "--overflow"], overflowChoice fun mode o => { o with cellOverflow := mode }⟩,
      ⟨["-W", "--ptr-overflow"], overflowChoice fun mode o => { o with pointerOverflow := mode }⟩,
      ⟨["-e", "--eof-mode"],
        choice (EofMode.all.map (·.name)) EofMode.ofName? fun mode o => { o with eof := mode }⟩,
      ⟨["-m", "--max-memory"], integer fun n o => { o with tapeLength := n }⟩,
      ⟨["--cell-width"], integer fun n o => { o with cellWidth := n }⟩,
      ⟨["--max-steps"], integer fun n o => { o with maxSteps := n.limit }⟩,
      ⟨["-s", "--stats"], .flag fun o => { o with stats := true }⟩ ]
  operand := .word "program" fun path o => { o with program := path }

def checkGrammar : Grammar String where
  program := programName ++ " check"
  usage := checkUsage
  rules := [⟨["-h", "--help"], .info checkHelp⟩]
  operand := .word "program" fun path _ => path

def commands : List String := ["run", "check"]

def enter (command : String) (args : List String) (x : Invocation) :
    Except Notice (Invocation × List String) :=
  match command with
  | "run" => do
    let (options, unknown) ← runGrammar.parse args {}
    return ({ x with task := .run options }, unknown)
  | "check" => do
    let (program, unknown) ← checkGrammar.parse args ""
    return ({ x with task := .check program }, unknown)
  | _ => .error (.refused mainUsage programName ("argument command: " ++
      invalidChoice commands command))

def mainGrammar : Grammar Invocation where
  program := programName
  usage := mainUsage
  rules :=
    [ ⟨["-h", "--help"], .info mainHelp⟩,
      ⟨["--version"], .info (programName ++ " " ++ version ++ "\n")⟩,
      ⟨["--no-color"], .flag fun x => { x with color := false }⟩,
      ⟨["-v", "--verbose"], .flag fun x => { x with verbose := true }⟩ ]
  operand := .command enter

/-- Reads a command line. -/
def Invocation.parse (args : List String) : Except Notice Invocation := do
  let (x, unknown) ← mainGrammar.parse args {}
  match unknown with
  | [] => return x
  | words => .error (mainGrammar.refuse ("unrecognized arguments: " ++ " ".intercalate words))

end TapeLang.Command
