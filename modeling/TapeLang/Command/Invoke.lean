import TapeLang.Command.Files
import TapeLang.Command.Options
import TapeLang.Command.Style
import TapeLang.Command.Supply
import TapeLang.Machine.Summary
import TapeLang.Program.Load
import TapeLang.Source.Position
import TapeLang.Text.Lines

/-!
# Carrying out a command line

Model of `bfvm.cli`: `load_file`, `cmd_run`, `cmd_check` and `main`.

* `World`, `Report` — what a command line is carried out in, and what comes of it; `Failure` — why
  it ends before an execution.
* `loadFile`, `RunOptions.launch` — all that precedes an execution. Program, configuration, input
  and output are looked at in this order, and the first fault ends the command.
* `Launch.run`, `Launch.report` — the execution, and what is told of it. Output that cannot be
  flushed counts as a failure of the execution, whatever else it came to.
* `invoke` — carries out a command line, if the execution stops within a number of steps.
-/

namespace TapeLang.Command

/-! ## Before and after -/

structure World where
  files : Files
  /-- What the read calls on standard input bring. -/
  stdin : List Reading := []
  /-- What flushing standard output raises when something was written to it. -/
  stdoutFault : Option StreamFault := none
  /-- What write calls on standard output raise, by the number of the call. -/
  stdoutPlan : Nat → Option StreamFault := fun _ => none

inductive Destination
  | stdout
  | opened (target : Target)
  deriving DecidableEq, Repr

def Destination.file? : Destination → Option String
  | opened (.file name) => some name
  | _ => none

/-- How a destination takes what is written to it. -/
def World.sink (w : World) : Destination → Sink
  | .stdout => ⟨w.stdoutPlan, fun count => if 0 < count then w.stdoutFault else none⟩
  | .opened target => w.files.sink target

inductive Origin
  | stdin
  | opened (target : Target) (contents : List UInt8)
  deriving DecidableEq, Repr

/-- What no command expects: an option without a value where one is needed, or a program without
end. -/
inductive Defect
  | program
  | size
  | input
  | output
  | limit
  deriving DecidableEq, Repr

/-- The text of a defect. That of a program without end, which no memory holds, is empty. -/
def Defect.message : Defect → String
  | .program => ""
  | .size => "'<' not supported between instances of 'list' and 'int'"
  | .input | .output => "expected str, bytes or os.PathLike object, not list"
  | .limit => "'<' not supported between instances of 'int' and 'list'"

inductive Failure
  | usage (synopsis name message : String)
  | program (error : FileError)
  | load (path : String) (error : LoadError)
  | config (error : ConfigError)
  | input (error : FileError)
  | output (error : FileError)
  | defect (defect : Defect)
  deriving DecidableEq, Repr

structure Report where
  status : Nat
  stdout : List UInt8 := []
  stderr : String := ""
  /-- The name of the file that was written, and the bytes passed to it. -/
  written : Option (String × List UInt8) := none
  stdinReads : Nat := 0
  /-- Why the command ended before an execution, if it did. -/
  failure : Option Failure := none
  deriving DecidableEq, Repr

def Report.defect (r : Report) : Option Defect :=
  match r.failure with
  | some (.defect d) => some d
  | _ => none

structure Launch where
  machine : Machine
  maxSteps : Option Int
  origin : Origin
  destination : Destination

/-! ## Telling what is done -/

/-- How a command reports: in which style, and whether it tells what it does. -/
structure Manner where
  style : Style
  verbose : Bool

def Invocation.manner (x : Invocation) : Manner :=
  ⟨if x.color then .colored else .plain, x.verbose⟩

def line (text : String) : String :=
  text ++ "\n"

/-- A line that is told only on request. -/
def Manner.debug (m : Manner) (part text : String) : String :=
  if m.verbose then line ("DEBUG " ++ programName ++ "." ++ part ++ ": " ++ text) else ""

def Manner.loaded (m : Manner) (p : Program) : String :=
  m.debug "loader" ("loaded " ++ toString p.size ++ " instructions (" ++ toString p.loopCount ++
    " loops) from "
    ++ toString p.source.length ++ " source bytes")

def Manner.executed (m : Manner) (machine : Machine) (h : Halt) : String :=
  m.debug "engine" ("running " ++ machine.program.label ++ " with " ++ machine.config.describe)
    ++ match h.stop with
      | .failed (.execution e) =>
        m.debug "engine" ("execution failed after " ++ toString h.state.steps ++ " steps: " ++
          e.message)
      | .failed _ => ""
      | _ => m.debug "engine" ("execution finished after " ++ toString h.state.steps ++ " steps")

/-! ## Getting ready -/

/-- Loads the program at a path. What never ends cannot be read whole. -/
def loadFile (files : Files) (path : String) : Except Failure Program :=
  match files.find (normalPath path) with
  | .error e => .error (.program e)
  | .ok (target, source) =>
    if target.endless then .error (.defect .program)
    else
      match Program.load source with
      | .error e => .error (.load path e)
      | .ok p => .ok p

def RunOptions.origin (o : RunOptions) (files : Files) : Except Failure Origin := do
  let path ← o.input.orError (.defect .input)
  if path = "-" then return .stdin
  else
    match files.find path with
    | .ok (target, contents) => return .opened target contents
    | .error e => .error (.input e)

def RunOptions.destination (o : RunOptions) (files : Files) : Except Failure Destination := do
  let path ← o.output.orError (.defect .output)
  if path = "-" then return .stdout
  else
    match files.create path with
    | .ok target => return .opened target
    | .error e => .error (.output e)

/-- The policies and sizes of the execution. Names are looked at before sizes, and the tape before
its cells. -/
def RunOptions.config (o : RunOptions) : Except Failure Config := do
  let cellOverflow ← o.cellOverflow.orError (.config .noOverflow)
  let pointerOverflow ← o.pointerOverflow.orError (.config .noOverflow)
  let eof ← o.eof.orError (.config .noEof)
  let tapeLength ← o.tapeLength.orError (.defect .size)
  let c ← (Config.sized tapeLength (o.cellWidth.getD 8)).mapError .config
  discard (o.cellWidth.orError (.defect .size))
  return { c with cellOverflow, pointerOverflow, eof }

/-- Getting ready for an execution. What stays, even when that fails, is that a file has been
emptied. -/
abbrev Preparation := EStateM Failure (Option String)

def RunOptions.openOutput (o : RunOptions) (files : Files) : Preparation Destination := do
  let destination ← ofExcept (o.destination files)
  modify destination.file?.or
  return destination

/-- Makes a program ready to be executed. That a limit has no value is only noticed when it is
compared with a number of steps. -/
def RunOptions.launch (o : RunOptions) (files : Files) (program : Program) :
    Preparation Launch := do
  let config ← ofExcept o.config
  let origin ← ofExcept (o.origin files)
  let destination ← o.openOutput files
  let maxSteps ← ofExcept (o.maxSteps.orError (.defect .limit))
  return ⟨⟨program, config⟩, maxSteps, origin, destination⟩

theorem RunOptions.openOutput_eq (o : RunOptions) (files : Files) (emptied : Option String) :
    o.openOutput files emptied =
      match o.destination files with
      | .error f => .error f emptied
      | .ok destination => .ok destination (destination.file?.or emptied) := by
  rw [openOutput]
  cases o.destination files <;> rfl

/-- **Getting ready, stage by stage**: a file is emptied at the end, and then only a limit without a
value is in the way of the execution. -/
theorem RunOptions.launch_eq (o : RunOptions) (files : Files) (program : Program) :
    o.launch files program none =
      match o.config, o.origin files, o.destination files with
      | .error f, _, _ => .error f none
      | .ok _, .error f, _ => .error f none
      | .ok _, .ok _, .error f => .error f none
      | .ok config, .ok origin, .ok destination =>
        match o.maxSteps.orError (.defect .limit) with
        | .error f => .error f destination.file?
        | .ok maxSteps =>
            .ok ⟨⟨program, config⟩, maxSteps, origin, destination⟩ destination.file? := by
  simp only [launch, bind, EStateM.bind, openOutput_eq]
  cases o.config with
  | error f => rfl
  | ok config =>
      cases o.origin files with
      | error f => rfl
      | ok origin =>
          cases o.destination files with
          | error f => rfl
          | ok destination =>
              rcases destination with _ | (name | device) <;> cases o.maxSteps <;> rfl

/-! ## Executing -/

namespace Launch

def supply (l : Launch) : Supply :=
  match l.origin, l.destination with
  | .opened (.file name) _, .opened target => if target = .file name then .written else .none
  | .opened target _, _ => if target.endless then .zeros else .none
  | .stdin, _ => .none

/-- What the program can read when it begins. A file that is written as well is empty by then. -/
def readings (l : Launch) (stdin : List Reading) : List Reading :=
  match l.origin with
  | .stdin => stdin
  | .opened _ contents => if l.supply = .written then [] else (Input.ofBytes contents).pending

def output (l : Launch) (w : World) : Output :=
  { plan := (w.sink l.destination).plan }

def streams (l : Launch) (w : World) : Streams :=
  ⟨{ pending := l.readings w.stdin }, l.output w⟩

def run (l : Launch) (fuel : Nat) (w : World) : Option Halt :=
  match l.supply with
  | .none => l.machine.run fuel l.maxSteps l.machine.start (l.streams w)
  | supply => l.machine.runSupplied supply l.maxSteps fuel l.machine.start (l.streams w) 0

/-- What the execution came to. When the system cannot flush the output, the execution has failed;
any other fault in flushing is passed on. -/
def outcome (l : Launch) (w : World) (h : Halt) : Except Fault Execution :=
  match (w.sink l.destination).flush h.state.bytesWritten with
  | some f =>
    if f.isSystem then .ok ⟨some ⟨.io f, h.state.ip, h.state.dp⟩, h.state⟩
    else .error (.stream f)
  | none => h.execution

def statistics (l : Launch) (style : Style) (o : RunOptions) (x : Execution) : String :=
  line (style.header ("RUN: " ++ o.program)) ++
    line (style.faint ("  " ++ l.machine.config.describe))
    ++ line (Text.indent "  " x.summary)

def conclusion (l : Launch) (style : Style) (o : RunOptions) (outcome : Except Fault Execution) :
    Nat × String :=
  match outcome with
  | .ok x =>
    let told := if o.stats then l.statistics style o x else ""
    match x.error with
    | none => (0, told)
    | some e => (1, told ++ line (style.failed e.message))
  | .error (.stream ⟨.interrupt, _⟩) => (130, line (style.failed "Interrupted"))
  | .error f => (1, line (style.failed ("Error: " ++ f.message)))

def report (l : Launch) (m : Manner) (o : RunOptions) (w : World) (h : Halt) : Report :=
  let (status, told) := l.conclusion m.style o (l.outcome w h)
  let bytes := h.streams.output.bytes.toList
  { status
    stdout := if l.destination = .stdout then bytes else []
    stderr := m.loaded l.machine.program ++ m.executed l.machine h ++ told
    written := match l.destination with
      | .opened (.file name) => some (name, bytes)
      | _ => none
    stdinReads := if l.origin = .stdin then h.streams.input.reads else 0 }

end Launch

/-! ## Commands -/

def Failure.status : Failure → Nat
  | .usage _ _ _ => 2
  | _ => 1

/-- What is told of a failure. Of a defect the command itself tells nothing. -/
def Failure.text (style : Style) : Failure → String
  | .usage synopsis name message => synopsis ++ line (name ++ ": error: " ++ message)
  | .program e | .input e | .output e => line (style.failed e.message)
  | .load path e => line (style.failed (path ++ ": " ++ e.diagnostic))
  | .config e => line (style.failed ("Error: " ++ e.message))
  | .defect _ => ""

/-- The report on a command that ended before an execution. `told` is what has been told by then,
and `emptied` is the file that has been emptied. -/
def Failure.report (f : Failure) (style : Style) (told : String) (emptied : Option String) :
    Report :=
  { status := f.status
    stderr := told ++ f.text style
    written := emptied.map (·, [])
    failure := some f }

def runCommand (fuel : Nat) (m : Manner) (o : RunOptions) (w : World) : Option Report :=
  match loadFile w.files o.program with
  | .error f => some (f.report m.style "" none)
  | .ok program =>
    match o.launch w.files program none with
    | .error f emptied => some (f.report m.style (m.loaded program) emptied)
    | .ok l _ => (l.run fuel w).map (l.report m o w)

def checked (style : Style) (path : String) (p : Program) : String :=
  line (style.header ("CHECK: " ++ path)) ++ line (style.passed "Brackets balanced")
    ++ line ("    Source bytes:  " ++ toString p.source.length)
    ++ line ("    Instructions:  " ++ toString p.size)
    ++ line ("    Loops:         " ++ toString p.loopCount)
    ++ line ("    Max nesting:   " ++ toString p.maxDepth)

def checkCommand (m : Manner) (path : String) (w : World) : Report :=
  match loadFile w.files path with
  | .error f => f.report m.style "" none
  | .ok p =>
      { status := 0, stdout := Source.ofString (checked m.style path p), stderr := m.loaded p }

def Notice.report : Notice → Report
  | .shown text => { status := 0, stdout := Source.ofString text }
  | .refused synopsis name message => (Failure.usage synopsis name message).report .plain "" none

/-- Carries out a command line, if the execution it asks for stops within `fuel` steps. -/
def invoke (fuel : Nat) (w : World) (args : List String) : Option Report :=
  match Invocation.parse args with
  | .error notice => some notice.report
  | .ok x =>
    match x.task with
    | .help => some (Notice.shown mainHelp).report
    | .check path => some (checkCommand x.manner path w)
    | .run o => runCommand fuel x.manner o w

end TapeLang.Command
