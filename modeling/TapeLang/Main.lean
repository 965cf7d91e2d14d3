import TapeLang.Command.Invoke

/-!
# The program

The entry of `bfvm`: carries out a command line on the files and streams of the system. What is to
be done and what is told of it is decided in `Command/Invoke`; here paths are looked up, and bytes
are fetched and passed on.
-/

namespace TapeLang.Command.Terminal

/-- An error number. The system also hands them out negated. -/
def errorNumber (n : UInt32) : Nat :=
  if n.toNat < 0x80000000 then n.toNat else 0x100000000 - n.toNat

def described : IO.Error → Nat × String
  | .alreadyExists _ n t | .invalidArgument _ n t | .permissionDenied _ n t
  | .resourceExhausted _ n t | .inappropriateType _ n t | .noSuchThing _ n t
  | .interrupted _ n t | .noFileOrDirectory _ n t | .otherError n t | .resourceBusy n t
  | .resourceVanished n t | .unsupportedOperation n t | .hardwareFault n t
  | .unsatisfiedConstraints n t | .illegalOperation n t | .protocolError n t
  | .timeExpired n t =>
      (errorNumber n, t)
  | .unexpectedEof => (0, "unexpected end of file")
  | .userError t => (0, t)

def cause (e : IO.Error) : FileError.Cause :=
  match described e with
  | (2, _) => .notFound
  | (20, _) => .notDirectory
  | (21, _) => .isDirectory
  | (36, _) => .nameTooLong
  | (n, t) => .refused n t

def streamFault (e : IO.Error) : StreamFault :=
  let (n, t) := described e
  ⟨.system (some n), t⟩

/-- What a path leads to. What is not there yet will be a file. -/
def targetOf (path : String) : IO Target := do
  try
    let real ← IO.FS.realPath path
    match (← real.metadata).type with
    | .other =>
      match real.toString with
      | "/dev/zero" => return .device .zero
      | "/dev/full" => return .device .full
      | _ => return .device .null
    | _ => return .file real.toString
  catch _ => return .file path

def lookUp (path : String) : IO (Except FileError.Cause (Target × List UInt8)) := do
  if path.contains '\x00' then return .error .nul
  try
    let target ← targetOf path
    if target.endless then return .ok (target, [])
    else return .ok (target, (← IO.FS.readBinFile path).toList)
  catch e => return .error (cause e)

/-- The files that `paths` lead to. Any path may be created here; whether the system agrees is seen
when it is. -/
def filesAt (paths : List String) : IO Files := do
  let found ← paths.mapM fun path => return (path, ← lookUp path)
  let targets ← paths.mapM fun path => return (path, ← targetOf path)
  return {
    find := fun path => ((found.lookup path).getD (.error .notFound)).mapError (⟨·, path⟩)
    create := fun path =>
      if path.contains '\x00' then .error ⟨.nul, path⟩
      else .ok ((targets.lookup path).getD (.file path)) }

def fetch : IO Reading := do
  try
    return .chunk (← (← IO.getStdin).read 1).toList
  catch e => return .fault (streamFault e)

def supply (l : Launch) (s : State) (io : Streams) (fetched : Nat) : IO (Streams × Nat) := do
  if l.origin = .stdin ∧ l.machine.reads s ∧ io.input.pending.isEmpty then
    return (⟨{ io.input with pending := [← fetch] }, io.output⟩, fetched)
  else return l.machine.supplied l.supply s io fetched

/-- The output for the next step, and the bytes that wait for it to be passed on. A block is passed
on when a byte comes for which it has no room, and when that fails, so does the write call. -/
def makeRoom (l : Launch) (put : ByteArray → IO Unit) (s : State) (output : Output)
    (waiting : ByteArray) : IO (Output × ByteArray) := do
  if l.machine.program.get s.ip matches .ok .write && waiting.size = blockSize then
    try
      put waiting
      return (output, .empty)
    catch e => return ({ output with plan := fun _ => some (streamFault e) }, waiting)
  else return (output, waiting)

/-- Executes a program, passing its output to `put` and fetching its input when it reads, and gives
the bytes that are still to be passed on as well. Output that may be read again is kept. -/
partial def drive (l : Launch) (put : ByteArray → IO Unit) (s : State) (io : Streams)
    (fetched : Nat) (waiting : ByteArray) : IO (Halt × ByteArray) := do
  match l.maxSteps with
  | some limit => if limit ≤ s.steps then return (l.machine.runUpTo limit s io, waiting)
  | none => pure ()
  let (io, fetched) ← supply l s io fetched
  let (output, waiting) ← makeRoom l put s io.output waiting
  let before := output.bytes.size
  match l.machine.advance 1 s ⟨io.input, output⟩ with
  | ⟨.paused, s, io⟩ =>
    let waiting := waiting ++ ⟨io.output.bytes.extract before io.output.bytes.size⟩
    let io := if l.supply = .written then io else ⟨io.input, { io.output with bytes := #[] }⟩
    drive l put s io fetched waiting
  | h =>
    let waiting := waiting ++ ⟨h.streams.output.bytes.extract before h.streams.output.bytes.size⟩
    return ({ h with streams := ⟨h.streams.input, { h.streams.output with bytes := #[] }⟩ },
      waiting)

def conclude (r : Report) : IO UInt32 := do
  unless r.stdout.isEmpty do (← IO.getStdout).write ⟨r.stdout.toArray⟩
  IO.eprint r.stderr
  return UInt32.ofNat r.status

def execute (l : Launch) (x : Invocation) (o : RunOptions) (w : World) : IO UInt32 := do
  let target ←
    match l.destination with
    | .stdout => IO.getStdout
    | .opened _ => do
      try
        pure (IO.FS.Stream.ofHandle (← IO.FS.Handle.mk (o.output.getD "") .write))
      catch e =>
        return ← conclude
          ((Failure.output ⟨cause e, o.output.getD ""⟩).report x.manner.style
            (x.manner.loaded l.machine.program) none)
  let put (bytes : ByteArray) : IO Unit := do
    target.write bytes
    target.flush
  let (h, waiting) ← drive l put l.machine.start (l.streams w) 0 .empty
  let raised ←
    try
      put waiting
      pure none
    catch e => pure (some (streamFault e))
  let sink : Sink := { flush := fun _ => raised }
  let files := { w.files with sink := fun _ => sink }
  conclude (l.report x.manner o { w with stdoutFault := raised, files } h)

/-- Ends a command before an execution, perhaps behind a file that is empty by then. -/
def giveUp (f : Failure) (emptied : Option String) (x : Invocation) (o : RunOptions)
    (program : Program) : IO UInt32 := do
  let mut f := f
  if emptied.isSome then
    try
      IO.FS.writeBinFile (o.output.getD "") .empty
    catch e =>
      f := .output ⟨cause e, o.output.getD ""⟩
  conclude (f.report x.manner.style (x.manner.loaded program) emptied)

def carryOut (args : List String) : IO UInt32 := do
  match Invocation.parse args with
  | .error notice => conclude notice.report
  | .ok x =>
    match x.task with
    | .help => conclude (Notice.shown mainHelp).report
    | .check path => conclude (checkCommand x.manner path { files := ← filesAt [normalPath path] })
    | .run o =>
      let w : World :=
        { files := ← filesAt (normalPath o.program :: [o.input, o.output].map (·.getD "-")) }
      match loadFile w.files o.program with
      | .error f => conclude (f.report x.manner.style "" none)
      | .ok program =>
        match o.launch w.files program none with
        | .error f emptied => giveUp f emptied x o program
        | .ok l _ => execute l x o w

end TapeLang.Command.Terminal

def main (args : List String) : IO UInt32 :=
  TapeLang.Command.Terminal.carryOut args
