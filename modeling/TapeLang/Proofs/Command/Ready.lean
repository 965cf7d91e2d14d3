import TapeLang.Command.Invoke
import TapeLang.Proofs.Command.Words
import TapeLang.Proofs.Machine.Runs

/-!
# Requests that can be carried out

* `RunRequest.Ready` — a request whose program loads, whose options have values, and whose streams
  can be opened. A file is not to be read and written at once.
* `Ready.invoke_eq` — the command line then comes to the report on the launch that is asked for.
* `Origin.item`, `Origin.Feeds` — what the read calls of the execution bring, and an input that
  brings the same.
* `Launch.exists_run` — the execution comes to what a run of the machine on such an input comes to,
  whether it reads standard input, a file or a device without end.
-/

namespace TapeLang

theorem Config.sized_natCast (c : Config) : Config.sized c.tapeLength c.cellWidth =
    .ok { tapeLength := c.tapeLength, cellWidth := c.cellWidth, tapeLength_pos := c.tapeLength_pos,
          cellWidth_pos := c.cellWidth_pos } := by
  have hlength : (1 : Int) ≤ c.tapeLength := Int.ofNat_le.mpr c.tapeLength_pos
  have hwidth : (1 : Int) ≤ c.cellWidth := Int.ofNat_le.mpr c.cellWidth_pos
  simp only [sized, dif_pos hlength, dif_pos hwidth, Int.toNat_natCast]

namespace Command

variable {o : RunOptions} {files : Files} {c : Config} {limit : Option Int}
  {origin : Origin} {destination : Destination}

/-! ## Options -/

/-- **Options that ask for a configuration**, and for a limit to the number of steps. -/
structure RunOptions.Chooses (o : RunOptions) (c : Config) (limit : Option Int) : Prop where
  cellOverflow : o.cellOverflow = .given c.cellOverflow
  pointerOverflow : o.pointerOverflow = .given c.pointerOverflow
  eof : o.eof = .given c.eof
  tapeLength : o.tapeLength = .given c.tapeLength
  cellWidth : o.cellWidth = .given c.cellWidth
  maxSteps : o.maxSteps = .given limit

/-- **Where options let a program read from**: a dash is standard input, any other path is to lead
to something. -/
inductive RunOptions.ReadsFrom (o : RunOptions) (files : Files) : Origin → Prop
  | stdin : o.input = .given "-" → ReadsFrom o files .stdin
  | opened {path : String} {target : Target} {contents : List UInt8} : o.input = .given path →
    path ≠ "-" →
      files.find path = .ok (target, contents) → ReadsFrom o files (.opened target contents)

/-- **Where options let a program write to.** -/
inductive RunOptions.WritesTo (o : RunOptions) (files : Files) : Destination → Prop
  | stdout : o.output = .given "-" → WritesTo o files .stdout
  | opened {path : String} {target : Target} : o.output = .given path → path ≠ "-" →
      files.create path = .ok target → WritesTo o files (.opened target)

theorem RunOptions.Chooses.config_eq (h : o.Chooses c limit) : o.config = .ok c := by
  simp only [RunOptions.config, h.cellOverflow, h.pointerOverflow, h.eof, h.tapeLength, h.cellWidth,
    Setting.orError_given, Setting.getD_given, Config.sized_natCast, bind, Except.bind,
      Except.mapError]
  rfl

theorem RunOptions.ReadsFrom.origin_eq (h : o.ReadsFrom files origin) :
    o.origin files = .ok origin := by
  cases h with
  | stdin hinput =>
      rw [RunOptions.origin, hinput]
      rfl
  | opened hinput hpath hfind =>
      simp only [RunOptions.origin, hinput, Setting.orError_given, bind, Except.bind, if_neg hpath,
        hfind]
      rfl

theorem RunOptions.WritesTo.destination_eq (h : o.WritesTo files destination) :
    o.destination files = .ok destination := by
  cases h with
  | stdout houtput =>
      rw [RunOptions.destination, houtput]
      rfl
  | opened houtput hpath hcreate =>
      simp only [RunOptions.destination, houtput, Setting.orError_given, bind, Except.bind,
        if_neg hpath, hcreate]
      rfl

/-! ## Requests -/

/-- The style in which a request is answered. -/
def RunRequest.manner (q : RunRequest) : Manner :=
  q.invocation.manner

/-- **A request that can be carried out**, by the launch `l`: the program is there, can be read to
its end and loads, the options have values, and the streams can be opened. What is read is not what
is written. -/
structure RunRequest.Ready (q : RunRequest) (w : World) (l : Launch) : Prop where
  program : ∃ target source, w.files.find (normalPath q.program) = .ok (target, source) ∧
    target.endless = false ∧ Program.load source = .ok l.machine.program
  config : q.options.Chooses l.machine.config l.maxSteps
  origin : q.options.ReadsFrom w.files l.origin
  destination : q.options.WritesTo w.files l.destination
  apart : ∀ name contents, l.origin = .opened (.file name) contents →
    l.destination ≠ .opened (.file name)

namespace RunRequest

variable {q : RunRequest} {w : World} {l : Launch}

theorem options_program (q : RunRequest) : q.options.program = q.program := by
  have hset : ∀ (fs : List Flag) (o : RunOptions), (fs.foldl (fun o f => f.set o) o).program =
    o.program := by
    intro fs
    induction fs with
    | nil => exact fun _ => rfl
    | cons f fs ih => exact fun o => (ih (f.set o)).trans (by cases f <;> rfl)
  exact hset q.flags _

/-- Every command line that is understood as a run, whose options have values, makes a request. -/
theorem exists_request {x : Invocation} (htask : x.task = .run o) (hchooses : o.Chooses c limit)
    (hreads : o.ReadsFrom files origin) (hwrites : o.WritesTo files destination) :
    ∃ q : RunRequest, q.invocation = x := by
  obtain ⟨input, hinput⟩ : ∃ path, o.input = .given path := by
    cases hreads with
    | stdin h => exact ⟨_, h⟩
    | opened h _ _ => exact ⟨_, h⟩
  obtain ⟨output, houtput⟩ : ∃ path, o.output = .given path := by
    cases hwrites with
    | stdout h => exact ⟨_, h⟩
    | opened h _ _ => exact ⟨_, h⟩
  obtain ⟨task, color, verbose⟩ := x
  obtain ⟨program, _, _, _, _, _, _, _, _, stats⟩ := o
  obtain rfl : task = _ := htask
  obtain ⟨rfl, rfl, rfl, rfl, rfl, rfl⟩ := hchooses
  obtain rfl := hinput
  obtain rfl := houtput
  let flags : List Flag := [.input input, .output output, .cellOverflow c.cellOverflow,
    .pointerOverflow c.pointerOverflow, .eof c.eof, .tapeLength c.tapeLength,
      .cellWidth c.cellWidth]
  cases limit with
  | none => exact ⟨⟨program, flags, stats, color, verbose⟩, rfl⟩
  | some k => exact ⟨⟨program, flags ++ [.maxSteps k], stats, color, verbose⟩, rfl⟩

theorem Ready.loadFile_eq (h : q.Ready w l) :
    loadFile w.files q.options.program = .ok l.machine.program := by
  obtain ⟨target, source, hfind, hend, hload⟩ := h.program
  simp only [loadFile, options_program, hfind, hload, hend, Bool.false_eq_true, if_false]

theorem Ready.launch_eq (h : q.Ready w l) :
    q.options.launch w.files l.machine.program none = .ok l l.destination.file? := by
  simp only [RunOptions.launch_eq, h.config.config_eq, h.origin.origin_eq,
    h.destination.destination_eq,
    h.config.maxSteps, Setting.orError_given]

theorem Ready.paired (h : q.Ready w l) : l.machine.program.Paired := by
  obtain ⟨_, _, _, _, hload⟩ := h.program
  exact Program.paired_of_load hload

/-- **What comes of the command line** is the report on the execution. -/
theorem Ready.invoke_eq (h : q.Ready w l) {args : List String}
    (hargs : Invocation.parse args = .ok q.invocation) (fuel : Nat) :
    invoke fuel w args = (l.run fuel w).map (l.report q.manner q.options w) := by
  simp only [invoke, hargs, invocation, runCommand, h.loadFile_eq, h.launch_eq]
  rfl

theorem Ready.supply_ne_written (h : q.Ready w l) : l.supply ≠ .written := by
  unfold Launch.supply
  split
  · rename_i name contents target horigin hdestination
    have hne : target ≠ .file name := by
      rintro rfl
      exact h.apart name contents horigin hdestination
    rw [if_neg hne]
    exact nofun
  · split <;> exact nofun
  · exact nofun

end RunRequest

/-! ## Input -/

/-- What the read call behind `j` others brings. A file ends behind its contents, a device of zero
bytes does not. -/
def Origin.item (origin : Origin) (stdin : List Reading) (j : Nat) : Reading :=
  match origin with
  | .stdin => stdin.getD j (.chunk [])
  | .opened target contents =>
    if target.endless then .chunk [contents.getD j 0] else (Input.ofBytes contents).item j

/-- **An input that brings what an execution reads**, for its first `count` read calls. -/
structure Origin.Feeds (origin : Origin) (stdin : List Reading) (count : Nat) (input : Input) :
    Prop where
  fresh : input.reads = 0
  items : ∀ j < count, input.item j = origin.item stdin j

namespace Launch

variable {l : Launch} {w : World} {input : Input} {count : Nat}

/-- An execution that is not supplied from the file that it writes is supplied with zero bytes if it
reads a device that never ends, and not at all otherwise. -/
theorem supply_opened {target : Target} {contents : List UInt8} (hsupply : l.supply ≠ .written)
    (horigin : l.origin = .opened target contents) :
    l.supply = if target.endless then .zeros else .none := by
  unfold supply at hsupply ⊢
  split
  · rename_i name contents' written horigin' hdestination
    rw [horigin', hdestination] at hsupply
    cases horigin.symm.trans horigin'
    have hne : written ≠ .file name := fun heq => hsupply (if_pos heq)
    rw [if_neg hne]
    rfl
  · rename_i horigin' _
    cases horigin.symm.trans horigin'
    rfl
  · rename_i horigin'
    cases horigin.symm.trans horigin'

theorem feeds_cases (h : l.origin.Feeds w.stdin count input) (hsupply : l.supply ≠ .written) :
    (l.supply = .none ∧ Streams.AgreeUpTo count ⟨input, l.output w⟩ (l.streams w)) ∨
      (l.supply = .zeros ∧ Streams.ZerosBehind count ⟨input, l.output w⟩ (l.streams w)) := by
  have hreads : (l.streams w).input.reads = input.reads := h.fresh.symm
  have hitems : ∀ j, input.reads + j < count → input.item j = l.origin.item w.stdin j := by
    intro j hj
    rw [h.fresh, Nat.zero_add] at hj
    exact h.items j hj
  cases horigin : l.origin with
  | stdin =>
      have hnone : l.supply = .none := by simp only [supply, horigin]
      refine .inl ⟨hnone, hreads, fun j hj => ?_, rfl⟩
      rw [hitems j hj, horigin, streams, readings, horigin]
      rfl
  | opened target contents =>
      have hreadings : (l.streams w).input.pending = (Input.ofBytes contents).pending := by
        simp only [streams, readings, horigin, if_neg hsupply]
      have hwhich := supply_opened hsupply horigin
      cases hend : target.endless with
      | false =>
          rw [hend] at hwhich
          refine .inl ⟨hwhich, hreads, fun j hj => ?_, rfl⟩
          rw [hitems j hj, horigin, Origin.item, hend]
          exact congrArg (·.getD j (.chunk [])) hreadings
      | true =>
          rw [hend] at hwhich
          refine .inr ⟨hwhich, hreads, fun j hj => ?_, rfl⟩
          rw [hitems j hj, horigin, Origin.item, hend, hreadings]
          simp [Input.ofBytes, List.getD_eq_getElem?_getD, List.getElem?_map]

/-- **The execution comes to what the machine comes to on an input that feeds it**, and on an output
that takes what is written as the destination does. -/
theorem exists_run {halt : Halt} (hsupply : l.supply ≠ .written)
    (hr : l.machine.Runs l.maxSteps l.machine.start ⟨input, l.output w⟩ halt)
    (hfeeds : l.origin.Feeds w.stdin halt.streams.input.reads input) :
    ∃ halt' n, (∀ fuel ≥ n, l.run fuel w = some halt') ∧ halt.SameAs halt' := by
  rcases feeds_cases hfeeds hsupply with ⟨hnone, hagree⟩ | ⟨hzeros, hbehind⟩
  · obtain ⟨halt', hr', hsame⟩ := hr.sameAs (Nat.le_refl _) hagree
    obtain ⟨n, hn⟩ := hr'.run
    refine ⟨halt', n, fun fuel hfuel => ?_, hsame⟩
    rw [run, hnone]
    exact hn fuel hfuel
  · obtain ⟨halt', n, hn, hsame⟩ := hr.runSupplied_zeros (Nat.le_refl _) hbehind 0
    refine ⟨halt', n, fun fuel hfuel => ?_, hsame⟩
    rw [run, hzeros]
    exact hn fuel hfuel

end Launch

end Command

end TapeLang
