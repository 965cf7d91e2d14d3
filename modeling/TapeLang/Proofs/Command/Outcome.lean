import TapeLang.Proofs.Command.Ready
import TapeLang.Proofs.Machine.Planned
import TapeLang.Proofs.Program.Loading

/-!
# What a command line that asks for a run comes to

* `World.Takes`, `World.Flushes` — a destination that takes so many bytes, and one that can be
  flushed when so many have been written.
* `Report.Delivers` — all that was written is where it was to go; `Report.EndsWith` — the line that
  is told last.
* `Report.Carries`, `Ready.invoke_agrees` — the command agrees with the interpreter: what an
  execution comes to is what the command line that asks for it reports, as far as the destination
  takes it.
* `Report.TellsInterrupt`, `Ready.invoke_interrupted` — what it reports of an execution that the
  user interrupts.
-/

namespace TapeLang

theorem Halt.SameAs.execution_eq {h h' : Halt} (hsame : h.SameAs h') :
    h'.execution = h.execution := by
  rw [Halt.execution, Halt.execution, hsame.stop, hsame.state]

theorem Machine.exists_execute {m : Machine} {fuel : Nat} {limit : Option Int} {s : State}
    {io : Streams} {stop : Stop} {bytes : Array UInt8}
    (hrun : (m.run fuel limit s io).map (fun h => (h.stop, h.streams.output.bytes)) =
      some (stop, bytes)) :
    ∃ h : Halt, m.call fuel (.execute limit) s io =
        some ⟨h.execution.map .reported, h.state, h.streams⟩ ∧
      h.stop = stop ∧ h.streams.output.bytes = bytes := by
  obtain ⟨h, hh, heq⟩ := Option.map_eq_some_iff.mp hrun
  obtain ⟨hstop, hbytes⟩ := Prod.mk.inj heq
  exact ⟨h, by rw [call, hh]; rfl, hstop, hbytes⟩

namespace Command

/-! ## Lines -/

/-- A text of whole lines. -/
def IsLines (text : String) : Prop :=
  ∃ texts : List String, text = String.join (texts.map line)

theorem isLines_empty : IsLines "" :=
  ⟨[], rfl⟩

theorem isLines_line (text : String) : IsLines (line text) :=
  ⟨[text], by simp⟩

theorem IsLines.append {a b : String} (ha : IsLines a) (hb : IsLines b) : IsLines (a ++ b) := by
  obtain ⟨as, rfl⟩ := ha
  obtain ⟨bs, rfl⟩ := hb
  exact ⟨as ++ bs, by simp [String.join_append]⟩

theorem isLines_debug (m : Manner) (part text : String) : IsLines (m.debug part text) := by
  unfold Manner.debug
  split
  · exact isLines_line _
  · exact isLines_empty

theorem isLines_executed (m : Manner) (machine : Machine) (h : Halt) :
    IsLines (m.executed machine h) := by
  refine (isLines_debug _ _ _).append ?_
  split
  · exact isLines_debug _ _ _
  · exact isLines_empty
  · exact isLines_debug _ _ _

theorem isLines_statistics (l : Launch) (style : Style) (o : RunOptions) (x : Execution) :
    IsLines (l.statistics style o x) :=
  ((isLines_line _).append (isLines_line _)).append (isLines_line _)

/-! ## Reports -/

/-- **All that was written is where it was to go**, and nothing is anywhere else. -/
def Report.Delivers (r : Report) (destination : Destination) (bytes : List UInt8) : Prop :=
  match destination with
  | .stdout => r.stdout = bytes ∧ r.written = none
  | .opened (.file name) => r.stdout = [] ∧ r.written = some (name, bytes)
  | .opened (.device _) => r.stdout = [] ∧ r.written = none

/-- The user does not interrupt the calls of an output. -/
structure Sink.Uninterrupted (sink : Sink) : Prop where
  plan : ∀ j f, sink.plan j = some f → f.kind ≠ .interrupt
  flush : ∀ count f, sink.flush count = some f → f.kind ≠ .interrupt

/-- A destination whose write calls take the first `count` bytes. -/
def World.Takes (w : World) (destination : Destination) (count : Nat) : Prop :=
  ∀ j < count, match destination with
    | .stdout => w.stdoutPlan j = none
    | .opened target => (w.files.sink target).plan j = none

/-- A destination that can be flushed when `count` bytes have been written to it. -/
def World.Flushes (w : World) (destination : Destination) (count : Nat) : Prop :=
  match destination with
  | .stdout => w.stdoutFault = none ∨ count = 0
  | .opened target => (w.files.sink target).flush count = none

/-- A destination that has no room for a byte. -/
def World.IsFull (w : World) (destination : Destination) : Prop :=
  match destination with
  | .stdout => w.stdoutFault ≠ none
  | .opened target => w.files.sink target = .full

/-- The line that is told last. -/
def Report.EndsWith (r : Report) (text : String) : Prop :=
  ∃ told, IsLines told ∧ r.stderr = told ++ line text

/-- **A report that agrees with an execution** that has written these bytes, on an output that took
them all. -/
structure Report.Carries (r : Report) (q : RunRequest) (w : World) (l : Launch) (x : Execution)
    (bytes : List UInt8) : Prop where
  status : r.status = 0 ∨ r.status = 1
  /-- If the destination takes the bytes too, it holds them, and the status tells of success exactly
  if the execution succeeded and the bytes can be flushed. -/
  delivers : w.Takes l.destination bytes.length → r.Delivers l.destination bytes
  success : w.Takes l.destination bytes.length →
    (r.status = 0 ↔ x.error = none ∧ w.Flushes l.destination bytes.length)
  told : w.Takes l.destination bytes.length → w.Flushes l.destination bytes.length →
    ∀ e, x.error = some e → r.EndsWith (q.manner.style.failed e.message)
  /-- If it does not, it holds the bytes before the first that it refuses. -/
  refused : ∀ k < bytes.length, w.Takes l.destination k → ¬w.Takes l.destination (k + 1) →
    r.status = 1 ∧ r.Delivers l.destination (bytes.take k)
  /-- On a full output only an execution that has written nothing succeeds. -/
  full : w.IsFull l.destination → (r.status = 0 ↔ x.error = none ∧ bytes = [])
  /-- The file that is read from is not changed. -/
  kept : ∀ name contents, l.origin = .opened (.file name) contents → ∀ f ∈ r.written, f.1 ≠ name

/-- **A report on an execution that the user has interrupted** after it has written these bytes.
What flushing them raises comes later than the interrupt, and goes before it. -/
structure Report.TellsInterrupt (r : Report) (q : RunRequest) (w : World) (l : Launch)
    (bytes : List UInt8) : Prop where
  delivers : r.Delivers l.destination bytes
  interrupted : (∀ f, (w.sink l.destination).flush bytes.length = some f → f.kind = .interrupt) →
    r.status = 130 ∧ r.EndsWith (q.manner.style.failed "Interrupted")
  refused : ∀ f, (w.sink l.destination).flush bytes.length = some f → f.kind ≠ .interrupt →
    r.status = 1
  flushed : w.Flushes l.destination bytes.length → r.status = 130
  full : w.IsFull l.destination → (w.sink l.destination).Uninterrupted →
    r.status = if bytes = [] then 130 else 1

theorem Report.Delivers.destination_eq {r : Report} {destination : Destination} {bytes : List UInt8}
    (h : r.Delivers destination bytes) {f : String × List UInt8} (hf : f ∈ r.written) :
    destination = .opened (.file f.1) := by
  cases destination with
  | stdout => cases h.2.symm.trans hf
  | opened target =>
      cases target with
      | file name => cases h.2.symm.trans hf; rfl
      | device d => cases h.2.symm.trans hf

/-! ### Destinations -/

section Destinations

variable {w : World} {destination : Destination} {count k : Nat}

theorem takes_iff :
    w.Takes destination count ↔ ∀ j < count, (w.sink destination).plan j = none := by
  cases destination <;> exact Iff.rfl

theorem flushes_iff : w.Flushes destination count ↔ (w.sink destination).flush count = none := by
  cases destination with
  | stdout =>
      cases hf : w.stdoutFault <;> simp [World.Flushes, World.sink, hf]
  | opened target => exact Iff.rfl

theorem flushes_of_full (hfull : w.IsFull destination) :
    w.Flushes destination count ↔ count = 0 := by
  cases destination with
  | stdout =>
      have hfault : w.stdoutFault ≠ none := hfull
      simp [World.Flushes, hfault]
  | opened target =>
      have hsink : w.files.sink target = .full := hfull
      simp [World.Flushes, hsink, Sink.full]

theorem eq_of_takes {k' : Nat} (hk : w.Takes destination k) (hk' : w.Takes destination k')
    (h : ¬w.Takes destination (k + 1)) (h' : ¬w.Takes destination (k' + 1)) : k = k' := by
  have hle : ∀ {i j}, w.Takes destination i → ¬w.Takes destination (j + 1) → i ≤ j := by
    intro i j hi hj
    by_contra hlt
    exact hj fun n hn => hi n (by omega)
  exact Nat.le_antisymm (hle hk h') (hle hk' h)

end Destinations

namespace Launch

variable {l : Launch} {w : World} {m : Manner} {o : RunOptions} {h : Halt} {x : Execution}
  {f : StreamFault}

theorem report_delivers (l : Launch) (m : Manner) (o : RunOptions) (w : World) (h : Halt) :
    (l.report m o w h).Delivers l.destination h.streams.output.bytes.toList := by
  cases hd : l.destination with
  | stdout => simp [Report.Delivers, report, hd]
  | opened target =>
      cases target with
      | file name => simp [Report.Delivers, report, hd]
      | device d => simp [Report.Delivers, report, hd]

theorem report_status (l : Launch) (m : Manner) (o : RunOptions) (w : World) (h : Halt) :
    (l.report m o w h).status = (l.conclusion m.style o (l.outcome w h)).1 :=
  rfl

theorem isLines_before (l : Launch) (m : Manner) (h : Halt) :
    IsLines (m.loaded l.machine.program ++ m.executed l.machine h) :=
  (isLines_debug _ _ _).append (isLines_executed m l.machine h)

theorem report_endsWith {told text : String} (htold : IsLines told)
    (hlast : (l.conclusion m.style o (l.outcome w h)).2 = told ++ line text) :
    (l.report m o w h).EndsWith text := by
  refine ⟨_, (isLines_before l m h).append htold, ?_⟩
  rw [String.append_assoc, ← hlast]
  rfl

/-! ### Executions that came to a result -/

theorem conclusion_status (l : Launch) (style : Style) (o : RunOptions) (x : Execution) :
    (l.conclusion style o (.ok x)).1 = if x.error = none then 0 else 1 := by
  cases herror : x.error <;> simp [conclusion, herror]

theorem exists_conclusion {e : ExecutionError} (style : Style) (o : RunOptions)
    (he : x.error = some e) :
    ∃ told, IsLines told ∧ (l.conclusion style o (.ok x)).2 = told ++
      line (style.failed e.message) := by
  refine ⟨if o.stats then l.statistics style o x else "", ?_, by simp [conclusion, he]⟩
  split
  · exact isLines_statistics l style o x
  · exact isLines_empty

/-- **When the output is flushed, the report tells of the execution.** -/
theorem report_of_flushed (hflush : (w.sink l.destination).flush h.state.bytesWritten = none)
    (hx : h.execution = .ok x) :
    (l.report m o w h).status = (if x.error = none then 0 else 1) ∧
      ∀ e, x.error = some e → (l.report m o w h).EndsWith (m.style.failed e.message) := by
  have houtcome : l.outcome w h = .ok x := by rw [outcome, hflush, hx]
  refine ⟨?_, ?_⟩
  · rw [report_status, houtcome, conclusion_status]
  · intro e he
    obtain ⟨told, htold, hlast⟩ := exists_conclusion m.style o he
    exact report_endsWith htold (houtcome ▸ hlast)

/-- **When flushing the output fails, so does the command**, whatever the execution came to. -/
theorem report_of_fault (hflush : (w.sink l.destination).flush h.state.bytesWritten = some f)
    (hf : f.kind ≠ .interrupt) :
    (l.report m o w h).status = 1 := by
  obtain ⟨kind, message⟩ := f
  cases kind with
  | system errno =>
      have houtcome : l.outcome w h =
          .ok ⟨some ⟨.io ⟨.system errno, message⟩, h.state.ip, h.state.dp⟩, h.state⟩ := by
        rw [outcome, hflush]
        rfl
      rw [report_status, houtcome, conclusion_status]
      rfl
  | invalid =>
      have houtcome : l.outcome w h = .error (.stream ⟨.invalid, message⟩) := by
        rw [outcome, hflush]
        rfl
      rw [report_status, houtcome]
      rfl
  | interrupt => exact absurd rfl hf

/-- **The status tells of success** exactly if the execution succeeded and the output is flushed. -/
theorem report_status_eq_zero_iff (hsink : (w.sink l.destination).Uninterrupted)
    (hx : h.execution = .ok x) :
    (l.report m o w h).status = 0 ↔
      x.error = none ∧ (w.sink l.destination).flush h.state.bytesWritten = none := by
  cases hflush : (w.sink l.destination).flush h.state.bytesWritten with
  | none => cases herror : x.error <;> simp [(report_of_flushed hflush hx).1, herror]
  | some f => simp [report_of_fault hflush (hsink.flush _ _ hflush)]

theorem report_status_le_one (hsink : (w.sink l.destination).Uninterrupted)
    (hx : h.execution = .ok x) : (l.report m o w h).status = 0 ∨ (l.report m o w h).status = 1 := by
  cases hflush : (w.sink l.destination).flush h.state.bytesWritten with
  | none => cases herror : x.error <;> simp [(report_of_flushed hflush hx).1, herror]
  | some f => exact .inr (report_of_fault hflush (hsink.flush _ _ hflush))

/-- **When a write call fails, so does the command.** -/
theorem report_of_stop (hsink : (w.sink l.destination).Uninterrupted)
    (hstop : h.stop = .failed (Machine.streamFault h.state f)) (hf : f.kind ≠ .interrupt) :
    (l.report m o w h).status = 1 := by
  cases hflush : (w.sink l.destination).flush h.state.bytesWritten with
  | some g => exact report_of_fault hflush (hsink.flush _ _ hflush)
  | none =>
      have houtcome : l.outcome w h = h.execution := by rw [outcome, hflush]
      obtain ⟨kind, message⟩ := f
      rw [report_status, houtcome, Halt.execution, hstop]
      cases kind with
      | system errno => rfl
      | invalid => rfl
      | interrupt => exact absurd rfl hf

/-! ### Executions that were interrupted -/

theorem report_of_interrupt {message : String}
    (hstop : h.stop = .failed (.stream ⟨.interrupt, message⟩))
    (hflush : ∀ f, (w.sink l.destination).flush h.state.bytesWritten = some f →
      f.kind = .interrupt) :
    (l.report m o w h).status = 130 ∧
      (l.report m o w h).EndsWith (m.style.failed "Interrupted") := by
  obtain ⟨message', houtcome⟩ :
    ∃ message', l.outcome w h = .error (.stream ⟨.interrupt, message'⟩) := by
    cases hf : (w.sink l.destination).flush h.state.bytesWritten with
    | none => exact ⟨message, by rw [outcome, hf, Halt.execution, hstop]⟩
    | some f =>
        obtain ⟨kind, message'⟩ := f
        obtain rfl : kind = .interrupt := hflush _ hf
        exact ⟨message', by rw [outcome, hf]; rfl⟩
  refine ⟨by rw [report_status, houtcome]; rfl, ?_⟩
  exact report_endsWith isLines_empty (by rw [houtcome]; rfl)

theorem report_tellsInterrupt {q : RunRequest} {message : String} {bytes : List UInt8}
    (hstop : h.stop = .failed (.stream ⟨.interrupt, message⟩))
    (hbytes : h.streams.output.bytes.toList = bytes)
    (hcount : h.state.bytesWritten = bytes.length) :
    (l.report q.manner q.options w h).TellsInterrupt q w l bytes := by
  have hdelivers := report_delivers l q.manner q.options w h
  have hinterrupted := report_of_interrupt (l := l) (w := w) (m := q.manner) (o := q.options) hstop
  have hrefused : ∀ f, (w.sink l.destination).flush h.state.bytesWritten = some f →
      f.kind ≠ .interrupt → (l.report q.manner q.options w h).status = 1 :=
    fun f => report_of_fault
  rw [hbytes] at hdelivers
  rw [hcount] at hinterrupted hrefused
  have hflushed : w.Flushes l.destination bytes.length →
      (l.report q.manner q.options w h).status = 130 := by
    intro hflushes
    rw [flushes_iff] at hflushes
    exact (hinterrupted (by simp [hflushes])).1
  refine ⟨hdelivers, hinterrupted, hrefused, hflushed, ?_⟩
  intro hfull hsink
  split
  · rename_i hnil
    exact hflushed ((flushes_of_full hfull).mpr (List.length_eq_zero_iff.mpr hnil))
  · rename_i hsome
    cases hflush : (w.sink l.destination).flush bytes.length with
    | some f => exact hrefused f hflush (hsink.flush _ f hflush)
    | none =>
        have hzero := (flushes_of_full hfull).mp (flushes_iff.mpr hflush)
        exact absurd (List.length_eq_zero_iff.mp hzero) hsome

end Launch

/-! ## Command lines -/

/-! ### A program that writes and then reads -/

/-- The launch of `.,`, which reads from standard input. -/
def writeThenRead (destination : Destination) : Launch :=
  ⟨⟨⟨[0x2E, 0x2C], #[.write, .read], #[0, 1], #[none, none]⟩, { tapeLength := 2 }⟩, none, .stdin,
    destination⟩

/-- The request for it, with flags for the destination. -/
def writeThenReadRequest (flags : List Flag) : RunRequest :=
  { program := "p.b", flags := flags ++ [.tapeLength 2] }

/-- What it is executed in. -/
def writeThenReadWorld (stdin : List Reading) (stdoutFault : Option StreamFault) : World where
  files := FileTree.toFiles { files := [(["p.b"], [0x2E, 0x2C])] }
  stdin
  stdoutFault

section

variable {stdin : List Reading} {fault : Option StreamFault} {flags : List Flag}
  {destination : Destination}

theorem ready_writeThenRead (hread : (writeThenReadRequest flags).options.input = .given "-")
    (hwrite : (writeThenReadRequest flags).options.WritesTo (writeThenReadWorld stdin fault).files
      destination)
    (hchooses : (writeThenReadRequest flags).options.Chooses { tapeLength := 2 } none) :
    (writeThenReadRequest flags).Ready (writeThenReadWorld stdin fault)
      (writeThenRead destination) := by
  have hfind : (writeThenReadWorld [] none).files.find (normalPath "p.b") =
      .ok (.file "p.b", [0x2E, 0x2C]) := by
    decide +kernel
  have hload : Program.load [0x2E, 0x2C] = .ok (writeThenRead .stdout).machine.program := by decide
  exact ⟨⟨_, _, hfind, rfl, hload⟩, hchooses, .stdin hread, hwrite, nofun⟩

theorem ready_stdout : (writeThenReadRequest []).Ready (writeThenReadWorld stdin fault)
    (writeThenRead .stdout) :=
  ready_writeThenRead rfl (.stdout rfl) ⟨rfl, rfl, rfl, rfl, rfl, rfl⟩

theorem ready_fullDevice : (writeThenReadRequest [.output "/dev/full"]).Ready
    (writeThenReadWorld stdin fault) (writeThenRead (.opened (.device .full))) := by
  have hcreate : (writeThenReadWorld [] none).files.create "/dev/full" = .ok (.device .full) := by
    decide +kernel
  exact ready_writeThenRead rfl (.opened rfl (by decide) hcreate) ⟨rfl, rfl, rfl, rfl, rfl, rfl⟩

theorem spelled_stdout : (writeThenReadRequest []).Spelled ["run", "-m", "2", "p.b"] := by
  have hlength : (Flag.tapeLength 2).Spelled ["-m", "2"] := .letter rfl rfl (by simp [IsOperand])
  have hprogram : IsOperand "p.b" := by simp [IsOperand]
  exact ⟨[], _, rfl, .nil, .flag hlength (.program hprogram .nil)⟩

theorem spelled_fullDevice : (writeThenReadRequest [.output "/dev/full"]).Spelled
    ["run", "-o", "/dev/full", "-m", "2", "p.b"] := by
  have houtput : (Flag.output "/dev/full").Spelled ["-o", "/dev/full"] :=
    .letter rfl rfl (by simp [IsOperand])
  have hlength : (Flag.tapeLength 2).Spelled ["-m", "2"] := .letter rfl rfl (by simp [IsOperand])
  have hprogram : IsOperand "p.b" := by simp [IsOperand]
  exact ⟨[], _, rfl, .nil, .flag houtput (.flag hlength (.program hprogram .nil))⟩

theorem noSpace_ne_interrupt {p : Prop} [Decidable p] {f : StreamFault}
    (hf : (if p then some noSpace else none) = some f) : f.kind ≠ .interrupt := by
  split at hf
  · cases hf
    exact nofun
  · cases hf

theorem uninterrupted_plain : ({} : Sink).Uninterrupted :=
  ⟨nofun, nofun⟩

theorem uninterrupted_full : Sink.full.Uninterrupted :=
  ⟨fun _ _ hf => noSpace_ne_interrupt hf, fun _ _ hf => noSpace_ne_interrupt hf⟩

theorem uninterrupted_stdout :
    ((writeThenReadWorld stdin (some noSpace)).sink .stdout).Uninterrupted :=
  ⟨uninterrupted_plain.plan, fun _ _ hf => noSpace_ne_interrupt hf⟩

theorem isFull_stdout : (writeThenReadWorld stdin (some noSpace)).IsFull .stdout :=
  Option.some_ne_none noSpace

end

theorem exists_execution (destination : Destination) : ∃ a x,
    (writeThenRead destination).machine.call 2 (.execute none)
      (writeThenRead destination).machine.start ⟨{}, {}⟩ = some a ∧
      a.reply = .ok (.reported x) ∧ x.error = none ∧ a.streams.output.bytes = #[0] := by
  have hrun : ((writeThenRead .stdout).machine.run 2 none (writeThenRead .stdout).machine.start
      ⟨{}, {}⟩).map (fun h => (h.stop, h.streams.output.bytes)) = some (.finished, #[0]) := by
    decide +kernel
  obtain ⟨h, hcall, hstop, hbytes⟩ := Machine.exists_execute hrun
  have hx : h.execution = .ok ⟨none, h.state⟩ := by rw [Halt.execution, hstop]
  exact ⟨⟨h.execution.map .reported, h.state, h.streams⟩, ⟨none, h.state⟩, hcall,
    by rw [hx]; rfl, rfl, hbytes⟩

namespace RunRequest.Ready

variable {q : RunRequest} {w : World} {l : Launch}

/-- A run of the machine, on an input that feeds the execution and an output that takes what is
written as the destination does, comes to what the command line reports. -/
theorem exists_report (hready : q.Ready w l) {input : Input} {h : Halt}
    (hr : l.machine.Runs l.maxSteps l.machine.start ⟨input, l.output w⟩ h)
    (hfeeds : l.origin.Feeds w.stdin h.streams.input.reads input) {args : List String}
    (hargs : Invocation.parse args = .ok q.invocation) :
    ∃ h', h.SameAs h' ∧ h'.state.bytesWritten = h'.streams.output.bytes.toList.length ∧
      ∃ n, ∀ fuel ≥ n, invoke fuel w args = some (l.report q.manner q.options w h') := by
  obtain ⟨h', n, hrun, hsame⟩ := Launch.exists_run hready.supply_ne_written hr hfeeds
  have hcount := hr.bytesWritten hready.paired l.machine.inRange_start
  refine ⟨h', hsame, ?_, n, ?_⟩
  · rw [hsame.state, hsame.output, Array.length_toList]
    simpa [Machine.start, Launch.output] using hcount
  · intro fuel hfuel
    rw [hready.invoke_eq hargs, hrun fuel hfuel]
    rfl

theorem kept (hready : q.Ready w l) {r : Report} {bytes : List UInt8}
    (hdelivers : r.Delivers l.destination bytes) (name : String) (contents : List UInt8)
    (horigin : l.origin = .opened (.file name) contents) : ∀ f ∈ r.written, f.1 ≠ name := by
  rintro f hf rfl
  exact hready.apart f.1 contents horigin (hdelivers.destination_eq hf)

theorem carries_of_takes (hready : q.Ready w l) (hsink : (w.sink l.destination).Uninterrupted)
    {h : Halt} {x : Execution} {bytes : List UInt8} (hx : h.execution = .ok x)
    (hbytes : h.streams.output.bytes.toList = bytes)
    (hcount : h.state.bytesWritten = bytes.length) (htakes : w.Takes l.destination bytes.length) :
    (l.report q.manner q.options w h).Carries q w l x bytes := by
  have hdelivers := Launch.report_delivers l q.manner q.options w h
  rw [hbytes] at hdelivers
  have hsuccess := Launch.report_status_eq_zero_iff (m := q.manner) (o := q.options) hsink hx
  rw [hcount, ← flushes_iff] at hsuccess
  refine ⟨Launch.report_status_le_one hsink hx, fun _ => hdelivers, fun _ => hsuccess, ?_, ?_, ?_,
    hready.kept hdelivers⟩
  · intro _ hflushes
    rw [← hcount, flushes_iff] at hflushes
    exact (Launch.report_of_flushed hflushes hx).2
  · intro k hk _ hstops
    exact absurd (fun j hj => htakes j (Nat.lt_of_lt_of_le hj hk)) hstops
  · intro hfull
    rw [hsuccess, flushes_of_full hfull, List.length_eq_zero_iff]

theorem carries_of_refused (hready : q.Ready w l) (hsink : (w.sink l.destination).Uninterrupted)
    {h : Halt} {x : Execution} {bytes : List UInt8} {k : Nat} {g : StreamFault}
    (hstop : h.stop = .failed (Machine.streamFault h.state g))
    (hg : (w.sink l.destination).plan k = some g) (hk : k < bytes.length)
    (htakes : w.Takes l.destination k) (hbytes : h.streams.output.bytes.toList = bytes.take k) :
    (l.report q.manner q.options w h).Carries q w l x bytes := by
  have hdelivers := Launch.report_delivers l q.manner q.options w h
  rw [hbytes] at hdelivers
  have hstatus : (l.report q.manner q.options w h).status = 1 :=
    Launch.report_of_stop hsink hstop (hsink.plan k g hg)
  have hrefused : ¬w.Takes l.destination (k + 1) := by
    rw [takes_iff]
    intro h
    cases (h k (Nat.lt_succ_self k)).symm.trans hg
  have hshort : ¬w.Takes l.destination bytes.length := fun h =>
    hrefused fun j hj => h j (Nat.lt_of_lt_of_le hj hk)
  refine ⟨.inr hstatus, fun h => absurd h hshort, fun h => absurd h hshort,
    fun h => absurd h hshort, ?_, ?_, hready.kept hdelivers⟩
  · intro k' _ htakes' hrefused'
    obtain rfl := eq_of_takes htakes htakes' hrefused hrefused'
    exact ⟨hstatus, hdelivers⟩
  · intro _
    rw [hstatus]
    refine ⟨nofun, ?_⟩
    rintro ⟨-, rfl⟩
    exact absurd hk (Nat.not_lt_zero k)

/-- **The command agrees with the interpreter.** A command line that makes a request is understood,
however it is spelled. And if an execution of the program that is asked for, on an input that brings
what is asked for and an output that takes every byte, comes to a result, the command line comes to
a report with that result and with all that was written. The destination may refuse bytes, and
flushing may fail, as long as it is not the user who interrupts them. -/
theorem invoke_agrees (hready : q.Ready w l) {input : Input} {fuel : Nat} {a : Answer}
    {x : Execution}
    (hcall : l.machine.call fuel (.execute l.maxSteps) l.machine.start ⟨input, {}⟩ = some a)
    (hreply : a.reply = .ok (.reported x))
    (hfeeds : l.origin.Feeds w.stdin a.streams.input.reads input)
    (hsink : (w.sink l.destination).Uninterrupted) (args : List String) :
    (q.Spelled args → Invocation.parse args = .ok q.invocation) ∧
      (Invocation.parse args = .ok q.invocation →
        ∃ r n, (∀ fuel ≥ n, invoke fuel w args = some r) ∧
          r.Carries q w l x a.streams.output.bytes.toList) := by
  refine ⟨RunRequest.Spelled.parse, ?_⟩
  intro hargs
  obtain ⟨h, hrun, rfl⟩ := Option.map_eq_some_iff.mp hcall
  have hx : h.execution = .ok x := by
    cases hexecution : h.execution with
    | error f => simp [hexecution, Except.map] at hreply
    | ok y => simpa [hexecution, Except.map] using hreply
  -- The destination takes all that is written, or the execution stops at the first byte it refuses.
  rcases (Machine.runs_of_run hrun).under Output.plain_empty (w.sink l.destination).plan with
    ⟨htakes, hrun'⟩ | ⟨k, h₁, hrun', hstopped⟩
  · obtain ⟨h', hsame, hcount, n, hn⟩ := hready.exists_report hrun' hfeeds hargs
    have hbytes : h'.streams.output.bytes.toList = h.streams.output.bytes.toList :=
      congrArg (·.bytes.toList) hsame.output
    have hx' : h'.execution = .ok x := hsame.execution_eq.trans hx
    rw [hbytes] at hcount
    refine ⟨_, n, hn, hready.carries_of_takes hsink hx' hbytes hcount ?_⟩
    exact takes_iff.mpr fun j hj => htakes j (Nat.zero_le j) hj
  · have hfeeds' : l.origin.Feeds w.stdin h₁.streams.input.reads input :=
      ⟨hfeeds.fresh, fun j hj => hfeeds.items j (Nat.lt_of_lt_of_le hj hstopped.reads)⟩
    obtain ⟨h', hsame, _, n, hn⟩ := hready.exists_report hrun' hfeeds' hargs
    obtain ⟨g, hg, hstop⟩ := hstopped.stop
    rw [← hsame.stop, ← hsame.state] at hstop
    have hbytes : h'.streams.output.bytes.toList = h.streams.output.bytes.toList.take k :=
      (congrArg (·.bytes.toList) hsame.output).trans hstopped.bytes
    refine ⟨_, n, hn, hready.carries_of_refused hsink hstop hg hstopped.lt ?_ hbytes⟩
    exact takes_iff.mpr fun j hj => hstopped.before j (Nat.zero_le j) hj

/-- A program that writes the greatest byte and cannot count on from it: the byte is in the file,
and the last line tells what was wrong. -/
theorem invoke_agrees_midway :
    let p : Program := ⟨[0x2C, 0x2E, 0x2B], #[.read, .write, .increment], #[0, 1, 2],
      #[none, none, none]⟩
    let w : World :=
      { files := FileTree.toFiles { files := [(["p.b"], p.source), (["in"], [0xFF])] } }
    let l : Launch :=
      ⟨⟨p, { cellOverflow := .check, tapeLength := 2 }⟩, none, .opened (.file "in") [0xFF],
      .opened (.file "out")⟩
    let q : RunRequest :=
      { program := "p.b",
        flags := [.cellOverflow .check, .input "in", .output "out", .tapeLength 2],
        color := false }
    let args : List String := ["--no-color", "run", "-w", "check", "p.b", "--input=in", "--output",
      "out", "-m", "2"]
    (q.Spelled args ∧ q.Ready w l ∧ ∃ r n, (∀ fuel ≥ n, invoke fuel w args = some r) ∧
      r.status = 1 ∧
      r.written = some ("out", [0xFF]) ∧
      r.EndsWith "  ✗ runtime error: attempt to add with overflow: 255 + 1 (at instruction 2)") ∧
    (∃ r n, (∀ fuel ≥ n, invoke fuel (writeThenReadWorld [] (some noSpace))
      ["run", "-m", "2", "p.b"] = some r) ∧ r.stdout = [0] ∧ r.status = 1) ∧
    ∃ r n, (∀ fuel ≥ n, invoke fuel (writeThenReadWorld [] none)
      ["run", "-o", "/dev/full", "-m", "2", "p.b"] = some r) ∧ r.written = none ∧ r.status = 1 := by
  intro p w l q args
  have hspelled : q.Spelled args := by
    have hoverflow : (Flag.cellOverflow .check).Spelled ["-w", "check"] :=
      .letter rfl rfl (by simp [IsOperand])
    have hinput : (Flag.input "in").Spelled ["--input=in"] :=
      @Flag.Spelled.joined (.input "in") "in" rfl (by decide)
    have houtput : (Flag.output "out").Spelled ["--output", "out"] :=
      .apart rfl (by simp [IsOperand])
    have hlength : (Flag.tapeLength 2).Spelled ["-m", "2"] := .letter rfl rfl (by simp [IsOperand])
    have hprogram : IsOperand "p.b" := by simp [IsOperand]
    exact ⟨["--no-color"], _, rfl, .plain .nil,
      .flag hoverflow (.program hprogram (.flag hinput (.flag houtput (.flag hlength .nil))))⟩
  have hready : q.Ready w l := by
    have hfind : w.files.find (normalPath "p.b") = .ok (.file "p.b", p.source) := by decide +kernel
    have hopen : w.files.find "in" = .ok (.file "in", [0xFF]) := by decide +kernel
    have hcreate : w.files.create "out" = .ok (.file "out") := by decide +kernel
    refine ⟨⟨_, _, hfind, rfl, by decide⟩, ⟨rfl, rfl, rfl, rfl, rfl, rfl⟩,
      .opened rfl (by decide) hopen,
      .opened rfl (by decide) hcreate, ?_⟩
    rintro _ _ ⟨⟩
    decide
  have hrun : (l.machine.run 9 l.maxSteps l.machine.start ⟨.ofBytes [0xFF], {}⟩).map
      (fun h => (h.stop, h.streams.output.bytes)) =
      some (.failed (.execution ⟨.arithmeticOverflow 255, 2, 0⟩), #[0xFF]) := by
    decide +kernel
  obtain ⟨h, hcall, hstop, hbytes⟩ := Machine.exists_execute hrun
  have hreply : h.execution.map Reply.reported =
      .ok (.reported ⟨some ⟨.arithmeticOverflow 255, 2, 0⟩, h.state⟩) := by
    rw [Halt.execution, hstop]
    rfl
  have hfeeds : l.origin.Feeds w.stdin h.streams.input.reads (.ofBytes [0xFF]) :=
    ⟨rfl, fun _ _ => rfl⟩
  obtain ⟨hparse, hreport⟩ := hready.invoke_agrees hcall hreply hfeeds uninterrupted_plain args
  obtain ⟨r, n, hn, hr⟩ := hreport (hparse hspelled)
  have htakes : ∀ count, w.Takes l.destination count := fun _ _ _ => rfl
  have hwritten := (hr.delivers (htakes _)).2
  rw [hbytes] at hwritten
  have hstatus : r.status = 1 := by
    refine hr.status.resolve_left fun hzero => ?_
    cases ((hr.success (htakes _)).mp hzero).1
  have htold := hr.told (htakes _) rfl _ rfl
  have hmessage : q.manner.style.failed (ExecutionError.message ⟨.arithmeticOverflow 255, 2, 0⟩) =
      "  ✗ runtime error: attempt to add with overflow: 255 + 1 (at instruction 2)" := by
    decide +kernel
  rw [hmessage] at htold
  refine ⟨⟨hspelled, hready, r, n, hn, hstatus, hwritten, htold⟩, ?_, ?_⟩
  · obtain ⟨a, x, hcall, hreply, _, hbytes⟩ := exists_execution .stdout
    obtain ⟨hparse, hreport⟩ := (@ready_stdout [] (some noSpace)).invoke_agrees
      hcall hreply ⟨rfl, fun _ _ => rfl⟩ uninterrupted_stdout _
    obtain ⟨r, n, hn, hr⟩ := hreport (hparse spelled_stdout)
    rw [hbytes] at hr
    refine ⟨r, n, hn, (hr.delivers fun _ _ => rfl).1, hr.status.resolve_left fun hzero => ?_⟩
    cases ((hr.full isFull_stdout).mp hzero).2
  · obtain ⟨a, x, hcall, hreply, _, hbytes⟩ := exists_execution (.opened (.device .full))
    obtain ⟨hparse, hreport⟩ := (@ready_fullDevice [] none).invoke_agrees
      hcall hreply ⟨rfl, fun _ _ => rfl⟩ uninterrupted_full _
    obtain ⟨r, n, hn, hr⟩ := hreport (hparse spelled_fullDevice)
    rw [hbytes] at hr
    have htakes : (writeThenReadWorld [] none).Takes (.opened (.device .full)) 1 := by
      unfold World.Takes
      decide
    refine ⟨r, n, hn, (hr.delivers htakes).2, hr.status.resolve_left fun hzero => ?_⟩
    cases ((hr.full rfl).mp hzero).2

theorem exists_report_of_interrupt (hready : q.Ready w l) (hstdin : l.origin = .stdin) {fuel : Nat}
    {a : Attempt} {message : String}
    (ha : a ∈ l.machine.runAttempts fuel l.maxSteps l.machine.start
      ⟨{ pending := w.stdin }, l.output w⟩)
    (hreading : a.reading? = some (.fault ⟨.interrupt, message⟩)) {args : List String}
    (hargs : Invocation.parse args = .ok q.invocation) :
    ∃ r n, (∀ fuel ≥ n, invoke fuel w args = some r) ∧
      r.TellsInterrupt q w l a.streams.output.bytes.toList := by
  have hrun := Machine.run_of_reading ha hreading
  have hfeeds : l.origin.Feeds w.stdin a.streams.input.advance.reads { pending := w.stdin } := by
    refine ⟨rfl, fun j _ => ?_⟩
    rw [hstdin]
    rfl
  obtain ⟨h', hsame, hcount, n, hn⟩ := hready.exists_report (Machine.runs_of_run hrun) hfeeds hargs
  have hbytes : h'.streams.output.bytes.toList = a.streams.output.bytes.toList :=
    congrArg (·.bytes.toList) hsame.output
  rw [hbytes] at hcount
  exact ⟨_, n, hn, Launch.report_tellsInterrupt hsame.stop hbytes hcount⟩

/-- **What an interrupted execution comes to.** When a read call on standard input is interrupted,
the command line comes to a report: its status is 130 if the output can be flushed then, whatever
was written before. If it cannot, that is what the status tells. -/
theorem invoke_interrupted (hready : q.Ready w l) (hstdin : l.origin = .stdin) {fuel : Nat}
    {a : Attempt} {message : String}
    (ha : a ∈ l.machine.runAttempts fuel l.maxSteps l.machine.start
      ⟨{ pending := w.stdin }, l.output w⟩)
    (hreading : a.reading? = some (.fault ⟨.interrupt, message⟩)) (args : List String) :
    (q.Spelled args → Invocation.parse args = .ok q.invocation) ∧
      (Invocation.parse args = .ok q.invocation →
        ∃ r n, (∀ fuel ≥ n, invoke fuel w args = some r) ∧
          r.TellsInterrupt q w l a.streams.output.bytes.toList) :=
  ⟨RunRequest.Spelled.parse,
    fun hargs => hready.exists_report_of_interrupt hstdin ha hreading hargs⟩

theorem exists_interrupt {sink : Sink} (hsink : sink = {} ∨ sink = .full) :
    ∃ a ∈ (writeThenRead .stdout).machine.runAttempts 2 none (writeThenRead .stdout).machine.start
      ⟨{ pending := [.fault ⟨.interrupt, ""⟩] }, { plan := sink.plan }⟩,
      a.reading? = some (.fault ⟨.interrupt, ""⟩) ∧ a.streams.output.bytes = #[0] := by
  have hany :
      ((writeThenRead .stdout).machine.runAttempts 2 none (writeThenRead .stdout).machine.start
        ⟨{ pending := [.fault ⟨.interrupt, ""⟩] }, { plan := sink.plan }⟩).any
        (fun a => a.reading? = some (.fault ⟨.interrupt, ""⟩) ∧ a.streams.output.bytes = #[0]) =
          true := by
    rcases hsink with rfl | rfl <;> decide +kernel
  obtain ⟨a, ha, hfacts⟩ := List.any_eq_true.mp hany
  exact ⟨a, ha, of_decide_eq_true hfacts⟩

/-- On a standard output that takes all that is written, the status is 130. -/
theorem invoke_interrupted_flushed :
    (∃ a ∈ (writeThenRead .stdout).machine.runAttempts 2 none (writeThenRead .stdout).machine.start
      ⟨{ pending := [.fault ⟨.interrupt, ""⟩] }, {}⟩,
      a.reading? = some (.fault ⟨.interrupt, ""⟩)) ∧
      ∃ r n, (∀ fuel ≥ n, invoke fuel (writeThenReadWorld [.fault ⟨.interrupt, ""⟩] none)
        ["run", "-m", "2", "p.b"] = some r) ∧ r.stdout = [0] ∧ r.status = 130 := by
  obtain ⟨a, ha, hreading, hbytes⟩ := exists_interrupt (.inl rfl)
  obtain ⟨hparse, hreport⟩ := ready_stdout.invoke_interrupted rfl ha hreading _
  obtain ⟨r, n, hn, hr⟩ := hreport (hparse spelled_stdout)
  rw [hbytes] at hr
  exact ⟨⟨a, ha, hreading⟩, r, n, hn, hr.delivers.1, hr.flushed (.inl rfl)⟩

/-- **An interrupted execution can end with another status**: it is 1 on a full output, be it
standard output or a device. -/
theorem invoke_interrupted_full :
    (∃ a ∈ (writeThenRead .stdout).machine.runAttempts 2 none (writeThenRead .stdout).machine.start
      ⟨{ pending := [.fault ⟨.interrupt, ""⟩] }, {}⟩,
      a.reading? = some (.fault ⟨.interrupt, ""⟩)) ∧
      (∃ r n, (∀ fuel ≥ n, invoke fuel
        (writeThenReadWorld [.fault ⟨.interrupt, ""⟩] (some noSpace)) ["run", "-m", "2", "p.b"] =
          some r) ∧ r.stdout = [0] ∧ r.status = 1) ∧
      ∃ r n, (∀ fuel ≥ n, invoke fuel (writeThenReadWorld [.fault ⟨.interrupt, ""⟩] none)
        ["run", "-o", "/dev/full", "-m", "2", "p.b"] = some r) ∧ r.status = 1 := by
  obtain ⟨a, ha, hreading, hbytes⟩ := exists_interrupt (.inl rfl)
  refine ⟨⟨a, ha, hreading⟩, ?_, ?_⟩
  · obtain ⟨r, n, hn, hr⟩ :=
      ready_stdout.exists_report_of_interrupt rfl ha hreading spelled_stdout.parse
    rw [hbytes] at hr
    exact ⟨r, n, hn, hr.delivers.1, hr.full isFull_stdout uninterrupted_stdout⟩
  · obtain ⟨a, ha, hreading, hbytes⟩ := exists_interrupt (.inr rfl)
    obtain ⟨r, n, hn, hr⟩ :=
      ready_fullDevice.exists_report_of_interrupt rfl ha hreading spelled_fullDevice.parse
    rw [hbytes] at hr
    exact ⟨r, n, hn, hr.full rfl uninterrupted_full⟩

end RunRequest.Ready

end Command

end TapeLang
