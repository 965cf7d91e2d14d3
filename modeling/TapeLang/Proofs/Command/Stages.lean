import TapeLang.Proofs.Command.Outcome

/-!
# Where a command line ends before an execution

* `Stage` — the points at which a command can end before an execution, in their order.
* `RunOptions.Misfit`, `Setting.Unopened` — what is wrong with the options, each fault for itself;
  `config_outcome`, `origin_outcome`, `destination_outcome` — options have a fault, or what they ask
  for is at hand.
* `Faulty` — a fault of a command line at a stage, whether or not there are others, and the
  complaint about it.
* `clearTo_usage` to `clearTo_output` — what keeps faults from the stages before one.
* `Failure.stage?` — the stage that a failure belongs to; `Faulty.stage` — a fault's own.
* `Report.Rejects` — a report on a complaint, which shows that nothing was touched.
* `EndsAt` — a command line ends at a stage, and its fault there is the first one; `endsAt_usage`,
  `endsAt_of_loadFile` and `endsAt_or_launch` prove it stage by stage.
* `invoke_rejects_first` — a command line with faults ends at the first of them, and one without
  comes to an execution; `RunOptions.AsksFor.not_faulty` — such are all that ask for what is at
  hand.
-/

namespace TapeLang.Command

/-- The points at which a command can end before an execution, in their order. -/
inductive Stage
  | usage | program | load | config | input | output
  deriving DecidableEq, Repr

namespace Stage

def position : Stage → Nat
  | usage => 0
  | program => 1
  | load => 2
  | config => 3
  | input => 4
  | output => 5

theorem position_injective {σ σ' : Stage} (h : σ.position = σ'.position) : σ = σ' := by
  cases σ <;> cases σ' <;> first | rfl | cases h

/-- The exit status of a command that ends at the stage. -/
def status : Stage → Nat
  | usage => 2
  | _ => 1

end Stage

/-- The stage that a failure belongs to. That a limit has no value is noticed behind them all. -/
def Failure.stage? : Failure → Option Stage
  | .usage _ _ _ => some .usage
  | .program _ | .defect .program => some .program
  | .load _ _ => some .load
  | .config _ | .defect .size => some .config
  | .input _ | .defect .input => some .input
  | .output _ | .defect .output => some .output
  | .defect .limit => none

/-! ## Faults -/

/-- Options that ask for no configuration. -/
inductive RunOptions.Misfit (o : RunOptions) : Failure → Prop
  | noCellOverflow : o.cellOverflow = .void → Misfit o (.config .noOverflow)
  | noPointerOverflow : o.pointerOverflow = .void → Misfit o (.config .noOverflow)
  | noEof : o.eof = .void → Misfit o (.config .noEof)
  | noTapeLength : o.tapeLength = .void → Misfit o (.defect .size)
  | tapeLength {n : Int} : o.tapeLength = .given n → n < 1 → Misfit o (.config (.tapeLength n))
  | noCellWidth : o.cellWidth = .void → Misfit o (.defect .size)
  | cellWidth {n : Int} : o.cellWidth = .given n → n < 1 → Misfit o (.config (.cellWidth n))

/-- **A path that cannot be opened**, where a dash need not be. -/
inductive Setting.Unopened {α : Type} (setting : Setting String)
    (lookup : String → Except FileError α) (defect : Defect) (refusal : FileError → Failure) :
    Failure → Prop
  | noPath : setting = .void → Unopened setting lookup defect refusal (.defect defect)
  | refused {path : String} {e : FileError} : setting = .given path → path ≠ "-" →
      lookup path = .error e → Unopened setting lookup defect refusal (refusal e)

/-- The path to read from cannot be opened. -/
abbrev RunOptions.NoInput (o : RunOptions) (files : Files) (f : Failure) : Prop :=
  o.input.Unopened files.find .input .input f

/-- The path to write to cannot be opened. -/
abbrev RunOptions.NoOutput (o : RunOptions) (files : Files) (f : Failure) : Prop :=
  o.output.Unopened files.create .output .output f

/-- **The launch that options ask for**, with all that it needs at hand. -/
structure RunOptions.AsksFor (o : RunOptions) (files : Files) (l : Launch) : Prop where
  program : ∃ target source, files.find (normalPath o.program) = .ok (target, source) ∧
    target.endless = false ∧ Program.load source = .ok l.machine.program
  config : o.Chooses l.machine.config l.maxSteps
  origin : o.ReadsFrom files l.origin
  destination : o.WritesTo files l.destination

/-- The path of the program that a command is about. -/
def Task.program? : Task → Option String
  | .help => none
  | .run o => some o.program
  | .check path => some path

/-- What is told of a fault: the text that closes the report, and the failure. -/
structure Complaint where
  text : String
  failure : Failure
  deriving DecidableEq, Repr

def Failure.complaint (f : Failure) (style : Style) : Complaint :=
  ⟨f.text style, f⟩

/-- **The faults of a command line**, each for itself, and what is told of it. -/
inductive Faulty (w : World) (args : List String) : Stage → Complaint → Prop
  | usage {synopsis name message : String} :
      Invocation.parse args = .error (.refused synopsis name message) →
      Faulty w args .usage ((Failure.usage synopsis name message).complaint .plain)
  | program {x : Invocation} {path : String} {e : FileError} : Invocation.parse args = .ok x →
      x.task.program? = some path → w.files.find (normalPath path) = .error e →
      Faulty w args .program ((Failure.program e).complaint x.manner.style)
  | endless {x : Invocation} {path : String} {target : Target} {source : List UInt8} :
      Invocation.parse args = .ok x → x.task.program? = some path →
      w.files.find (normalPath path) = .ok (target, source) → target.endless = true →
      Faulty w args .program ((Failure.defect .program).complaint x.manner.style)
  | load {x : Invocation} {path : String} {target : Target} {source : List UInt8} {e : LoadError} :
      Invocation.parse args = .ok x → x.task.program? = some path →
      w.files.find (normalPath path) = .ok (target, source) → target.endless = false →
      Program.load source = .error e →
      Faulty w args .load ((Failure.load path e).complaint x.manner.style)
  | config {x : Invocation} {o : RunOptions} {f : Failure} : Invocation.parse args = .ok x →
      x.task = .run o → o.Misfit f → Faulty w args .config (f.complaint x.manner.style)
  | input {x : Invocation} {o : RunOptions} {f : Failure} : Invocation.parse args = .ok x →
      x.task = .run o → o.NoInput w.files f → Faulty w args .input (f.complaint x.manner.style)
  | output {x : Invocation} {o : RunOptions} {f : Failure} : Invocation.parse args = .ok x →
      x.task = .run o → o.NoOutput w.files f → Faulty w args .output (f.complaint x.manner.style)

/-- **A complaint belongs to the stage of its fault**, so that faults of different stages are told
apart. -/
theorem Faulty.stage {w : World} {args : List String} {σ : Stage} {c : Complaint}
    (h : Faulty w args σ c) : c.failure.stage? = some σ := by
  cases h with
  | config _ _ hmisfit => cases hmisfit <;> rfl
  | input _ _ hunopened => cases hunopened <;> rfl
  | output _ _ hunopened => cases hunopened <;> rfl
  | _ => rfl

/-- **A report on a complaint of a stage**, with nothing touched: no file is written, nothing goes
to standard output, and standard input is not read. -/
structure Report.Rejects (r : Report) (σ : Stage) (c : Complaint) : Prop where
  status : r.status = σ.status
  written : r.written = none
  stdout : r.stdout = []
  stdinReads : r.stdinReads = 0
  told : ∃ told, IsLines told ∧ r.stderr = told ++ c.text
  failure : r.failure = some c.failure
  stage : c.failure.stage? = some σ

/-- No fault is at one of the first `n` stages. -/
def ClearTo (w : World) (args : List String) (n : Nat) : Prop :=
  ∀ σ c, Faulty w args σ c → n ≤ σ.position

/-- **A command line that ends at a stage**: its fault there comes before all others that it has,
and the report tells of that one. -/
structure EndsAt (w : World) (args : List String) (σ : Stage) (c : Complaint) : Prop where
  faulty : Faulty w args σ c
  first : ClearTo w args σ.position
  rejects : ∃ r, (∀ fuel, invoke fuel w args = some r) ∧ r.Rejects σ c

/-! ## Options -/

/-- **Options ask for a configuration, or one of their faults is told.** -/
theorem RunOptions.config_outcome (o : RunOptions) :
    (∃ c, o.config = .ok c ∧ (∀ limit, o.maxSteps = .given limit → o.Chooses c limit) ∧
      ∀ f, ¬o.Misfit f) ∨
      ∃ f, o.config = .error f ∧ o.Misfit f := by
  cases hcell : o.cellOverflow with
  | void => exact .inr ⟨_, by rw [config, hcell]; rfl, .noCellOverflow hcell⟩
  | given cell =>
  cases hpointer : o.pointerOverflow with
  | void => exact .inr ⟨_, by rw [config, hcell, hpointer]; rfl, .noPointerOverflow hpointer⟩
  | given pointer =>
  cases heof : o.eof with
  | void => exact .inr ⟨_, by rw [config, hcell, hpointer, heof]; rfl, .noEof heof⟩
  | given eof =>
  cases hlength : o.tapeLength with
  | void =>
      exact .inr ⟨_, by rw [config, hcell, hpointer, heof, hlength]; rfl, .noTapeLength hlength⟩
  | given n =>
  -- From here on the names are fine, and what is left depends on the sizes.
  have hnames : o.config = (do
      let c ← (Config.sized n (o.cellWidth.getD 8)).mapError .config
      discard (o.cellWidth.orError (.defect .size))
      return { c with cellOverflow := cell, pointerOverflow := pointer, eof }) := by
    rw [config, hcell, hpointer, heof, hlength]
    rfl
  by_cases hn : 1 ≤ n
  · cases hwidth : o.cellWidth with
    | void =>
        obtain ⟨c, hsized⟩ : ∃ c, Config.sized n 8 = .ok c := by simp [Config.sized, hn]
        refine .inr ⟨_, ?_, .noCellWidth hwidth⟩
        rw [hnames, hwidth, Setting.getD, hsized]
        rfl
    | given k =>
        by_cases hk : 1 ≤ k
        · let c : Config :=
            { cellOverflow := cell, pointerOverflow := pointer, eof,
              tapeLength := n.toNat, cellWidth := k.toNat,
              tapeLength_pos := by omega, cellWidth_pos := by omega }
          have hlength' : (c.tapeLength : Int) = n := Int.toNat_of_nonneg (by omega)
          have hwidth' : (c.cellWidth : Int) = k := Int.toNat_of_nonneg (by omega)
          refine .inl ⟨c, ?_, ?_, ?_⟩
          · rw [hnames, hwidth, Setting.getD_given, ← hlength', ← hwidth', Config.sized_natCast]
            rfl
          · intro limit hlimit
            exact ⟨hcell, hpointer, heof, hlength' ▸ hlength, hwidth' ▸ hwidth, hlimit⟩
          · rintro f (h | h | h | h | ⟨h, hlt⟩ | h | ⟨h, hlt⟩)
            · cases hcell.symm.trans h
            · cases hpointer.symm.trans h
            · cases heof.symm.trans h
            · cases hlength.symm.trans h
            · cases hlength.symm.trans h
              omega
            · cases hwidth.symm.trans h
            · cases hwidth.symm.trans h
              omega
        · have hsized : Config.sized n k = .error (.cellWidth k) := by
            rw [Config.sized, dif_pos hn, dif_neg hk]
          refine .inr ⟨_, ?_, .cellWidth hwidth (by omega)⟩
          rw [hnames, hwidth, Setting.getD_given, hsized]
          rfl
  · have hsized : Config.sized n (o.cellWidth.getD 8) = .error (.tapeLength n) := dif_neg hn
    refine .inr ⟨_, ?_, .tapeLength hlength (by omega)⟩
    rw [hnames, hsized]
    rfl

section

variable {o : RunOptions} {files : Files} {f : Failure} {c : Config} {limit : Option Int}
  {origin : Origin} {destination : Destination}

theorem RunOptions.Chooses.not_misfit (h : o.Chooses c limit) (f : Failure) : ¬o.Misfit f := by
  rcases o.config_outcome with ⟨_, _, _, hnone⟩ | ⟨_, herror, _⟩
  · exact hnone f
  · cases h.config_eq.symm.trans herror

theorem Setting.opened_cases {α : Type} (setting : Setting String)
    (lookup : String → Except FileError α) (defect : Defect) (refusal : FileError → Failure) :
    setting = .given "-" ∨
      (∃ path opened, setting = .given path ∧ path ≠ "-" ∧ lookup path = .ok opened) ∨
      ∃ f, setting.Unopened lookup defect refusal f := by
  cases setting with
  | void => exact .inr (.inr ⟨_, .noPath rfl⟩)
  | given path =>
      by_cases hpath : path = "-"
      · exact .inl (congrArg _ hpath)
      · cases hlookup : lookup path with
        | error e => exact .inr (.inr ⟨_, .refused rfl hpath hlookup⟩)
        | ok opened => exact .inr (.inl ⟨path, opened, rfl, hpath, hlookup⟩)

theorem RunOptions.origin_of_unopened (h : o.NoInput files f) : o.origin files = .error f := by
  cases h with
  | noPath hinput =>
      rw [RunOptions.origin, hinput]
      rfl
  | refused hinput hpath hfind =>
      simp only [RunOptions.origin, hinput, Setting.orError_given, bind, Except.bind, if_neg hpath,
        hfind]

theorem RunOptions.destination_of_unopened (h : o.NoOutput files f) :
    o.destination files = .error f := by
  cases h with
  | noPath houtput =>
      rw [RunOptions.destination, houtput]
      rfl
  | refused houtput hpath hcreate =>
      simp only [RunOptions.destination, houtput, Setting.orError_given, bind, Except.bind,
        if_neg hpath, hcreate]

theorem RunOptions.ReadsFrom.not_unopened (h : o.ReadsFrom files origin) (f : Failure) :
    ¬o.NoInput files f :=
  fun hf => nomatch h.origin_eq.symm.trans (RunOptions.origin_of_unopened hf)

theorem RunOptions.WritesTo.not_unopened (h : o.WritesTo files destination) (f : Failure) :
    ¬o.NoOutput files f :=
  fun hf => nomatch h.destination_eq.symm.trans (RunOptions.destination_of_unopened hf)

theorem RunOptions.origin_outcome (o : RunOptions) (files : Files) :
    (∃ origin, o.ReadsFrom files origin) ∨ ∃ f, o.NoInput files f := by
  rcases o.input.opened_cases files.find .input .input with
    hinput | ⟨path, opened, hinput, hpath, hfind⟩ | hf
  · exact .inl ⟨_, .stdin hinput⟩
  · exact .inl ⟨_, .opened hinput hpath hfind⟩
  · exact .inr hf

theorem RunOptions.destination_outcome (o : RunOptions) (files : Files) :
    (∃ destination, o.WritesTo files destination) ∨ ∃ f, o.NoOutput files f := by
  rcases o.output.opened_cases files.create .output .output with
    houtput | ⟨path, opened, houtput, hpath, hcreate⟩ | hf
  · exact .inl ⟨_, .stdout houtput⟩
  · exact .inl ⟨_, .opened houtput hpath hcreate⟩
  · exact .inr hf

end

theorem loadFile_outcome (files : Files) (path : String) :
    (∃ target source p, files.find (normalPath path) = .ok (target, source) ∧
        target.endless = false ∧ Program.load source = .ok p ∧ loadFile files path = .ok p) ∨
      (∃ e, files.find (normalPath path) = .error e ∧ loadFile files path = .error (.program e)) ∨
      (∃ target source, files.find (normalPath path) = .ok (target, source) ∧
        target.endless = true ∧ loadFile files path = .error (.defect .program)) ∨
      ∃ target source e, files.find (normalPath path) = .ok (target, source) ∧
        target.endless = false ∧ Program.load source = .error e ∧
        loadFile files path = .error (.load path e) := by
  cases hfind : files.find (normalPath path) with
  | error e => exact .inr (.inl ⟨e, rfl, by simp only [loadFile, hfind]⟩)
  | ok found =>
      obtain ⟨target, source⟩ := found
      cases hend : target.endless with
      | true =>
          refine .inr (.inr (.inl ⟨target, source, rfl, hend, ?_⟩))
          simp only [loadFile, hfind, hend, if_true]
      | false =>
          cases hload : Program.load source with
          | error e =>
              refine .inr (.inr (.inr ⟨target, source, e, rfl, hend, hload, ?_⟩))
              simp only [loadFile, hfind, hend, hload, Bool.false_eq_true, if_false]
          | ok p =>
              refine .inl ⟨target, source, p, rfl, hend, hload, ?_⟩
              simp only [loadFile, hfind, hend, hload, Bool.false_eq_true, if_false]

theorem exists_of_loadFile {files : Files} {path : String} {p : Program}
    (h : loadFile files path = .ok p) :
    ∃ target source, files.find (normalPath path) = .ok (target, source) ∧
      target.endless = false ∧ Program.load source = .ok p := by
  rcases loadFile_outcome files path with ⟨target, source, p', hfind, hend, hload, hp'⟩ |
    ⟨e, _, he⟩ | ⟨_, _, _, _, he⟩ | ⟨_, _, e, _, _, _, he⟩
  · cases h.symm.trans hp'
    exact ⟨target, source, hfind, hend, hload⟩
  · cases h.symm.trans he
  · cases h.symm.trans he
  · cases h.symm.trans he

/-! ## Stages without a fault -/

section

variable {w : World} {args : List String} {x : Invocation} {path : String} {o : RunOptions}
  {p : Program} {f : Failure} {target : Target} {source : List UInt8}

theorem ClearTo.succ {σ : Stage} (h : ClearTo w args σ.position) (hnone : ∀ c, ¬Faulty w args σ c) :
    ClearTo w args (σ.position + 1) := by
  intro σ' c' hfaulty
  refine Nat.lt_of_le_of_ne (h σ' c' hfaulty) fun heq => ?_
  obtain rfl := Stage.position_injective heq
  exact hnone c' hfaulty

theorem clearTo_usage : ClearTo w args Stage.usage.position :=
  fun _ _ _ => Nat.zero_le _

theorem clearTo_program (hparse : Invocation.parse args = .ok x) :
    ClearTo w args Stage.program.position := by
  refine clearTo_usage.succ ?_
  rintro c ⟨hrefused⟩
  cases hparse.symm.trans hrefused

theorem clearTo_load (hparse : Invocation.parse args = .ok x) (hpath : x.task.program? = some path)
    (hfind : w.files.find (normalPath path) = .ok (target, source))
    (hend : target.endless = false) : ClearTo w args Stage.load.position := by
  refine (clearTo_program hparse).succ ?_
  intro c hfaulty
  cases hfaulty with
  | program hparse' hpath' hmissing =>
      cases hparse.symm.trans hparse'
      cases hpath.symm.trans hpath'
      cases hfind.symm.trans hmissing
  | endless hparse' hpath' hfind' hendless =>
      cases hparse.symm.trans hparse'
      cases hpath.symm.trans hpath'
      cases hfind.symm.trans hfind'
      cases hend.symm.trans hendless

theorem clearTo_config (hparse : Invocation.parse args = .ok x)
    (hpath : x.task.program? = some path)
    (hfind : w.files.find (normalPath path) = .ok (target, source))
    (hend : target.endless = false) (hload : Program.load source = .ok p) :
    ClearTo w args Stage.config.position := by
  refine (clearTo_load hparse hpath hfind hend).succ ?_
  intro c hfaulty
  cases hfaulty with
  | load hparse' hpath' hfind' _ hbad =>
      cases hparse.symm.trans hparse'
      cases hpath.symm.trans hpath'
      cases hfind.symm.trans hfind'
      cases hload.symm.trans hbad

theorem clearTo_input (hclear : ClearTo w args Stage.config.position)
    (hparse : Invocation.parse args = .ok x)
    (hconfig : ∀ o, x.task = .run o → ∀ f, ¬o.Misfit f) : ClearTo w args Stage.input.position := by
  refine hclear.succ ?_
  intro c hfaulty
  cases hfaulty with
  | config hparse' htask' hmisfit =>
      cases hparse.symm.trans hparse'
      exact hconfig _ htask' _ hmisfit

theorem clearTo_output (hclear : ClearTo w args Stage.input.position)
    (hparse : Invocation.parse args = .ok x)
    (hinput : ∀ o, x.task = .run o → ∀ f, ¬o.NoInput w.files f) :
    ClearTo w args Stage.output.position := by
  refine hclear.succ ?_
  intro c hfaulty
  cases hfaulty with
  | input hparse' htask' hunopened =>
      cases hparse.symm.trans hparse'
      exact hinput _ htask' _ hunopened

theorem not_faulty (hclear : ClearTo w args Stage.output.position)
    (hparse : Invocation.parse args = .ok x)
    (houtput : ∀ o, x.task = .run o → ∀ f, ¬o.NoOutput w.files f) (σ : Stage) (c : Complaint) :
    ¬Faulty w args σ c := by
  have hall : ClearTo w args (Stage.output.position + 1) := by
    refine hclear.succ ?_
    intro c hfaulty
    cases hfaulty with
    | output hparse' htask' hunopened =>
        cases hparse.symm.trans hparse'
        exact houtput _ htask' _ hunopened
  intro hfaulty
  exact absurd (hall σ c hfaulty) (by cases σ <;> decide)

theorem forall_run {P : RunOptions → Prop} (htask : x.task = .run o) (h : P o) :
    ∀ o', x.task = .run o' → P o' := by
  intro o' ho'
  cases htask.symm.trans ho'
  exact h

/-! ## Ends -/

theorem isLines_loaded (m : Manner) (p : Program) : IsLines (m.loaded p) :=
  isLines_debug _ _ _

/-- What is told of a failure before any file is emptied. -/
theorem Failure.report_rejects {f : Failure} {σ : Stage} (style : Style) {told : String}
    (htold : IsLines told) (hstatus : f.status = σ.status) (hstage : f.stage? = some σ) :
    (f.report style told none).Rejects σ (f.complaint style) :=
  ⟨hstatus, rfl, rfl, rfl, ⟨told, htold, rfl⟩, rfl, hstage⟩

theorem endsAt_usage {synopsis name message : String}
    (hparse : Invocation.parse args = .error (.refused synopsis name message)) :
    EndsAt w args .usage ((Failure.usage synopsis name message).complaint .plain) := by
  refine ⟨.usage hparse, clearTo_usage, (Notice.refused synopsis name message).report, ?_,
    Failure.report_rejects .plain isLines_empty rfl rfl⟩
  intro fuel
  simp only [invoke, hparse]

theorem invoke_of_loadFile (hparse : Invocation.parse args = .ok x)
    (hpath : x.task.program? = some path) (hload : loadFile w.files path = .error f) (fuel : Nat) :
    invoke fuel w args = some (f.report x.manner.style "" none) := by
  simp only [invoke, hparse]
  cases htask : x.task with
  | help => simp [htask, Task.program?] at hpath
  | run o =>
      obtain rfl : o.program = path := by simpa [htask, Task.program?] using hpath
      simp only [runCommand, hload]
  | check path' =>
      obtain rfl : path' = path := by simpa [htask, Task.program?] using hpath
      simp only [checkCommand, hload]

/-- **A program that is not there, or that does not load, ends the command.** -/
theorem endsAt_of_loadFile (hparse : Invocation.parse args = .ok x)
    (hpath : x.task.program? = some path) (hload : loadFile w.files path = .error f) :
    ∃ σ c, EndsAt w args σ c := by
  have hinvoke := invoke_of_loadFile hparse hpath hload
  rcases loadFile_outcome w.files path with ⟨_, _, p, _, _, _, hok⟩ | ⟨e, hfind, he⟩ |
    ⟨target, source, hfind, hend, he⟩ | ⟨target, source, e, hfind, hend, hbad, he⟩
  · cases hload.symm.trans hok
  · cases hload.symm.trans he
    exact ⟨_, _, .program hparse hpath hfind, clearTo_program hparse, _, hinvoke,
      Failure.report_rejects _ isLines_empty rfl rfl⟩
  · cases hload.symm.trans he
    exact ⟨_, _, .endless hparse hpath hfind hend, clearTo_program hparse, _, hinvoke,
      Failure.report_rejects _ isLines_empty rfl rfl⟩
  · cases hload.symm.trans he
    exact ⟨_, _, .load hparse hpath hfind hend hbad, clearTo_load hparse hpath hfind hend, _,
      hinvoke, Failure.report_rejects _ isLines_empty rfl rfl⟩

/-- **A loaded program is executed if getting ready for it meets no fault**, and the first one ends
the command. -/
theorem endsAt_or_launch (hparse : Invocation.parse args = .ok x) (htask : x.task = .run o)
    (hfind : w.files.find (normalPath o.program) = .ok (target, source))
    (hend : target.endless = false) (hload : Program.load source = .ok p) :
    (∃ σ c, EndsAt w args σ c) ∨
      ((∀ σ c, ¬Faulty w args σ c) ∧ ∀ limit, o.maxSteps = .given limit →
        ∃ l, o.AsksFor w.files l ∧
          ∀ fuel, invoke fuel w args = (l.run fuel w).map (l.report x.manner o w)) := by
  have hpath : x.task.program? = some o.program := by rw [htask, Task.program?]
  have hloaded : loadFile w.files o.program = .ok p := by
    simp only [loadFile, hfind, hend, hload, Bool.false_eq_true, if_false]
  have hclear := clearTo_config hparse hpath hfind hend hload
  have hends : ∀ {f : Failure} {σ : Stage}, o.launch w.files p none = .error f none →
      Faulty w args σ (f.complaint x.manner.style) → σ.status = 1 → ClearTo w args σ.position →
      ∃ σ c, EndsAt w args σ c := by
    intro f σ hlaunch hfaulty hσ hfirst
    have hstatus : f.status = σ.status := by
      rw [hσ]
      cases f with
      | usage synopsis name message =>
          cases hfaulty.stage
          cases hσ
      | _ => rfl
    refine ⟨σ, _, hfaulty, hfirst, f.report x.manner.style (x.manner.loaded p) none, ?_,
      Failure.report_rejects _ (isLines_loaded x.manner p) hstatus hfaulty.stage⟩
    intro fuel
    simp only [invoke, hparse, htask, runCommand, hloaded, hlaunch]
  rcases o.config_outcome with ⟨config, hconfig, hchooses, hfits⟩ | ⟨f, hconfig, hf⟩
  · have hclear := clearTo_input hclear hparse (forall_run htask hfits)
    rcases o.origin_outcome w.files with ⟨origin, hreads⟩ | ⟨f, hf⟩
    · have hclear := clearTo_output hclear hparse (forall_run htask hreads.not_unopened)
      rcases o.destination_outcome w.files with ⟨destination, hwrites⟩ | ⟨f, hf⟩
      · refine .inr ⟨not_faulty hclear hparse (forall_run htask hwrites.not_unopened), ?_⟩
        intro limit hlimit
        refine ⟨⟨⟨p, config⟩, limit, origin, destination⟩,
          ⟨⟨target, source, hfind, hend, hload⟩, hchooses limit hlimit, hreads, hwrites⟩, ?_⟩
        intro fuel
        simp only [invoke, hparse, htask, runCommand, hloaded, RunOptions.launch_eq, hconfig,
          hreads.origin_eq, hwrites.destination_eq, hlimit, Setting.orError_given]
      · refine .inl (hends ?_ (.output hparse htask hf) rfl hclear)
        simp only [RunOptions.launch_eq, hconfig, hreads.origin_eq,
          RunOptions.destination_of_unopened hf]
    · refine .inl (hends ?_ (.input hparse htask hf) rfl hclear)
      simp only [RunOptions.launch_eq, hconfig, RunOptions.origin_of_unopened hf]
  · refine .inl (hends ?_ (.config hparse htask hf) rfl hclear)
    simp only [RunOptions.launch_eq, hconfig]

theorem not_faulty_of_shown {text : String} (hparse : Invocation.parse args = .error (.shown text))
    (σ : Stage) (c : Complaint) : ¬Faulty w args σ c := by
  intro hfaulty
  cases hfaulty with
  | usage h => cases hparse.symm.trans h
  | program h => cases hparse.symm.trans h
  | endless h => cases hparse.symm.trans h
  | load h => cases hparse.symm.trans h
  | config h => cases hparse.symm.trans h
  | input h => cases hparse.symm.trans h
  | output h => cases hparse.symm.trans h

theorem not_faulty_of_help (hparse : Invocation.parse args = .ok x)
    (hpath : x.task.program? = none) (σ : Stage) (c : Complaint) : ¬Faulty w args σ c := by
  have htask : ∀ o, x.task ≠ .run o := by
    intro o ho
    rw [ho] at hpath
    cases hpath
  intro hfaulty
  cases hfaulty with
  | usage h => cases hparse.symm.trans h
  | program h hp =>
      cases hparse.symm.trans h
      cases hpath.symm.trans hp
  | endless h hp =>
      cases hparse.symm.trans h
      cases hpath.symm.trans hp
  | load h hp =>
      cases hparse.symm.trans h
      cases hpath.symm.trans hp
  | config h ht =>
      cases hparse.symm.trans h
      exact htask _ ht
  | input h ht =>
      cases hparse.symm.trans h
      exact htask _ ht
  | output h ht =>
      cases hparse.symm.trans h
      exact htask _ ht

/-- **A command line has a first fault at which it ends, or no fault at all**, and then a run is
executed. -/
theorem endsAt_or_not_faulty (w : World) (args : List String) :
    (∃ σ c, EndsAt w args σ c) ∨
      ((∀ σ c, ¬Faulty w args σ c) ∧ ∀ x o limit, Invocation.parse args = .ok x → x.task = .run o →
        o.maxSteps = .given limit → ∃ l, o.AsksFor w.files l ∧
          ∀ fuel, invoke fuel w args = (l.run fuel w).map (l.report x.manner o w)) := by
  cases hparse : Invocation.parse args with
  | error notice =>
      cases notice with
      | refused usage program message => exact .inl ⟨_, _, endsAt_usage hparse⟩
      | shown text =>
          refine .inr ⟨not_faulty_of_shown hparse, ?_⟩
          rintro x o limit ⟨⟩
  | ok x =>
      cases htask : x.task with
      | help =>
          refine .inr ⟨not_faulty_of_help hparse (by rw [htask, Task.program?]), ?_⟩
          rintro x' o limit ⟨⟩ hrun
          cases htask.symm.trans hrun
      | check path =>
          have hpath : x.task.program? = some path := by rw [htask, Task.program?]
          have hrun : ∀ o, x.task ≠ .run o := fun o ho => nomatch htask.symm.trans ho
          cases hloaded : loadFile w.files path with
          | error f => exact .inl (endsAt_of_loadFile hparse hpath hloaded)
          | ok p =>
              obtain ⟨_, _, hfind, hend, hload⟩ := exists_of_loadFile hloaded
              have hclear := clearTo_config hparse hpath hfind hend hload
              have hclear := clearTo_input hclear hparse fun o ho => absurd ho (hrun o)
              have hclear := clearTo_output hclear hparse fun o ho => absurd ho (hrun o)
              refine .inr ⟨not_faulty hclear hparse fun o ho => absurd ho (hrun o), ?_⟩
              rintro x' o limit ⟨⟩ ho
              exact absurd ho (hrun o)
      | run o =>
          have hpath : x.task.program? = some o.program := by rw [htask, Task.program?]
          cases hloaded : loadFile w.files o.program with
          | error f => exact .inl (endsAt_of_loadFile hparse hpath hloaded)
          | ok p =>
              obtain ⟨_, _, hfind, hend, hload⟩ := exists_of_loadFile hloaded
              rcases endsAt_or_launch hparse htask hfind hend hload with hends | ⟨hnone, hlaunch⟩
              · exact .inl hends
              · refine .inr ⟨hnone, ?_⟩
                rintro x' o' limit ⟨⟩ ho
                cases htask.symm.trans ho
                exact hlaunch limit

/-- **A command line with faults ends at the first of them**, in the order of the stages, and
touches nothing: no file is written, standard output is empty, standard input is not read, and the
status is the one of the stage. A command line for a run that has none of these faults comes to what
the execution that it asks for comes to. -/
theorem invoke_rejects_first (w : World) (args : List String) :
    (∀ σ c, Faulty w args σ c → ∃ σ₀ c₀, EndsAt w args σ₀ c₀) ∧
      ((∀ σ c, ¬Faulty w args σ c) → ∀ x o limit, Invocation.parse args = .ok x → x.task = .run o →
        o.maxSteps = .given limit → ∃ l, o.AsksFor w.files l ∧
          ∀ fuel, invoke fuel w args = (l.run fuel w).map (l.report x.manner o w)) := by
  rcases endsAt_or_not_faulty w args with ⟨σ₀, c₀, hends⟩ | ⟨hnone, hrun⟩
  · exact ⟨fun _ _ _ => ⟨σ₀, c₀, hends⟩, fun hnone => absurd hends.faulty (hnone σ₀ c₀)⟩
  · exact ⟨fun σ c hfaulty => absurd hfaulty (hnone σ c), fun _ => hrun⟩

theorem RunOptions.AsksFor.not_faulty {l : Launch} (h : o.AsksFor w.files l)
    (hparse : Invocation.parse args = .ok x) (htask : x.task = .run o) (σ : Stage) (c : Complaint) :
    ¬Faulty w args σ c := by
  obtain ⟨⟨target, source, hfind, hend, hload⟩, hchooses, hreads, hwrites⟩ := h
  have hpath : x.task.program? = some o.program := by rw [htask, Task.program?]
  have hclear := clearTo_config hparse hpath hfind hend hload
  have hclear := clearTo_input hclear hparse (forall_run htask hchooses.not_misfit)
  have hclear := clearTo_output hclear hparse (forall_run htask hreads.not_unopened)
  exact TapeLang.Command.not_faulty hclear hparse (forall_run htask hwrites.not_unopened) σ c

end

/-- A tape without cells and an input that is missing: the file that is to be written stays as it
is. With neither fault the same command line comes to an execution. -/
theorem invoke_rejects_first_unfit :
    let w : World :=
      { files := FileTree.toFiles { files := [(["p.b"], [0x2B]), (["out"], [1, 2, 3])] } }
    let fit : RunRequest := { program := "p.b", flags := [.tapeLength 2, .output "out"] }
    let unfitArgs : List String := ["run", "-m", "0", "-i", "in", "-o", "out", "p.b"]
    let fitArgs : List String := ["run", "-m", "2", "-o", "out", "p.b"]
    (∃ c c' σ₀ c₀ r, Faulty w unfitArgs .config c ∧ Faulty w unfitArgs .input c' ∧
      σ₀.position ≤ Stage.config.position ∧ (∀ fuel, invoke fuel w unfitArgs = some r) ∧
        r.Rejects σ₀ c₀) ∧
      (∀ σ c, ¬Faulty w fitArgs σ c) ∧
      ∃ l : Launch, ∀ fuel, invoke fuel w fitArgs =
        (l.run fuel w).map (l.report fit.manner fit.options w) := by
  intro w fit unfitArgs fitArgs
  let unfit : RunRequest :=
    { program := "p.b", flags := [.tapeLength 0, .input "in", .output "out"] }
  have hprogram : IsOperand "p.b" := by simp [IsOperand]
  have houtput : (Flag.output "out").Spelled ["-o", "out"] := .letter rfl rfl (by simp [IsOperand])
  have hunfit : Invocation.parse unfitArgs = .ok unfit.invocation := by
    have hlength : (Flag.tapeLength 0).Spelled ["-m", "0"] := .letter rfl rfl (by simp [IsOperand])
    have hinput : (Flag.input "in").Spelled ["-i", "in"] := .letter rfl rfl (by simp [IsOperand])
    have hspelled : unfit.Spelled unfitArgs :=
      ⟨[], _, rfl, .nil, .flag hlength (.flag hinput (.flag houtput (.program hprogram .nil)))⟩
    exact hspelled.parse
  have hfit : Invocation.parse fitArgs = .ok fit.invocation := by
    have hlength : (Flag.tapeLength 2).Spelled ["-m", "2"] := .letter rfl rfl (by simp [IsOperand])
    have hspelled : fit.Spelled fitArgs :=
      ⟨[], _, rfl, .nil, .flag hlength (.flag houtput (.program hprogram .nil))⟩
    exact hspelled.parse
  have hmissing : w.files.find "in" = .error ⟨.notFound, "in"⟩ := by decide +kernel
  have hconfig := Faulty.config (w := w) hunfit rfl (.tapeLength rfl (by decide))
  have hinput := Faulty.input (w := w) hunfit rfl (.refused rfl (by decide) hmissing)
  have hfind : w.files.find (normalPath "p.b") = .ok (.file "p.b", [0x2B]) := by decide +kernel
  have hcreate : w.files.create "out" = .ok (.file "out") := by decide +kernel
  have hasks : fit.options.AsksFor w.files
      ⟨⟨⟨[0x2B], #[.increment], #[0], #[none]⟩, { tapeLength := 2 }⟩, none, .stdin,
        .opened (.file "out")⟩ :=
    ⟨⟨_, _, hfind, rfl, by decide⟩, ⟨rfl, rfl, rfl, rfl, rfl, rfl⟩, .stdin rfl,
      .opened rfl (by decide) hcreate⟩
  have hnone := hasks.not_faulty hfit rfl
  obtain ⟨σ₀, c₀, hends⟩ := (invoke_rejects_first w unfitArgs).1 _ _ hconfig
  obtain ⟨r, hr, hrejects⟩ := hends.rejects
  obtain ⟨l, _, hl⟩ := (invoke_rejects_first w fitArgs).2 hnone _ _ _ hfit rfl rfl
  exact ⟨⟨_, _, σ₀, c₀, r, hconfig, hinput, hends.first _ _ hconfig, hr, hrejects⟩, hnone, l, hl⟩

end TapeLang.Command
