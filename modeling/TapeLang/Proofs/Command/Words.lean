import TapeLang.Command.Options

/-!
# Command lines that ask for a run

* `Flag`, `Flag.set` — an option of the command `run` with its value, and what it changes.
* `RunRequest` — what a run is asked for; `RunRequest.options` says what its flags come to, one set
  after the other.
* `Flag.Spelled`, `RunWords`, `GlobalWords`, `RunRequest.Spelled` — how flags and whole command
  lines are written.
* `RunRequest.Spelled.parse` — a command line that is written so is understood as it is meant.
-/

namespace TapeLang

theorem Overflow.ofName?_name (mode : Overflow) : ofName? mode.name = some mode := by
  cases mode <;> rfl

theorem EofMode.ofName?_name (mode : EofMode) : ofName? mode.name = some mode := by
  cases mode <;> rfl

namespace Command

/-- A word that is no option: a dash alone, or one that begins with anything else. -/
def IsOperand (word : String) : Prop :=
  ∀ c rest, word.toList ≠ '-' :: c :: rest

theorem IsOperand.ne_separator {word : String} (h : IsOperand word) : word ≠ "--" := by
  rintro rfl
  exact h '-' [] rfl

/-- **An option accepts a word as its argument**, and changes the result by `k`. -/
def Action.Accepts {σ : Type} (a : Action σ) (word : String) (k : σ → σ) : Prop :=
  ∃ apply void, a = .value apply void ∧ ∀ x, apply word x = .ok (k x)

section

variable {α σ : Type} {word : String} {k : σ → σ}

theorem accepts_anyText {apply : Setting String → σ → σ} (hk : ∀ x, apply (.given word) x = k x) :
    (anyText apply).Accepts word k :=
  ⟨_, _, rfl, fun x => congrArg Except.ok (hk x)⟩

theorem accepts_choice {names : List String} {ofName? : String → Option α} {a : α}
    {apply : Setting α → σ → σ} (hword : ofName? word = some a)
    (hk : ∀ x, apply (.given a) x = k x) :
    (choice names ofName? apply).Accepts word k :=
  ⟨_, _, rfl, fun x => by simp only [hword, hk]⟩

theorem accepts_integer {n : Int} {apply : Setting Int → σ → σ}
    (hword : Text.integer? word = some n) (hk : ∀ x, apply (.given n) x = k x) :
    (integer apply).Accepts word k :=
  ⟨_, _, rfl, fun x => by simp only [hword, hk]⟩

end

namespace Grammar

variable {σ : Type} {g : Grammar σ} {rule : Rule σ} {word name value : String} {p : Progress σ}

/-! ## Telling words apart -/

theorem classify_cons {kind : Word.Kind σ} {rest : List String} {ws : List (Word σ)}
    (hne : word ≠ "--") (hword : g.classifyWord word = .ok kind)
    (hrest : g.classify rest = .ok ws) :
    g.classify (word :: rest) = .ok (⟨word, kind⟩ :: ws) := by
  rw [classify, if_neg hne, hword, hrest]
  rfl

theorem classifyWord_operand (h : IsOperand word) : g.classifyWord word = .ok .operand := by
  unfold classifyWord
  split
  · rename_i c rest hword
    exact absurd hword (h c rest)
  · rfl

theorem classifyWord_name {c : Char} {cs : List Char} (hname : name.toList = '-' :: c :: cs)
    (hfind : g.find? name = some rule) :
    g.classifyWord name = .ok (.option ⟨rule, name, none⟩) := by
  unfold classifyWord
  simp only [hname, hfind]

theorem splitWord_joined (hname : '=' ∉ name.toList) (value : String) :
    splitWord (name ++ "=" ++ value) = (name, some value.toList) := by
  have hstop : ∀ c ∈ name.toList, (c != '=') = true := by
    intro c hc
    exact bne_iff_ne.mpr fun heq => hname (heq ▸ hc)
  have htext : (name ++ "=" ++ value).toList = name.toList ++ '=' :: value.toList := by simp
  simp only [splitWord, htext, List.takeWhile_append_of_pos hstop,
    List.dropWhile_append_of_pos hstop]
  simp

theorem find?_eq_none (hnames : ∀ r ∈ g.named, '=' ∉ r.1.toList) (hword : '=' ∈ word.toList) :
    g.find? word = none := by
  refine List.lookup_eq_none_iff.mpr ?_
  intro r hr
  refine bne_iff_ne.mpr ?_
  rintro rfl
  exact hnames r hr hword

theorem classifyWord_joined {c : Char} {cs : List Char} (hname : name.toList = '-' :: c :: cs)
    (hplain : '=' ∉ name.toList) (hnames : ∀ r ∈ g.named, '=' ∉ r.1.toList)
    (hfind : g.find? name = some rule) (value : String) :
    g.classifyWord (name ++ "=" ++ value) = .ok (.option ⟨rule, name, some value.toList⟩) := by
  have htext :
      (name ++ "=" ++ value).toList = '-' :: c :: (cs ++ '=' :: value.toList) := by simp [hname]
  have hnone : g.find? (name ++ "=" ++ value) = none := find?_eq_none hnames (by simp)
  unfold classifyWord
  simp only [htext, splitWord_joined hplain, hnone, hfind]

/-- A word that begins like an option and means none in the grammar is left as it is. -/
theorem exists_classifyWord (hsplit : g.find? (splitWord word).1 = none)
    (hfind : g.find? word = none) (hnone : g.candidates word = []) :
    ∃ kind, g.classifyWord word = .ok kind := by
  unfold classifyWord
  split
  · simp only [hsplit, hfind, classifyDashed, hnone]
    exact ⟨_, rfl⟩
  · exact ⟨_, rfl⟩

/-- The same, for a word with an equals sign behind a name that begins no full name. -/
theorem exists_classifyWord_joined {cs : List Char} (hname : name.toList = '-' :: '-' :: cs)
    (hplain : '=' ∉ name.toList) (hnames : ∀ r ∈ g.named, '=' ∉ r.1.toList)
    (hnone : ∀ r ∈ g.named, name.toList.isPrefixOf r.1.toList = false) (value : String) :
    ∃ kind, g.classifyWord (name ++ "=" ++ value) = .ok kind := by
  have hsplit := splitWord_joined hplain value
  have htext :
      (name ++ "=" ++ value).toList = '-' :: '-' :: (cs ++ '=' :: value.toList) := by simp [hname]
  have hself : g.find? name = none := by
    refine List.lookup_eq_none_iff.mpr ?_
    intro r hr
    refine bne_iff_ne.mpr ?_
    rintro rfl
    have hbegins : r.1.toList.isPrefixOf r.1.toList = true :=
      List.isPrefixOf_iff_prefix.mpr (List.prefix_refl _)
    exact Bool.false_ne_true ((hnone r hr).symm.trans hbegins)
  refine exists_classifyWord (by rw [hsplit]; exact hself) (find?_eq_none hnames (by simp)) ?_
  unfold candidates
  simp only [htext, hsplit]
  refine List.filterMap_eq_nil_iff.mpr ?_
  intro r hr
  simp [hnone r hr]

/-! ## Acting on words -/

variable {ws : List (Word σ)} {k : σ → σ}

theorem act_singleton (effect : Effect σ) (x : σ) : act [effect] x = effect x := by
  simp [act]

theorem consume_joined (h : rule.action.Accepts value k) (hne : value ≠ "--") :
    g.consume (⟨word, .option ⟨rule, name, some value.toList⟩⟩ :: ws) p =
      g.consume ws { p with result := k p.result } := by
  obtain ⟨apply, void, haction, happly⟩ := h
  have heffects : g.hitEffects ⟨rule, name, some value.toList⟩ = .ok ([g.applied rule apply value],
    none) := by
    unfold hitEffects cluster
    simp only [haction, String.ofList_toList, joined, if_neg hne]
  have hact : act [g.applied rule apply value] p.result = .ok (k p.result) := by
    rw [act_singleton, applied, happly]
    rfl
  conv => lhs; unfold consume
  simp only [heffects, bind, Except.bind, hact]

theorem consume_apart (h : rule.action.Accepts value k) :
    g.consume (⟨word, .option ⟨rule, name, none⟩⟩ :: ⟨value, .operand⟩ :: ws) p =
      g.consume ws { p with result := k p.result } := by
  obtain ⟨apply, void, haction, happly⟩ := h
  have hact : act [g.applied rule apply value] p.result = .ok (k p.result) := by
    rw [act_singleton, applied, happly]
    rfl
  conv => lhs; unfold consume
  simp only [hitEffects, bind, Except.bind, haction, List.nil_append, hact]

theorem consume_flag (haction : rule.action = .flag k) :
    g.consume (⟨word, .option ⟨rule, name, none⟩⟩ :: ws) p =
      g.consume ws { p with result := k p.result } := by
  have hact : act [fun x => .ok (k x)] p.result = .ok (k p.result) := act_singleton _ _
  conv => lhs; unfold consume
  simp only [hitEffects, bind, Except.bind, haction, Action.flag, List.nil_append, hact]

theorem consume_operand {apply : String → σ → σ} (hoperand : g.operand = .word name apply)
    (hp : p.settled = false) (hnext : ∀ text later, ws ≠ ⟨text, .separator⟩ :: later) :
    g.consume (⟨word, .operand⟩ :: ws) p =
      g.consume ws { p with result := apply word p.result, settled := true } := by
  conv => lhs; unfold consume
  simp only [hp, Bool.false_eq_true, if_false, hoperand]

theorem consume_separator {apply : String → σ → σ} (hoperand : g.operand = .word name apply)
    (hp : p.settled = false) :
    g.consume [⟨"--", .separator⟩, ⟨word, .operand⟩] p =
      .ok { p with result := apply word p.result, settled := true } := by
  conv => lhs; unfold consume
  simp only [hp, Bool.false_eq_true, if_false, hoperand, consume]

end Grammar

/-! ## Flags -/

/-- An option of the command `run` with its value. -/
inductive Flag
  | input (path : String)
  | output (path : String)
  | cellOverflow (mode : Overflow)
  | pointerOverflow (mode : Overflow)
  | eof (mode : EofMode)
  | tapeLength (n : Int)
  | cellWidth (n : Int)
  | maxSteps (n : Int)
  deriving DecidableEq, Repr

namespace Flag

/-- The full name of a flag. -/
def name : Flag → String
  | input _ => "--input"
  | output _ => "--output"
  | cellOverflow _ => "--overflow"
  | pointerOverflow _ => "--ptr-overflow"
  | eof _ => "--eof-mode"
  | tapeLength _ => "--max-memory"
  | cellWidth _ => "--cell-width"
  | maxSteps _ => "--max-steps"

/-- The letter of a flag, if it has one. -/
def letter? : Flag → Option String
  | input _ => some "-i"
  | output _ => some "-o"
  | cellOverflow _ => some "-w"
  | pointerOverflow _ => some "-W"
  | eof _ => some "-e"
  | tapeLength _ => some "-m"
  | cellWidth _ => none
  | maxSteps _ => none

/-- Whether a word says the value of a flag. -/
def Says (f : Flag) (word : String) : Prop :=
  match f with
  | input path => word = path
  | output path => word = path
  | cellOverflow mode => word = mode.name
  | pointerOverflow mode => word = mode.name
  | eof mode => word = mode.name
  | tapeLength n => Text.integer? word = some n
  | cellWidth n => Text.integer? word = some n
  | maxSteps n => Text.integer? word = some n

/-- What a flag changes. -/
def set (f : Flag) (o : RunOptions) : RunOptions :=
  match f with
  | input path => { o with input := .given path }
  | output path => { o with output := .given path }
  | cellOverflow mode => { o with cellOverflow := .given mode }
  | pointerOverflow mode => { o with pointerOverflow := .given mode }
  | eof mode => { o with eof := .given mode }
  | tapeLength n => { o with tapeLength := .given n }
  | cellWidth n => { o with cellWidth := .given n }
  | maxSteps n => { o with maxSteps := .given (some n) }

/-- **How a flag is written**: its name and its value in one word with an equals sign between them,
or its name or its letter and its value in two words. -/
inductive Spelled (f : Flag) : List String → Prop
  | joined {value : String} : f.Says value → value ≠ "--" → Spelled f [f.name ++ "=" ++ value]
  | apart {value : String} : f.Says value → IsOperand value → Spelled f [f.name, value]
  | letter {letter value : String} :
      f.letter? = some letter → f.Says value → IsOperand value → Spelled f [letter, value]

variable {f : Flag} {value : String} {o : RunOptions}

/-- The full names and the letters of all flags. -/
def names : List String :=
  ["--input", "--output", "--overflow", "--ptr-overflow", "--eof-mode", "--max-memory",
    "--cell-width", "--max-steps"]

def letters : List String :=
  ["-i", "-o", "-w", "-W", "-e", "-m"]

theorem name_mem (f : Flag) : f.name ∈ names := by
  cases f with
  | _ => simp [name, names]

theorem letter_mem {letter : String} (h : f.letter? = some letter) : letter ∈ letters := by
  revert letter
  cases f with
  | _ => simp [letter?, letters]

theorem name_dashed (f : Flag) : ∃ cs, f.name.toList = '-' :: '-' :: cs := by
  cases f with
  | _ => simp [name]

theorem name_plain (f : Flag) : '=' ∉ f.name.toList ∧ f.name ≠ "--" := by
  cases f with
  | _ => simp [name]

theorem joined_ne (f : Flag) (value : String) : f.name ++ "=" ++ value ≠ "--" := by
  intro heq
  have : '=' ∈ (f.name ++ "=" ++ value).toList := by simp
  rw [heq] at this
  exact absurd this (by decide)

theorem letter_dashed {letter : String} (h : f.letter? = some letter) :
    (∃ c, letter.toList = ['-', c]) ∧ letter ≠ "--" := by
  revert letter
  cases f with
  | _ => simp [letter?]

/-- **The options of the grammar are the flags.** -/
theorem exists_rule (f : Flag) : ∃ names action, runGrammar.find? f.name = some ⟨names, action⟩ ∧
    (∀ letter, f.letter? = some letter → runGrammar.find? letter = some ⟨names, action⟩) ∧
    ∀ word, f.Says word → action.Accepts word f.set := by
  cases f with
  | input path =>
      refine ⟨_, _, rfl, by rintro _ ⟨⟩; rfl, ?_⟩
      rintro _ rfl
      exact accepts_anyText fun _ => rfl
  | output path =>
      refine ⟨_, _, rfl, by rintro _ ⟨⟩; rfl, ?_⟩
      rintro _ rfl
      exact accepts_anyText fun _ => rfl
  | cellOverflow mode =>
      refine ⟨_, _, rfl, by rintro _ ⟨⟩; rfl, ?_⟩
      rintro _ rfl
      exact accepts_choice (Overflow.ofName?_name mode) fun _ => rfl
  | pointerOverflow mode =>
      refine ⟨_, _, rfl, by rintro _ ⟨⟩; rfl, ?_⟩
      rintro _ rfl
      exact accepts_choice (Overflow.ofName?_name mode) fun _ => rfl
  | eof mode =>
      refine ⟨_, _, rfl, by rintro _ ⟨⟩; rfl, ?_⟩
      rintro _ rfl
      exact accepts_choice (EofMode.ofName?_name mode) fun _ => rfl
  | tapeLength n =>
      exact ⟨_, _, rfl, by rintro _ ⟨⟩; rfl, fun _ h => accepts_integer h fun _ => rfl⟩
  | cellWidth n => exact ⟨_, _, rfl, nofun, fun _ h => accepts_integer h fun _ => rfl⟩
  | maxSteps n => exact ⟨_, _, rfl, nofun, fun _ h => accepts_integer h fun _ => rfl⟩

end Flag

/-! ## Whole command lines -/

/-- **How the words behind the command `run` are written**: the flags in any order, perhaps the
option for statistics, and among them the path of the program, unless it has been before. Behind two
dashes it may be any word. -/
inductive RunWords : Option String → List Flag → Bool → List String → Prop
  | nil : RunWords none [] false []
  | program {path : String} {fs : List Flag} {stats : Bool} {rest : List String} :
      IsOperand path → RunWords none fs stats rest → RunWords (some path) fs stats (path :: rest)
  | behind {path : String} : RunWords (some path) [] false ["--", path]
  | flag {q : Option String} {f : Flag} {fs : List Flag} {stats : Bool} {words rest : List String} :
      f.Spelled words → RunWords q fs stats rest → RunWords q (f :: fs) stats (words ++ rest)
  | stats {q : Option String} {name : String} {fs : List Flag} {stats : Bool} {rest : List String} :
      name ∈ ["-s", "--stats"] → RunWords q fs stats rest → RunWords q fs true (name :: rest)

/-- How the options before the command are written: whether colours are left on, and whether all is
told. -/
inductive GlobalWords : Bool → Bool → List String → Prop
  | nil : GlobalWords true false []
  | plain {color verbose : Bool} {rest : List String} :
      GlobalWords color verbose rest → GlobalWords false verbose ("--no-color" :: rest)
  | verbose {color verbose : Bool} {name : String} {rest : List String} :
      name ∈ ["-v", "--verbose"] → GlobalWords color verbose rest →
        GlobalWords color true (name :: rest)

/-- **What a run is asked for.** -/
structure RunRequest where
  /-- The path of the program. -/
  program : String
  flags : List Flag := []
  stats : Bool := false
  color : Bool := true
  verbose : Bool := false

/-- The options that are asked for: the flags are set one after the other. -/
def RunRequest.options (q : RunRequest) : RunOptions :=
  q.flags.foldl (fun o f => f.set o) { program := q.program, stats := q.stats }

/-- What a command line that makes the request is understood as. -/
def RunRequest.invocation (q : RunRequest) : Invocation :=
  { task := .run q.options, color := q.color, verbose := q.verbose }

/-- **How a request is written.** -/
def RunRequest.Spelled (q : RunRequest) (args : List String) : Prop :=
  ∃ before behind, args = before ++ "run" :: behind ∧ GlobalWords q.color q.verbose before ∧
    RunWords (some q.program) q.flags q.stats behind

namespace RunWords

variable {q : Option String} {fs : List Flag} {stats : Bool} {words : List String}

/-- The options with the program and the wish for statistics that are still to come. -/
def await (q : Option String) (stats : Bool) (o : RunOptions) : RunOptions :=
  { o with program := q.getD o.program, stats := stats || o.stats }

theorem set_await (f : Flag) (q : Option String) (stats : Bool) (o : RunOptions) :
    f.set (await q stats o) = await q stats (f.set o) := by
  cases f <;> rfl

theorem find?_stats {name : String} (h : name ∈ ["-s", "--stats"]) : ∃ names,
    runGrammar.find? name = some ⟨names, .flag fun o => { o with stats := true }⟩ := by
  simp only [List.mem_cons, List.not_mem_nil, or_false] at h
  rcases h with rfl | rfl
  · exact ⟨_, rfl⟩
  · exact ⟨_, rfl⟩

theorem named_plain : ∀ r ∈ runGrammar.named, '=' ∉ r.1.toList := by
  decide

theorem exists_consume_flag {f : Flag} {rest : List String} {ws : List (Word RunOptions)}
    (h : f.Spelled words) (hrest : runGrammar.classify rest = .ok ws) : ∃ word hit later,
      runGrammar.classify (words ++ rest) = .ok (⟨word, .option hit⟩ :: later) ∧
      ∀ p, runGrammar.consume (⟨word, .option hit⟩ :: later) p =
        runGrammar.consume ws { p with result := f.set p.result } := by
  obtain ⟨names, action, hname, hletter, haccepts⟩ := f.exists_rule
  obtain ⟨cs, hdashes⟩ := f.name_dashed
  obtain ⟨hplain, hne⟩ := f.name_plain
  cases h with
  | @joined value hsays hvalue =>
      have hword := Grammar.classifyWord_joined hdashes hplain named_plain hname value
      exact ⟨_, _, _, Grammar.classify_cons (f.joined_ne value) hword hrest,
        fun p => Grammar.consume_joined (haccepts value hsays) hvalue⟩
  | @apart value hsays hvalue =>
      have hrest' :=
        Grammar.classify_cons hvalue.ne_separator (Grammar.classifyWord_operand hvalue) hrest
      exact ⟨_, _, _, Grammar.classify_cons hne (Grammar.classifyWord_name hdashes hname) hrest',
        fun p => Grammar.consume_apart (haccepts value hsays)⟩
  | @letter letter value hl hsays hvalue =>
      have hrest' :=
        Grammar.classify_cons hvalue.ne_separator (Grammar.classifyWord_operand hvalue) hrest
      obtain ⟨⟨c, hc⟩, hl'⟩ := Flag.letter_dashed hl
      exact ⟨_, _, _, Grammar.classify_cons hl' (Grammar.classifyWord_name hc (hletter letter hl))
        hrest',
        fun p => Grammar.consume_apart (haccepts value hsays)⟩

/-- **The words are acted on as they are meant.** -/
theorem exists_consume (h : RunWords q fs stats words) : ∃ ws, runGrammar.classify words = .ok ws ∧
    (q = none → ∀ text later, ws ≠ ⟨text, .separator⟩ :: later) ∧
    ∀ p : Progress RunOptions, p.settled = q.isNone → runGrammar.consume ws p =
      .ok { p with
        result := fs.foldl (fun o f => f.set o) (await q stats p.result), settled := true } := by
  induction h with
  | nil =>
      refine ⟨[], rfl, nofun, ?_⟩
      rintro ⟨o, settled, unknown⟩ hp
      obtain rfl : settled = true := hp
      rfl
  | @program path fs stats rest hpath _ ih =>
      obtain ⟨ws, hws, hnext, hconsume⟩ := ih
      refine ⟨_, Grammar.classify_cons hpath.ne_separator (Grammar.classifyWord_operand hpath) hws,
        nofun, ?_⟩
      intro p hp
      rw [Grammar.consume_operand rfl hp (hnext rfl), hconsume _ rfl]
      rfl
  | @behind path =>
      refine ⟨[⟨"--", .separator⟩, ⟨path, .operand⟩], rfl, nofun, ?_⟩
      intro p hp
      exact Grammar.consume_separator (g := runGrammar) rfl hp
  | @flag q f fs stats words rest hspelled _ ih =>
      obtain ⟨ws, hws, _, hconsume⟩ := ih
      obtain ⟨word, hit, later, hclassify, hflag⟩ := exists_consume_flag hspelled hws
      refine ⟨_, hclassify, by simp, ?_⟩
      intro p hp
      rw [hflag, hconsume { p with result := f.set p.result } hp, List.foldl_cons, set_await]
  | @stats q name fs stats rest hname _ ih =>
      obtain ⟨ws, hws, _, hconsume⟩ := ih
      obtain ⟨names, hfind⟩ := find?_stats hname
      have hdashes : (∃ c cs, name.toList = '-' :: c :: cs) ∧ name ≠ "--" := by
        simp only [List.mem_cons, List.not_mem_nil, or_false] at hname
        rcases hname with rfl | rfl
        · exact ⟨⟨_, _, rfl⟩, by decide⟩
        · exact ⟨⟨_, _, rfl⟩, by decide⟩
      obtain ⟨⟨c, cs, hc⟩, hne⟩ := hdashes
      refine ⟨_, Grammar.classify_cons hne (Grammar.classifyWord_name hc hfind) hws, by simp, ?_⟩
      intro p hp
      rw [Grammar.consume_flag rfl, hconsume { p with result := { p.result with stats := true } }
        hp]
      simp [await]

theorem parse {path : String} (h : RunWords (some path) fs stats words) :
    runGrammar.parse words {} = .ok (fs.foldl (fun o f => f.set o) { program := path, stats },
      []) := by
  obtain ⟨ws, hws, _, hconsume⟩ := h.exists_consume
  have hstart : await (some path) stats {} = { program := path, stats } := by simp [await]
  rw [Grammar.parse, hws]
  simp only [bind, Except.bind, hconsume { result := {} } rfl, hstart]
  rfl

/-! ### The same words, before it is known that they belong to the command -/

theorem main_named_plain : ∀ r ∈ mainGrammar.named, '=' ∉ r.1.toList := by
  decide

theorem exists_main_kind (f : Flag) :
    (∃ kind, mainGrammar.classifyWord f.name = .ok kind) ∧
      (∀ value, ∃ kind, mainGrammar.classifyWord (f.name ++ "=" ++ value) = .ok kind) ∧
      ∀ letter, f.letter? = some letter → ∃ kind, mainGrammar.classifyWord letter = .ok kind := by
  have hsilent : ∀ word ∈ Flag.names ++ Flag.letters,
    (mainGrammar.find? (Grammar.splitWord word).1).isNone ∧
      (mainGrammar.find? word).isNone ∧ (mainGrammar.candidates word).isEmpty := by
    decide
  have hkind : ∀ word ∈ Flag.names ++ Flag.letters, ∃ kind, mainGrammar.classifyWord word =
    .ok kind := by
    intro word hword
    obtain ⟨hsplit, hfind, hnone⟩ := hsilent word hword
    exact Grammar.exists_classifyWord (Option.isNone_iff_eq_none.mp hsplit)
      (Option.isNone_iff_eq_none.mp hfind)
      (List.isEmpty_iff.mp hnone)
  refine ⟨hkind _ (List.mem_append_left _ f.name_mem), ?_, ?_⟩
  · obtain ⟨cs, hcs⟩ := f.name_dashed
    have hbegins : ∀ name ∈ Flag.names, ∀ r ∈ mainGrammar.named, name.toList.isPrefixOf r.1.toList =
      false := by
      decide
    exact Grammar.exists_classifyWord_joined hcs f.name_plain.1 main_named_plain
      (hbegins f.name f.name_mem)
  · exact fun letter hletter => hkind _ (List.mem_append_right _ (Flag.letter_mem hletter))

theorem exists_classify_cons {word : String} {rest : List String} (hne : word ≠ "--")
    (hword : ∃ kind, mainGrammar.classifyWord word = .ok kind)
    (hrest : ∃ ws, mainGrammar.classify rest = .ok ws ∧ ws.map (·.text) = rest) :
    ∃ ws, mainGrammar.classify (word :: rest) = .ok ws ∧ ws.map (·.text) = word :: rest := by
  obtain ⟨kind, hkind⟩ := hword
  obtain ⟨ws, hws, htext⟩ := hrest
  exact ⟨_, Grammar.classify_cons hne hkind hws, congrArg (word :: ·) htext⟩

theorem exists_classify (h : RunWords q fs stats words) :
    ∃ ws, mainGrammar.classify words = .ok ws ∧ ws.map (·.text) = words := by
  induction h with
  | nil => exact ⟨[], rfl, rfl⟩
  | program hpath _ ih =>
      exact exists_classify_cons hpath.ne_separator ⟨_, Grammar.classifyWord_operand hpath⟩ ih
  | @behind path => exact ⟨[⟨"--", .separator⟩, ⟨path, .operand⟩], rfl, rfl⟩
  | @flag q f fs stats words rest hspelled _ ih =>
      obtain ⟨hname, hjoined, hletters⟩ := exists_main_kind f
      cases hspelled with
      | @joined value hsays hvalue =>
          exact exists_classify_cons (f.joined_ne value) (hjoined value) ih
      | @apart value hsays hvalue =>
          exact exists_classify_cons f.name_plain.2 hname
            (exists_classify_cons hvalue.ne_separator ⟨_, Grammar.classifyWord_operand hvalue⟩ ih)
      | @letter letter value hletter hsays hvalue =>
          exact exists_classify_cons (Flag.letter_dashed hletter).2 (hletters letter hletter)
            (exists_classify_cons hvalue.ne_separator ⟨_, Grammar.classifyWord_operand hvalue⟩ ih)
  | @stats q name fs stats rest hname _ ih =>
      simp only [List.mem_cons, List.not_mem_nil, or_false] at hname
      rcases hname with rfl | rfl
      · exact exists_classify_cons (by decide) (Grammar.exists_classifyWord rfl rfl rfl) ih
      · exact exists_classify_cons (by decide) (Grammar.exists_classifyWord rfl rfl rfl) ih

end RunWords

/-! ### The words before the command -/

theorem Grammar.exists_consume_flag {σ : Type} {g : Grammar σ} {names : List String}
    {name : String} {k : σ → σ} {c : Char} {cs : List Char} {rest : List String}
    {ws : List (Word σ)} (hname : name.toList = '-' :: c :: cs) (hne : name ≠ "--")
    (hfind : g.find? name = some ⟨names, .flag k⟩) (hrest : g.classify rest = .ok ws) :
    ∃ ws', g.classify (name :: rest) = .ok ws' ∧
      ∀ p, g.consume ws' p = g.consume ws { p with result := k p.result } :=
  ⟨_, classify_cons hne (classifyWord_name hname hfind) hrest, fun _ => consume_flag rfl⟩

theorem GlobalWords.exists_consume {color verbose : Bool} {before : List String}
    (h : GlobalWords color verbose before) {rest : List String} {ws : List (Word Invocation)}
    (hrest : mainGrammar.classify rest = .ok ws) :
    ∃ ws', mainGrammar.classify (before ++ rest) = .ok ws' ∧ ∀ p, mainGrammar.consume ws' p =
      mainGrammar.consume ws { p with
        result := { p.result with
          color := color && p.result.color, verbose := verbose || p.result.verbose } } := by
  induction h with
  | nil => exact ⟨ws, hrest, fun p => by simp⟩
  | @plain color verbose words _ ih =>
      obtain ⟨later, hlater, hconsume⟩ := ih
      have hdashes : "--no-color".toList = '-' :: "-no-color".toList := rfl
      obtain ⟨ws', hws', hflag⟩ := Grammar.exists_consume_flag hdashes (by decide) rfl hlater
      refine ⟨ws', hws', fun p => ?_⟩
      rw [hflag, hconsume]
      simp
  | @verbose color verbose name words hname _ ih =>
      obtain ⟨later, hlater, hconsume⟩ := ih
      obtain ⟨c, cs, names, hdashes, hne, hfind⟩ : ∃ c cs names, name.toList = '-' :: c :: cs ∧
        name ≠ "--" ∧
          mainGrammar.find? name = some ⟨names, .flag fun x => { x with verbose := true }⟩ := by
        simp only [List.mem_cons, List.not_mem_nil, or_false] at hname
        rcases hname with rfl | rfl
        · exact ⟨_, _, _, rfl, by decide, rfl⟩
        · exact ⟨_, _, _, rfl, by decide, rfl⟩
      obtain ⟨ws', hws', hflag⟩ := Grammar.exists_consume_flag hdashes hne hfind hlater
      refine ⟨ws', hws', fun p => ?_⟩
      rw [hflag, hconsume]
      simp

/-- **A request is understood as it is meant**, however it is written. -/
theorem RunRequest.Spelled.parse {q : RunRequest} {args : List String} (h : q.Spelled args) :
    Invocation.parse args = .ok q.invocation := by
  obtain ⟨before, behind, rfl, hbefore, hbehind⟩ := h
  obtain ⟨ws, hws, htext⟩ := hbehind.exists_classify
  have hrun : mainGrammar.classify ("run" :: behind) = .ok (⟨"run", .operand⟩ :: ws) :=
    Grammar.classify_cons (by decide) rfl hws
  obtain ⟨ws', hws', hconsume⟩ := hbefore.exists_consume hrun
  have henter : enter "run" behind { color := q.color, verbose := q.verbose } =
    .ok (q.invocation, []) := by
    simp only [enter, hbehind.parse, bind, Except.bind]
    rfl
  have hcommand : mainGrammar.consume (⟨"run", .operand⟩ :: ws)
      { result := { color := q.color, verbose := q.verbose } } = .ok ⟨q.invocation, true, []⟩ := by
    conv => lhs; unfold Grammar.consume
    simp only [mainGrammar, htext, henter, bind, Except.bind]
    rfl
  have hparse : mainGrammar.parse (before ++ "run" :: behind) {} = .ok (q.invocation, []) := by
    rw [Grammar.parse, hws']
    simp only [bind, Except.bind, hconsume, Bool.and_true, Bool.or_false, hcommand]
    rfl
  rw [Invocation.parse, hparse]
  rfl

end Command

end TapeLang
