import TapeLang.Text.Decimal
import TapeLang.Text.Quoted

/-!
# Command-line grammars

The option parser behind `bfvm.cli`. A grammar says which options a list of words may hold and what
the first other word, the operand, stands for. A long name may be cut short as long as it stays
unique, one-letter options may be written together, and `--` as an argument leaves an option without
a value.

* `Grammar.classify` — tells options from operands, for all words before any is acted on. A word
  behind `--`, one that reads as a negative number and one that holds a space are operands.
* `Grammar.cluster`, `Grammar.consume` — the options written in one word, and acting on all words.
* `Grammar.parse` — the whole: the result, and the words that mean nothing in this grammar.
-/

namespace TapeLang.Command

open TapeLang.Text

/-! ## What grammars are made of -/

/-- Why nothing is run. -/
inductive Notice
  | shown (text : String)
  /-- The command line is wrong: the usage of the grammar, its program name, and what is wrong. -/
  | refused (usage program message : String)
  deriving DecidableEq, Repr

/-- A change to the result `σ` of a command line, unless a notice is shown instead. -/
abbrev Effect (σ : Type) := σ → Except Notice σ

/-- What an option does. -/
inductive Action (σ : Type)
  | bare (effect : Effect σ)
  /-- It takes an argument, which it may refuse. It may also be left without a value. -/
  | value (apply : String → σ → Except String σ) (void : σ → σ)

namespace Action

variable {σ : Type}

def flag (apply : σ → σ) : Action σ :=
  .bare fun x => .ok (apply x)

def info (text : String) : Action σ :=
  .bare fun _ => .error (.shown text)

end Action

/-- An option: its names and what it does. -/
structure Rule (σ : Type) where
  names : List String
  action : Action σ

def Rule.title {σ : Type} (r : Rule σ) : String :=
  "/".intercalate r.names

/-- What the operand of a command line stands for. -/
inductive Operand (σ : Type)
  | word (name : String) (apply : String → σ → σ)
  /-- A command, to which all the words behind it belong. It also gives the words that mean nothing
  to it. -/
  | command (enter : String → List String → σ → Except Notice (σ × List String))

structure Grammar (σ : Type) where
  program : String
  usage : String
  rules : List (Rule σ)
  operand : Operand σ

/-! ## Words -/

/-- An option found in a word. -/
structure Hit (σ : Type) where
  rule : Rule σ
  /-- The full name that was meant. -/
  name : String
  /-- What stands behind the name in the same word; behind a full name, what follows an equals
  sign. -/
  tail : Option (List Char) := none

inductive Word.Kind (σ : Type)
  | operand
  /-- The word `--`, behind which there are only operands. -/
  | separator
  | option (hit : Hit σ)
  /-- It looks like an option, and the grammar has none like it. -/
  | unknown

structure Word (σ : Type) where
  text : String
  kind : Word.Kind σ

/-- How far a command line has been acted on. -/
structure Progress (σ : Type) where
  result : σ
  settled : Bool := false
  /-- The words that mean nothing. -/
  unknown : List String := []

def isShort (name : String) : Bool :=
  match name.toList with
  | ['-', c] => c != '-'
  | _ => false

namespace Grammar

variable {σ : Type}

/-! ## Complaints and names -/

def refuse (g : Grammar σ) (message : String) : Notice :=
  .refused g.usage g.program message

def refuseOption (g : Grammar σ) (r : Rule σ) (message : String) : Notice :=
  g.refuse ("argument " ++ r.title ++ ": " ++ message)

def named (g : Grammar σ) : List (String × Rule σ) :=
  g.rules.flatMap fun r => r.names.map (·, r)

def find? (g : Grammar σ) (name : String) : Option (Rule σ) :=
  g.named.lookup name

/-! ## Telling words apart -/

/-- A word's part before the first equals sign, and the part behind it, if there is one. -/
def splitWord (text : String) : String × Option (List Char) :=
  let name := String.ofList (text.toList.takeWhile (· != '='))
  match text.toList.dropWhile (· != '=') with
  | [] => (name, none)
  | _ :: tail => (name, some tail)

/-- The options that a word may mean: those whose long name it begins, or the one whose letter it
begins with. -/
def candidates (g : Grammar σ) (text : String) : List (Hit σ) :=
  match text.toList with
  | '-' :: '-' :: _ =>
    let (start, tail) := splitWord text
    g.named.filterMap fun (name, rule) =>
      if start.toList.isPrefixOf name.toList then some ⟨rule, name, tail⟩ else none
  | d :: c :: tail =>
    g.named.filterMap fun (name, rule) =>
      if name.toList = [d, c] then some ⟨rule, name, some tail⟩ else none
  | _ => []

/-- What a word that begins with a dash is, if it is not just that and not a full name. -/
def classifyDashed (g : Grammar σ) (text : String) : Except Notice (Word.Kind σ) :=
  match g.candidates text with
  | [] => .ok (if isNegativeNumber text || text.contains ' ' then .operand else .unknown)
  | [hit] => .ok (.option hit)
  | hits => .error (g.refuse ("ambiguous option: " ++ text ++ " could match " ++
      ", ".intercalate (hits.map (·.name))))

/-- What a word is, before any separator. A full name goes before the names that a word begins. -/
def classifyWord (g : Grammar σ) (text : String) : Except Notice (Word.Kind σ) :=
  match text.toList with
  | '-' :: _ :: _ =>
    let (name, tail) := splitWord text
    match g.find? text, g.find? name with
    | some rule, _ => .ok (.option ⟨rule, text, none⟩)
    | none, some rule => .ok (.option ⟨rule, name, tail⟩)
    | none, none => g.classifyDashed text
  | _ => .ok .operand

def classify (g : Grammar σ) : List String → Except Notice (List (Word σ))
  | [] => .ok []
  | text :: rest =>
    if text = "--" then .ok (⟨text, .separator⟩ :: rest.map fun t => ⟨t, .operand⟩)
    else do
      let kind ← g.classifyWord text
      let later ← g.classify rest
      return ⟨text, kind⟩ :: later

/-! ## Acting on words -/

def applied (g : Grammar σ) (r : Rule σ) (apply : String → σ → Except String σ)
    (argument : String) : Effect σ :=
  fun x => (apply argument x).mapError (g.refuseOption r)

def joined (g : Grammar σ) (r : Rule σ) (apply : String → σ → Except String σ) (void : σ → σ)
    (argument : String) :
    Effect σ :=
  if argument = "--" then fun x => .ok (void x) else g.applied r apply argument

def refuseTail (g : Grammar σ) (r : Rule σ) (tail : List Char) : Notice :=
  g.refuseOption r ("ignored explicit argument " ++ quoted (String.ofList tail))

/-- The effects of the options that `tail` is written behind, the first being `rule`, and the last
option if nothing is left for it. Each letter behind an option without an argument is an option too;
a long name has none behind it. -/
def cluster (g : Grammar σ) (rule : Rule σ) (name : String) (tail : List Char) :
    Except Notice (List (Effect σ) × Option (Rule σ)) :=
  match rule.action, tail with
  | .value apply void, tail => .ok ([g.joined rule apply void (String.ofList tail)], none)
  | .bare _, [] => .error (g.refuseTail rule [])
  | .bare effect, c :: rest =>
    let next := String.ofList ['-', c]
    if isShort name then
      match g.find? next, rest with
      | none, _ => .error (g.refuseTail rule (c :: rest))
      | some rule, [] => .ok ([effect], some rule)
      | some rule, d :: more => do
        let (effects, last) ← g.cluster rule next (d :: more)
        return (effect :: effects, last)
    else .error (g.refuseTail rule (c :: rest))

def hitEffects (g : Grammar σ) (hit : Hit σ) : Except Notice (List (Effect σ) × Option (Rule σ)) :=
  match hit.tail with
  | none => .ok ([], some hit.rule)
  | some tail => g.cluster hit.rule hit.name tail

def act (effects : List (Effect σ)) (x : σ) : Except Notice σ :=
  effects.foldlM (fun x effect => effect x) x

def consume (g : Grammar σ) : List (Word σ) → Progress σ → Except Notice (Progress σ)
  | [], p => .ok p
  | w :: rest, p =>
    let skip : Progress σ := { p with unknown := p.unknown ++ [w.text] }
    match w.kind with
    | .unknown => g.consume rest skip
    | .option hit => do
      let (effects, last) ← g.hitEffects hit
      match last with
      | none => g.consume rest { p with result := ← act effects p.result }
      | some rule =>
        match rule.action with
        | .bare effect => g.consume rest { p with result := ← act (effects ++ [effect]) p.result }
        | .value apply _ =>
          match rest with
          | ⟨argument, .operand⟩ :: later =>
            g.consume later
              { p with result := ← act (effects ++ [g.applied rule apply argument]) p.result }
          | _ => .error (g.refuseOption rule "expected one argument")
    | .separator =>
      if p.settled then g.consume rest skip
      else
        match rest with
        | ⟨text, .operand⟩ :: later =>
          match g.operand with
          | .word _ apply =>
            g.consume later { p with result := apply text p.result, settled := true }
          | .command enter => do
            let (result, unknown) ← enter w.text (rest.map (·.text)) p.result
            return ⟨result, true, p.unknown ++ unknown⟩
        | later => g.consume later skip
    | .operand =>
      if p.settled then g.consume rest skip
      else
        match g.operand with
        | .word _ apply =>
          let p := { p with result := apply w.text p.result, settled := true }
          match rest with
          | ⟨_, .separator⟩ :: later => g.consume later p
          | later => g.consume later p
        | .command enter => do
          let (result, unknown) ← enter w.text (rest.map (·.text)) p.result
          return ⟨result, true, p.unknown ++ unknown⟩

/-- The result of a command line that starts from `initial`, and the words that mean nothing in the
grammar. -/
def parse (g : Grammar σ) (args : List String) (initial : σ) : Except Notice (σ × List String) := do
  let words ← g.classify args
  let p ← g.consume words { result := initial }
  match g.operand, p.settled with
  | .word name _, false => .error (g.refuse ("the following arguments are required: " ++ name))
  | _, _ => return (p.result, p.unknown)

end Grammar

end TapeLang.Command
