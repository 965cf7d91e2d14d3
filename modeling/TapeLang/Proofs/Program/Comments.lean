import TapeLang.Machine.Run
import TapeLang.Proofs.Program.Loading
import TapeLang.Proofs.Program.Pass
import TapeLang.Proofs.Source.Tokens

/-!
# Comments never matter

A source and its instructions alone load to the same tables, or fail at the same instruction.

* `Machine.run_of_tables` — a run only looks at the instructions and at the table of partners.
* `LoadedAlike`, `loadedAlike_stripped` — what loading a source and loading it without its comments
  have in common.
* `offsets_of_load`, `text_of_load` — the offsets of a loaded program lead to its instructions, and
  its text is the source without comments.
* `load_comments` — all of it, with the programs of sources that are given as text.
-/

namespace TapeLang

/-! ## Runs -/

namespace Machine

variable {p p' : Program}

theorem perform_of_tables (hj : p.jumps = p'.jumps) (config : Config) (i : Nat) (op : Instruction)
    (s : State) (io : Streams) :
    (Machine.mk p config).perform i op s io = (Machine.mk p' config).perform i op s io := by
  cases op with
  | loopOpen => simp only [perform, branch, Program.partner, hj]
  | loopClose => simp only [perform, branch, Program.partner, hj]
  | _ => rfl

theorem finished_of_tables (hi : p.instructions = p'.instructions) (config : Config) (s : State) :
    (Machine.mk p config).finished s = (Machine.mk p' config).finished s := by
  rw [finished, finished, Program.size, Program.size, hi]

variable (hi : p.instructions = p'.instructions) (hj : p.jumps = p'.jumps)

include hi hj

theorem step_of_tables (config : Config) (s : State) (io : Streams) :
    (Machine.mk p config).step s io = (Machine.mk p' config).step s io := by
  have hperform := perform_of_tables hj config
  have hfinished := finished_of_tables hi config s
  obtain ⟨source, instructions, offsets, jumps⟩ := p
  obtain ⟨source', instructions', offsets', jumps'⟩ := p'
  cases hi
  rw [step, step, hfinished]
  -- With the instructions the same, an index names the same place.
  cases hslot : (Program.mk source instructions offsets jumps).slot s.ip with
  | error f =>
      have hslot' : (Program.mk source' instructions offsets' jumps').slot s.ip = .error f := hslot
      rw [hslot']
  | ok i =>
      have hslot' : (Program.mk source' instructions offsets' jumps').slot s.ip = .ok i := hslot
      simp only [hslot', hperform]

theorem advance_of_tables (config : Config) (n : Nat) (s : State) (io : Streams) :
    (Machine.mk p config).advance n s io = (Machine.mk p' config).advance n s io := by
  induction n generalizing s io with
  | zero => rw [advance, advance, finished_of_tables hi]
  | succ n ih =>
      rw [advance, advance, finished_of_tables hi, step_of_tables hi hj]
      split
      · rfl
      · split
        · rfl
        · exact ih _ _

/-- **A run looks at nothing of a program but its instructions and its table of partners.** -/
theorem run_of_tables (config : Config) (fuel : Nat) (limit : Option Int) (s : State)
    (io : Streams) :
    (Machine.mk p config).run fuel limit s io = (Machine.mk p' config).run fuel limit s io := by
  cases limit with
  | none => simp only [run, runFor, advance_of_tables hi hj]
  | some k => simp only [run, runUpTo, advance_of_tables hi hj]

end Machine

namespace Program

open Source (code stripped)

/-! ## With and without comments -/

/-- Faults of the same class. Open brackets are the same ones in both, if the first source has them
at the offsets `place` of those of the second. -/
inductive SameClass (place : Nat → Nat) : LoadError.Kind → LoadError.Kind → Prop
  | unopened : SameClass place .unopened .unopened
  | unclosed (opened : List Nat) :
      SameClass place (.unclosed (opened.map fun i : Nat => (place i : Int)))
        (.unclosed (opened.map fun i : Nat => (i : Int)))

/-- **Loaded alike**: two sources give the same instructions and partners, or fail in the same way
at the same instruction. -/
inductive LoadedAlike (place : Nat → Nat) : Except LoadError Program → Except LoadError Program →
    Prop
  | loaded {p p' : Program} :
      p.instructions = p'.instructions → p.jumps = p'.jumps → LoadedAlike place (.ok p) (.ok p')
  | failed {e e' : LoadError} :
      SameClass place e.kind e'.kind → e.index = e'.index → LoadedAlike place (.error e) (.error e')

theorem getD_offsets_stripped (source : List UInt8) {i : Nat} (h : i < (code source).length) :
    (Source.offsets (stripped source)).getD i 0 = i := by
  rw [Source.offsets_stripped, List.getD_eq_getElem?_getD, List.getElem?_range h, Option.getD_some]

/-- **A source loads as it does without its comments.** -/
theorem loadedAlike_stripped (source : List UInt8) :
    LoadedAlike (fun i => (Source.offsets source).getD i 0) (load source)
      (load (stripped source)) := by
  have hcode : code (stripped source) = code source := Source.code_stripped source
  cases hrun : Matching.run {} (code source) with
  | error i =>
      rw [load_of_stuck hrun, load_of_stuck (hcode ▸ hrun)]
      exact .failed .unopened rfl
  | ok m =>
      cases hopened : m.opened.reverse with
      | nil =>
          have hnone : m.opened = [] := List.reverse_eq_nil_iff.mp hopened
          rw [load_of_closed hrun hnone, load_of_closed (hcode ▸ hrun) hnone, hcode]
          exact .loaded rfl rfl
      | cons outermost inner =>
          have hset : Matching.Settled (code source) m := Matching.settled_nil.run_ok hrun
          have hplaces :
              m.opened.reverse.map (fun i => ((Source.offsets (stripped source)).getD i 0 : Int)) =
                m.opened.reverse.map fun i : Nat => (i : Int) := by
            refine List.map_congr_left fun i hi => ?_
            rw [getD_offsets_stripped source (hset.waiting.lt_length i (List.mem_reverse.mp hi))]
          rw [load_of_opened hrun hopened, load_of_opened (hcode ▸ hrun) hopened, hplaces]
          exact .failed (.unclosed _) rfl

/-! ## A loaded program and its source -/

theorem tables_of_load {source : List UInt8} {p : Program} (h : load source = .ok p) :
    p.instructions = (code source).toArray ∧ p.offsets = (Source.offsets source).toArray := by
  have houtcome := load_outcome source
  rw [h] at houtcome
  cases houtcome
  exact ⟨rfl, rfl⟩

/-- **The offsets of a loaded program increase, and its instructions stand there.** -/
theorem offsets_of_load {source : List UInt8} {p : Program} (h : load source = .ok p) :
    p.offsets.toList.Pairwise (· < ·) ∧
      ∀ (i : Nat) (x : Instruction), p.instructions[i]? = some x →
        ∃ o, p.offsets[i]? = some o ∧ source[o]? = some x.byte := by
  obtain ⟨hcode, hoffsets⟩ := tables_of_load h
  rw [hcode, hoffsets]
  refine ⟨Source.offsets_sorted source, fun i x hx => ?_⟩
  rw [List.getElem?_toArray] at hx ⊢
  exact Source.byte_at_offset hx

/-- **The text of a loaded program is its source without comments.** -/
theorem text_of_load {source : List UInt8} {p : Program} (h : load source = .ok p) :
    Source.ofString p.text = stripped source := by
  obtain ⟨hcode, _⟩ := tables_of_load h
  rw [text, hcode, Source.ofString_symbols, Source.stripped_eq]

theorem exists_load_stripped {source : List UInt8} {p : Program} (h : load source = .ok p) :
    ∃ bare, load (stripped source) = .ok bare ∧ bare.instructions = p.instructions ∧
      bare.jumps = p.jumps := by
  have halike := loadedAlike_stripped source
  rw [h] at halike
  generalize load (stripped source) = result at halike
  cases halike with
  | @loaded _ bare hi hj => exact ⟨bare, rfl, hi.symm, hj.symm⟩

theorem offsets_of_bare {source : List UInt8} {p bare : Program} (h : load source = .ok p)
    (hbare : load (stripped source) = .ok bare) : bare.offsets = Array.range p.size := by
  refine Array.toList_inj.mp ?_
  rw [(tables_of_load hbare).2, Array.toList_range, size, (tables_of_load h).1, List.size_toArray,
    Source.offsets_stripped]

/-- **Comments never matter.** A source loads as it does without its comments: to the same
instructions and partners, or to a fault of the same class at the same instruction. The text of a
loaded program is the source without comments, its offsets increase and lead to its instructions;
loading that text gives a program with offsets that count up from zero and the same runs. The
instructions of a text are the instruction characters it has, and its program has the same
characters: no other character has a byte that is read as an instruction. -/
theorem load_comments (source : List UInt8) (text : String) :
    LoadedAlike (fun i => (Source.offsets source).getD i 0) (load source) (load (stripped source)) ∧
      (∀ p, load source = .ok p →
        Source.ofString p.text = stripped source ∧ p.offsets.toList.Pairwise (· < ·) ∧
          (∀ (i : Nat) (x : Instruction), p.instructions[i]? = some x →
            ∃ o, p.offsets[i]? = some o ∧ source[o]? = some x.byte) ∧
          ∃ bare, loadText p.text = .ok bare ∧ load (stripped source) = .ok bare ∧
            bare.instructions = p.instructions ∧ bare.jumps = p.jumps ∧
              bare.offsets = Array.range p.size ∧
            ∀ config fuel limit s io,
              (Machine.mk bare config).run fuel limit s io =
                (Machine.mk p config).run fuel limit s io) ∧
      (Source.tokens (Source.ofString text)).map (·.instruction) =
        text.toList.filterMap Instruction.ofSymbol? ∧
      (∀ p, loadText text = .ok p →
        p.instructions.toList = text.toList.filterMap Instruction.ofSymbol? ∧
          p.text.toList = text.toList.filter fun c => (Instruction.ofSymbol? c).isSome) ∧
      ∀ c, (∀ i : Instruction, c ≠ i.symbol) → ∀ b ∈ String.utf8EncodeChar c,
        Instruction.ofByte? b = none := by
  refine ⟨loadedAlike_stripped source, ?_, by rw [code_eq, Source.code_ofString], ?_, ?_⟩
  · intro p hload
    have htext := text_of_load hload
    obtain ⟨hsorted, hbytes⟩ := offsets_of_load hload
    obtain ⟨bare, hbare, hi, hj⟩ := exists_load_stripped hload
    refine ⟨htext, hsorted, hbytes, bare, by rw [loadText, htext, hbare], hbare, hi, hj,
      offsets_of_bare hload hbare, ?_⟩
    exact fun config => Machine.run_of_tables hi hj config
  · intro p hload
    have hcode : p.instructions.toList = text.toList.filterMap Instruction.ofSymbol? := by
      rw [(tables_of_load hload).1, Source.code_ofString]
    refine ⟨hcode, ?_⟩
    rw [Program.text, String.toList_ofList, hcode, Source.map_symbol_filterMap]
  · intro c hc b hb
    have hnone : code (String.utf8EncodeChar c) = [] := by
      rw [Source.code_utf8EncodeChar, Source.ofSymbol?_eq_none hc, Option.toList_none]
    exact List.filterMap_eq_nil_iff.mp hnone b hb

/-- `a+ [.]` loads to what `+[.]` loads to, but for the offsets. -/
theorem load_comments_between :
    let source : List UInt8 := [0x61, 0x2B, 0x20, 0x5B, 0x2E, 0x5D]
    let p : Program := ⟨source, #[.increment, .loopOpen, .write, .loopClose], #[1, 3, 4, 5],
      #[none, some 3, none, some 1]⟩
    load source = .ok p ∧ loadText "a+ [.]" = .ok p ∧ p.text.toList = ['+', '[', '.', ']'] ∧
      ∃ bare, loadText p.text = .ok bare ∧ load [0x2B, 0x5B, 0x2E, 0x5D] = .ok bare ∧
        bare.instructions = p.instructions ∧ bare.jumps = p.jumps ∧ bare.offsets = #[0, 1, 2, 3] ∧
        ∀ config fuel limit s io,
          (Machine.mk bare config).run fuel limit s io =
            (Machine.mk p config).run fuel limit s io := by
  intro source p
  have hload : load source = .ok p := by decide
  have htext : loadText "a+ [.]" = .ok p := by decide
  obtain ⟨-, hloaded, -, hchars, -⟩ := load_comments source "a+ [.]"
  obtain ⟨-, -, -, bare, hbare, hstripped, hi, hj, hoffsets, hruns⟩ := hloaded p hload
  have hsymbols : "a+ [.]".toList.filter (fun c => (Instruction.ofSymbol? c).isSome) =
      ['+', '[', '.', ']'] := by
    decide
  exact ⟨hload, htext, (hchars p htext).2.trans hsymbols, bare, hbare, hstripped, hi, hj, hoffsets,
    hruns⟩

end Program

end TapeLang
