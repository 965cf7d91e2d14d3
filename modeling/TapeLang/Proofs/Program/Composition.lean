import TapeLang.Proofs.Program.Loading
import TapeLang.Proofs.Program.Nesting
import TapeLang.Proofs.Program.Pass

/-!
# Programs put together

Loading goes along with concatenation: sources that load by themselves load one behind the other, to
their programs put together, and a source in brackets loads to its program in brackets.

* `Matching.relocate` — a pass behind other code; `run_relocate`, `run_relocate_stuck` — it goes as
  the pass alone.
* `append`, `enclosed` — two programs one behind the other, and a program in brackets.
* `load_append_eq`, `exists_load_of_append`, `load_enclosed_eq` — that is what the sources load to;
  `load_append` — all of it, with the number of loops and how deep they nest.
-/

namespace TapeLang

namespace Matching

variable {base : Array (Option Nat)} {stack : List Nat} {m next : Matching}

/-- **A pass behind other code**, which has left the table `base` and the open brackets `stack`: its
indices are moved behind the table, and its open brackets lie above those of the other code. -/
def relocate (base : Array (Option Nat)) (stack : List Nat) (m : Matching) : Matching where
  jumps := base ++ m.jumps.map (Option.map (· + base.size))
  opened := m.opened.map (· + base.size) ++ stack

theorem relocate_empty (base : Array (Option Nat)) (stack : List Nat) :
    ({} : Matching).relocate base stack = ⟨base, stack⟩ := by
  simp [relocate]

theorem size_relocate (base : Array (Option Nat)) (stack : List Nat) (m : Matching) :
    (m.relocate base stack).jumps.size = m.jumps.size + base.size := by
  simp [relocate, Nat.add_comm]

theorem push_relocate {x : Instruction} (h : m.push x = some next) :
    (m.relocate base stack).push x = some (next.relocate base stack) := by
  have hsize := size_relocate base stack m
  cases x with
  | loopOpen =>
      cases h
      simp only [push, hsize]
      simp [relocate]
  | loopClose =>
      cases ho : m.opened with
      | nil => simp [push, ho] at h
      | cons first rest =>
          simp only [push, ho, Option.some.injEq] at h
          subst h
          have hopened :
              (m.relocate base stack).opened = (first + base.size) :: (rest.map (· + base.size) ++
                stack) := by
            simp [relocate, ho]
          simp only [push, hopened, hsize]
          simp [relocate, Array.setIfInBounds_append_right]
  | _ =>
      cases h
      simp [push, relocate]

/-- **A pass goes behind other code as it goes alone.** -/
theorem run_relocate {w : List Instruction} (h : m.run w = .ok next) :
    (m.relocate base stack).run w = .ok (next.relocate base stack) := by
  induction w generalizing m with
  | nil =>
      cases h
      rfl
  | cons x w ih =>
      rw [run_cons] at h ⊢
      cases hp : m.push x with
      | some after =>
          rw [hp] at h
          rw [push_relocate hp]
          exact ih h
      | none =>
          rw [hp] at h
          cases h

/-- A pass that stops alone also stops behind code that has left nothing open. -/
theorem run_relocate_stuck {w : List Instruction} {i : Nat} (h : m.run w = .error i) :
    (m.relocate base []).run w = .error (i + base.size) := by
  induction w generalizing m with
  | nil => cases h
  | cons x w ih =>
      rw [run_cons] at h ⊢
      cases hp : m.push x with
      | some after =>
          rw [hp] at h
          rw [push_relocate hp]
          exact ih h
      | none =>
          rw [hp] at h
          cases h
          obtain ⟨rfl, ho⟩ := push_eq_none_iff.mp hp
          have hnone : (m.relocate base []).push .loopClose = none :=
            push_eq_none_iff.mpr ⟨rfl, by simp [relocate, ho]⟩
          rw [hnone, size_relocate]

end Matching

namespace Program

open Instruction (brackets)
open Source (code)

variable {a b : List UInt8} {p q : Program}

/-! ## Two programs -/

/-- **Two programs, one behind the other.** The partners of the second are moved by the number of
instructions of the first, its offsets by the length of the source. -/
def append (p q : Program) : Program where
  source := p.source ++ q.source
  instructions := p.instructions ++ q.instructions
  offsets := p.offsets ++ q.offsets.map (· + p.source.length)
  jumps := p.jumps ++ q.jumps.map (Option.map (· + p.size))

/-- The pass over two sources when it has left nothing open behind the first. -/
theorem run_code_append {m : Matching} (ha : Matching.run {} (code a) = .ok m)
    (hnone : m.opened = []) (b : List UInt8) :
    Matching.run {} (code (a ++ b)) = (Matching.relocate m.jumps [] {}).run (code b) := by
  obtain ⟨jumps, opened⟩ := m
  obtain rfl : opened = [] := hnone
  rw [Source.code_append, Matching.run_append, ha, Matching.relocate_empty]

theorem load_append_eq (ha : load a = .ok p) (hb : load b = .ok q) :
    load (a ++ b) = .ok (p.append q) := by
  obtain ⟨m, hrun, hnone, rfl⟩ := load_eq_ok_iff.mp ha
  obtain ⟨n, hrun', hnone', rfl⟩ := load_eq_ok_iff.mp hb
  have hsize : m.jumps.size = (code a).length := (Matching.settled_nil.run_ok hrun).size_jumps
  refine load_eq_ok_iff.mpr ⟨n.relocate m.jumps [], ?_, ?_, ?_⟩
  · rw [run_code_append hrun hnone, Matching.run_relocate hrun']
  · rw [Matching.relocate, hnone']
    rfl
  · simp [append, Matching.relocate, size, hsize, Source.offsets_append]

theorem exists_load_of_append {r : Program} (ha : load a = .ok p) (h : load (a ++ b) = .ok r) :
    ∃ q, load b = .ok q := by
  obtain ⟨m, hrun, hnone, rfl⟩ := load_eq_ok_iff.mp ha
  obtain ⟨n, hrun', hnone', rfl⟩ := load_eq_ok_iff.mp h
  rw [run_code_append hrun hnone] at hrun'
  cases hb : Matching.run {} (code b) with
  | error i =>
      rw [Matching.run_relocate_stuck hb] at hrun'
      cases hrun'
  | ok k =>
      rw [Matching.run_relocate hb] at hrun'
      obtain rfl := Except.ok.inj hrun'
      have hopened : k.opened = [] := by simpa [Matching.relocate] using hnone'
      exact ⟨_, load_of_closed hb hopened⟩

/-! ## A program in brackets -/

/-- **A program in brackets**, which are partners. -/
def enclosed (p : Program) : Program where
  source := Instruction.loopOpen.byte :: (p.source ++ [Instruction.loopClose.byte])
  instructions := #[.loopOpen] ++ p.instructions ++ #[.loopClose]
  offsets := #[0] ++ p.offsets.map (· + 1) ++ #[p.source.length + 1]
  jumps := #[some (p.size + 1)] ++ p.jumps.map (Option.map (· + 1)) ++ #[some 0]

theorem code_enclosed (a : List UInt8) :
    code (Instruction.loopOpen.byte :: (a ++ [Instruction.loopClose.byte])) =
      .loopOpen :: (code a ++ [.loopClose]) := by
  rw [← List.singleton_append, Source.code_append, Source.code_append]
  rfl

theorem offsets_enclosed (a : List UInt8) :
    Source.offsets (Instruction.loopOpen.byte :: (a ++ [Instruction.loopClose.byte])) =
      0 :: ((Source.offsets a).map (· + 1) ++ [a.length + 1]) := by
  have hclose : Source.offsets [Instruction.loopClose.byte] = [0] := rfl
  have hopen : Source.offsets [Instruction.loopOpen.byte] = [0] := rfl
  rw [← List.singleton_append, Source.offsets_append, Source.offsets_append, hopen, hclose]
  simp

theorem load_enclosed_eq (ha : load a = .ok p) :
    load (Instruction.loopOpen.byte :: (a ++ [Instruction.loopClose.byte])) = .ok p.enclosed := by
  obtain ⟨m, hrun, hnone, rfl⟩ := load_eq_ok_iff.mp ha
  have hsize : m.jumps.size = (code a).length := (Matching.settled_nil.run_ok hrun).size_jumps
  -- The opening bracket is waiting below all that the source opens, and comes up again for the
  -- closing one.
  have hopen : Matching.push {} .loopOpen = some (Matching.relocate #[none] [0] {}) := by
    rw [Matching.relocate_empty]
    rfl
  have hopened : (m.relocate #[none] [0]).opened = [0] := by simp [Matching.relocate, hnone]
  have hclose : (m.relocate #[none] [0]).push .loopClose =
      some ⟨#[some (m.jumps.size + 1)] ++ m.jumps.map (Option.map (· + 1)) ++ #[some 0], []⟩ := by
    simp only [Matching.push, hopened, Matching.size_relocate]
    simp [Matching.relocate, Array.setIfInBounds_append_left]
  have hrun' :
    Matching.run {} (code (Instruction.loopOpen.byte :: (a ++ [Instruction.loopClose.byte]))) =
      .ok ⟨#[some (m.jumps.size + 1)] ++ m.jumps.map (Option.map (· + 1)) ++ #[some 0], []⟩ := by
    rw [code_enclosed, Matching.run_cons, hopen]
    simp only [Matching.run_append, Matching.run_relocate hrun, Matching.run_cons, hclose,
      Matching.run_nil]
  refine load_eq_ok_iff.mpr ⟨_, hrun', rfl, ?_⟩
  simp [enclosed, code_enclosed, offsets_enclosed, size, hsize]

/-! ## Loops -/

theorem loopCount_append (p q : Program) : (p.append q).loopCount = p.loopCount + q.loopCount := by
  simp [loopCount, append, Array.count_append]

theorem loopCount_enclosed (p : Program) : p.enclosed.loopCount = p.loopCount + 1 := by
  simp [loopCount, enclosed, Array.count_append, Nat.add_comm]

theorem maxDepth_append (hp : p.Paired) (q : Program) :
    (p.append q).maxDepth = max p.maxDepth q.maxDepth := by
  have hdeep : deepest 0 (p.append q).instructions.toList =
      max (deepest 0 p.instructions.toList) (deepest 0 q.instructions.toList) := by
    rw [append, Array.toList_append]
    exact deepest_append hp.balanced _
  rw [← maxDepth_cast, ← maxDepth_cast, ← maxDepth_cast] at hdeep
  omega

theorem maxDepth_enclosed (hp : p.Paired) : p.enclosed.maxDepth = p.maxDepth + 1 := by
  have hcode :
      p.enclosed.instructions.toList = .loopOpen :: (p.instructions.toList ++ [.loopClose]) := by
    simp [enclosed]
  have hdeep := deepest_wrap hp.balanced
  rw [← hcode, ← maxDepth_cast, ← maxDepth_cast] at hdeep
  omega

/-- **Loading is a homomorphism.** Behind a source that loads, another source loads if and only if
it does by itself, to the two programs one behind the other: the instructions and tables of the
first, then those of the second, moved behind them. The loops of both are counted, and the deeper
ones tell how deep they nest. In brackets the source loads to its program in brackets, with one loop
more, one level deeper. -/
theorem load_append (ha : load a = .ok p) (b : List UInt8) :
    (∀ q, load b = .ok q → load (a ++ b) = .ok (p.append q) ∧
      (p.append q).loopCount = p.loopCount + q.loopCount ∧
        (p.append q).maxDepth = max p.maxDepth q.maxDepth) ∧
    (load (Instruction.loopOpen.byte :: (a ++ [Instruction.loopClose.byte])) = .ok p.enclosed ∧
      p.enclosed.loopCount = p.loopCount + 1 ∧ p.enclosed.maxDepth = p.maxDepth + 1) ∧
    ((∃ r, load (a ++ b) = .ok r) → ∃ q, load b = .ok q) := by
  have hp := paired_of_load ha
  refine ⟨fun q hb => ?_, ?_, ?_⟩
  · exact ⟨load_append_eq ha hb, loopCount_append p q, maxDepth_append hp q⟩
  · exact ⟨load_enclosed_eq ha, loopCount_enclosed p, maxDepth_enclosed hp⟩
  · rintro ⟨r, h⟩
    exact exists_load_of_append ha h

/-- `+[-]` with `[[]]` behind it, and in brackets. -/
theorem load_append_nested :
    ∃ p q, load [0x2B, 0x5B, 0x2D, 0x5D] = .ok p ∧ load [0x5B, 0x5B, 0x5D, 0x5D] = .ok q ∧
      load [0x2B, 0x5B, 0x2D, 0x5D, 0x5B, 0x5B, 0x5D, 0x5D] = .ok (p.append q) ∧
      (p.append q).jumps = #[none, some 3, none, some 1, some 7, some 6, some 5, some 4] ∧
      (p.append q).offsets = #[0, 1, 2, 3, 4, 5, 6, 7] ∧ (p.append q).loopCount = 3 ∧
        (p.append q).maxDepth = 2 ∧
      load [0x5B, 0x2B, 0x5B, 0x2D, 0x5D, 0x5D] = .ok p.enclosed ∧
      p.enclosed.jumps = #[some 5, none, some 4, none, some 2, some 0] ∧
        p.enclosed.maxDepth = 2 := by
  have hp : load [0x2B, 0x5B, 0x2D, 0x5D] = .ok ⟨[0x2B, 0x5B, 0x2D, 0x5D],
      #[.increment, .loopOpen, .decrement, .loopClose], #[0, 1, 2, 3],
        #[none, some 3, none, some 1]⟩ := by decide
  have hq : load [0x5B, 0x5B, 0x5D, 0x5D] = .ok ⟨[0x5B, 0x5B, 0x5D, 0x5D],
      #[.loopOpen, .loopOpen, .loopClose, .loopClose], #[0, 1, 2, 3],
        #[some 3, some 2, some 1, some 0]⟩ := by decide
  obtain ⟨hboth, ⟨henclosed, -, hdeeper⟩, -⟩ := load_append hp [0x5B, 0x5B, 0x5D, 0x5D]
  obtain ⟨happend, hcount, hdepth⟩ := hboth _ hq
  exact ⟨_, _, hp, hq, happend, by simp [append, size], by simp [append], hcount, hdepth, henclosed,
    by simp [enclosed, size], hdeeper⟩

end Program

end TapeLang
