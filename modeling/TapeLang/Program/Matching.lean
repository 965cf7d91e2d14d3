import TapeLang.Instruction

/-!
# Pairing the brackets

Model of the pass in `load` of `bfvm.loader`, which fills the table of partners.

* `Matching.push` — one instruction further, unless it closes a loop that was never opened.
* `Matching.run` — the pass over a list of instructions, up to the first such bracket.
-/

namespace TapeLang

/-- The pass that pairs brackets, under way. -/
structure Matching where
  /-- An entry for each instruction seen: the partner of a bracket that is paired already. -/
  jumps : Array (Option Nat) := #[]
  /-- The indices of the loops that are open, innermost first. -/
  opened : List Nat := []
  deriving DecidableEq, Repr

namespace Matching

def push (m : Matching) : Instruction → Option Matching
  | .loopOpen => some ⟨m.jumps.push none, m.jumps.size :: m.opened⟩
  | .loopClose =>
    match m.opened with
    | [] => none
    | first :: rest =>
      some ⟨(m.jumps.setIfInBounds first (some m.jumps.size)).push (some first), rest⟩
  | _ => some ⟨m.jumps.push none, m.opened⟩

/-- The pass over `code`, or the index of the first closing bracket that has no partner. -/
def run (m : Matching) : List Instruction → Except Nat Matching
  | [] => .ok m
  | i :: rest =>
    match m.push i with
    | some next => next.run rest
    | none => .error m.jumps.size

@[simp]
theorem run_nil (m : Matching) : m.run [] = .ok m := rfl

theorem run_cons (m : Matching) (i : Instruction) (rest : List Instruction) :
    m.run (i :: rest) = match m.push i with
      | some next => next.run rest
      | none => .error m.jumps.size := rfl

theorem size_push {m next : Matching} {i : Instruction} (h : m.push i = some next) :
    next.jumps.size = m.jumps.size + 1 := by
  cases i <;> simp only [push] at h
  case loopClose =>
    split at h
    · cases h
    · cases h; simp
  all_goals cases h; simp

end Matching

end TapeLang
