import TapeLang.Machine.Step
import TapeLang.Proofs.Program.Loading

/-!
# Programs as trees

The loops of a program, seen as a tree: a block is a sequence of actions and loops, and the body of
a loop is a block.

* `Action`, `Block` — the six instructions that are no brackets, and the trees.
* `Block.code` — a tree as a list of instructions; `Block.parse` — the tree of such a list, if it is
  that of one.
* `parse_eq_some_iff` — reading and writing are inverse to each other; `exists_parse` — balanced
  code can be read.
* `Block.Located` — a tree in a program: its instructions stand there, and its loops are paired in
  the jump table; `located_of_split` — every stretch of a loaded program that spells a tree is one.
-/

namespace TapeLang.Structured

open Instruction (brackets)

/-- An instruction that is no bracket. -/
inductive Action
  | move (d : Direction)
  | adjust (d : Direction)
  | write
  | read
  deriving DecidableEq, Repr

/-- The instruction of an action. -/
def Action.instruction : Action → Instruction
  | .move .up => .moveRight
  | .move .down => .moveLeft
  | .adjust .up => .increment
  | .adjust .down => .decrement
  | .write => .write
  | .read => .read

theorem Action.instruction_ne (a : Action) :
    a.instruction ≠ .loopOpen ∧ a.instruction ≠ .loopClose := by
  rcases a with ⟨_ | _⟩ | ⟨_ | _⟩ | _ | _ <;> decide

/-- **A program as a tree**: a sequence of actions and loops. -/
inductive Block
  | done
  | act (a : Action) (rest : Block)
  | loop (body rest : Block)
  deriving DecidableEq, Repr

namespace Block

/-- The instructions of a tree. -/
def code : Block → List Instruction
  | .done => []
  | .act a rest => a.instruction :: rest.code
  | .loop body rest => .loopOpen :: (body.code ++ .loopClose :: rest.code)

/-- The number of instructions of a tree. -/
def size (b : Block) : Nat :=
  b.code.length

@[simp]
theorem size_act (a : Action) (rest : Block) : (act a rest).size = rest.size + 1 := rfl

@[simp]
theorem size_loop (body rest : Block) : (loop body rest).size = body.size + rest.size + 2 := by
  simp only [size, code, List.length_cons, List.length_append]
  omega

theorem balanced_code (b : Block) : brackets.Balanced b.code := by
  induction b with
  | done => exact Brackets.balanced_nil
  | act a rest ih =>
      exact (Brackets.balanced_singleton a.instruction_ne.1 a.instruction_ne.2).append ih
  | loop body rest ihb ihr =>
      have h := ihb.wrap.append ihr
      rwa [List.cons_append, List.append_assoc, List.singleton_append] at h

/-! ## Reading -/

/-- One instruction in front of what has been read: the block that begins there, and the blocks
behind the closing brackets that still wait for their opening ones. -/
def push : Instruction → Block × List Block → Option (Block × List Block)
  | .loopClose, (b, behind) => some (.done, b :: behind)
  | .loopOpen, (body, rest :: behind) => some (.loop body rest, behind)
  | .loopOpen, (_, []) => none
  | .moveRight, (b, behind) => some (.act (.move .up) b, behind)
  | .moveLeft, (b, behind) => some (.act (.move .down) b, behind)
  | .increment, (b, behind) => some (.act (.adjust .up) b, behind)
  | .decrement, (b, behind) => some (.act (.adjust .down) b, behind)
  | .write, (b, behind) => some (.act .write b, behind)
  | .read, (b, behind) => some (.act .read b, behind)

/-- Reads code from its end. -/
def parseFrom : List Instruction → Option (Block × List Block)
  | [] => some (.done, [])
  | i :: rest => (parseFrom rest).bind (push i)

/-- **The tree of a list of instructions**, if every bracket has a partner. -/
def parse (code : List Instruction) : Option Block :=
  match parseFrom code with
  | some (b, []) => some b
  | _ => none

/-- What has been read, as code: the block that is begun, and the others, each behind its closing
bracket. -/
def openCode (q : Block × List Block) : List Instruction :=
  q.1.code ++ q.2.flatMap fun b => .loopClose :: b.code

theorem openCode_push {i : Instruction} {q r : Block × List Block} (h : push i q = some r) :
    openCode r = i :: openCode q := by
  obtain ⟨b, behind⟩ := q
  cases i with
  | loopOpen =>
      cases behind with
      | nil => cases h
      | cons rest behind =>
          cases h
          simp [openCode, code]
  | _ =>
      cases h
      simp [openCode, code, Action.instruction]

theorem openCode_of_parseFrom {code : List Instruction} {q : Block × List Block}
    (h : parseFrom code = some q) :
    openCode q = code := by
  induction code generalizing q with
  | nil =>
      cases h
      rfl
  | cons i code ih =>
      obtain ⟨r, hr, hq⟩ := Option.bind_eq_some_iff.mp h
      rw [openCode_push hq, ih hr]

/-- One block behind another. -/
def append : Block → Block → Block
  | .done, c => c
  | .act a rest, c => .act a (rest.append c)
  | .loop body rest, c => .loop body (rest.append c)

theorem append_done (b : Block) : b.append .done = b := by
  induction b with
  | done => rfl
  | act a rest ih => rw [append, ih]
  | loop body rest _ ih => rw [append, ih]

theorem push_instruction (a : Action) (q : Block × List Block) :
    push a.instruction q = some (.act a q.1, q.2) := by
  rcases a with ⟨_ | _⟩ | ⟨_ | _⟩ | _ | _ <;> rfl

/-- The instructions of a block are read as that block, whatever follows. -/
theorem parseFrom_code_append (b : Block) (later : List Instruction) :
    parseFrom (b.code ++ later) = (parseFrom later).map fun q => (b.append q.1, q.2) := by
  induction b generalizing later with
  | done => simp [code, append]
  | act a rest ih =>
      rw [code, List.cons_append, parseFrom, ih]
      cases parseFrom later with
      | none => rfl
      | some q => exact push_instruction a _
  | loop body rest ihb ihr =>
      rw [code, List.cons_append, List.append_assoc, List.cons_append, parseFrom, ihb, parseFrom,
        ihr]
      cases parseFrom later with
      | none => rfl
      | some q => simp [push, append, append_done]

/-- **Reading and writing are inverse to each other.** -/
theorem parse_eq_some_iff {code : List Instruction} {b : Block} :
    parse code = some b ↔ b.code = code := by
  constructor
  · intro h
    unfold parse at h
    split at h
    · rename_i q hq
      cases h
      simpa [openCode] using openCode_of_parseFrom hq
    · cases h
  · rintro rfl
    have h := parseFrom_code_append b []
    rw [List.append_nil] at h
    simp [parse, h, parseFrom, append_done]

/-- Code that never opens more, counted from its end, than it closes can be read. -/
theorem exists_parseFrom {code : List Instruction}
    (h : ∀ s, s <:+ code → s.count .loopOpen ≤ s.count .loopClose) :
    ∃ b behind, parseFrom code = some (b, behind) ∧ behind.length + code.count .loopOpen =
      code.count .loopClose := by
  induction code with
  | nil => exact ⟨.done, [], rfl, rfl⟩
  | cons i code ih =>
      obtain ⟨b, behind, hq, hlen⟩ := ih fun s hs => h s (hs.trans (List.suffix_cons i code))
      have hall := h _ List.suffix_rfl
      rw [parseFrom, hq]
      cases i with
      | loopOpen =>
          cases behind with
          | nil =>
              simp at hlen hall
              omega
          | cons rest behind =>
              refine ⟨.loop b rest, behind, rfl, ?_⟩
              simp at hlen ⊢
              omega
      | loopClose =>
          refine ⟨.done, b :: behind, rfl, ?_⟩
          simp
          omega
      | _ => exact ⟨_, behind, rfl, by simpa using hlen⟩

/-- **Balanced code is that of a tree.** -/
theorem exists_parse {code : List Instruction} (h : brackets.Balanced code) :
    ∃ b, parse code = some b := by
  have htotal : code.count .loopOpen = code.count .loopClose := h.total
  have hsuffix : ∀ s, s <:+ code → s.count .loopOpen ≤ s.count .loopClose := by
    rintro s ⟨p, rfl⟩
    have hp : p.count .loopClose ≤ p.count .loopOpen := h.prefix_le p (List.prefix_append p s)
    rw [List.count_append, List.count_append] at htotal
    omega
  obtain ⟨b, behind, hq, hlen⟩ := exists_parseFrom hsuffix
  have hnil : behind = [] := List.length_eq_zero_iff.mp (by omega)
  exact ⟨b, by simp [parse, hq, hnil]⟩

/-! ## Trees in a program -/

/-- **A tree in a program**, from instruction `i` on: its instructions stand there, and each of its
loops is paired. -/
def Located (p : Program) : Nat → Block → Prop
  | _, .done => True
  | i, .act a rest => p.instructions[i]? = some a.instruction ∧ Located p (i + 1) rest
  | i, .loop body rest =>
    (p.instructions[i]? = some .loopOpen ∧ p.partner i = some (i + body.size + 1)) ∧
      (p.instructions[i + body.size + 1]? = some .loopClose ∧ p.partner (i + body.size + 1) =
        some i) ∧
      Located p (i + 1) body ∧ Located p (i + body.size + 2) rest

theorem located_of_split {p : Program} (hp : p.Paired) {b : Block} :
    ∀ {u v : List Instruction}, p.instructions.toList = u ++ (b.code ++ v) →
      Located p u.length b := by
  induction b with
  | done => exact fun _ => trivial
  | act a rest ih =>
      intro u v h
      have hrest : p.instructions.toList = (u ++ [a.instruction]) ++ (rest.code ++ v) := by
        rw [h, code, List.append_assoc, List.cons_append, List.singleton_append]
      refine ⟨?_, by simpa using ih hrest⟩
      rw [← Array.getElem?_toList, h, List.getElem?_append_right (Nat.le_refl _), Nat.sub_self]
      rfl
  | loop body rest ihb ihr =>
      intro u v h
      have hwhole : p.instructions.toList =
          u ++ brackets.opening :: (body.code ++ brackets.closing :: (rest.code ++ v)) := by
        rw [h, code, List.cons_append, List.append_assoc, List.cons_append]
        rfl
      have hbody : p.instructions.toList = (u ++ [.loopOpen]) ++
        (body.code ++ (.loopClose :: (rest.code ++ v))) := by
        rw [hwhole, List.append_assoc, List.singleton_append]
        rfl
      have hrest : p.instructions.toList = (u ++ (.loopOpen :: (body.code ++ [.loopClose]))) ++
        (rest.code ++ v) := by
        rw [hwhole, List.append_assoc, List.cons_append, List.append_assoc, List.singleton_append]
        rfl
      have hpair : brackets.Partners p.instructions.toList u.length (u.length + body.size + 1) := by
        rw [hwhole]
        exact Brackets.partners_of_balanced u _ body.balanced_code
      have hopen : p.instructions[u.length]? = some .loopOpen := by
        rw [← Array.getElem?_toList]
        exact hpair.opens
      have hclose : p.instructions[u.length + body.size + 1]? = some .loopClose := by
        rw [← Array.getElem?_toList]
        exact hpair.closes
      obtain ⟨j, hij, hji, hj⟩ := hp.partner_open hopen
      obtain rfl := hj.right_unique hpair
      refine ⟨⟨hopen, hij⟩, ⟨hclose, hji⟩, by simpa using ihb hbody, ?_⟩
      have hlocated := ihr hrest
      simp only [List.length_append, List.length_cons, List.length_nil] at hlocated
      rwa [show u.length + (body.code.length + (0 + 1) + 1) =
        u.length + body.size + 2 by rw [size]; omega] at hlocated

end Block

end TapeLang.Structured
