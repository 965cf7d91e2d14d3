import Mathlib.Algebra.BigOperators.Group.Finset.Piecewise
import Mathlib.Data.Fintype.Basic
import TapeLang.Machine.Interleave
import TapeLang.Proofs.Machine.Account

/-!
# Machines that share their streams lose and duplicate nothing

All turns together are one link after the other, and the turns of each machine are a thread of its
own. So what the threads have counted adds up to what the streams have given and taken.

* `Turn.Delivers` — a turn that has got an item of the input and stores its byte;
  `Turn.forall₂_delivers`, `Linked.delivers` — every byte that is consumed is delivered by one turn,
  in the order of the input.
* `Turn.sum_countP_own` — what the machines have done is what was done in all turns.
* `interleave_linked`, `interleave_thread` — the two views of an interleaving.
* `Thread.alone_bringing` — a machine alone, on what it has got from the shared streams, comes to
  the same state.
* `interleave_accounts` — all of it for interpreters in loaded programs, in whatever order they take
  turns.
-/

namespace TapeLang

variable {ι : Type}

/-! ## Turns -/

namespace Turn

/-- **A turn that delivers an item of the input**: a read has got it and stores its byte, cut to a
cell of its machine. -/
def Delivers (ms : ι → Machine) (t : Turn ι) (item : Reading) : Prop :=
  t.attempt.reading? = some item ∧
    ∃ b, item.byte? = some b ∧
      t.attempt.stored? = some ((b.toNat % 2 ^ (ms t.machine).config.cellWidth : Nat) : Int)

/-- Among accounted turns, those that have stored a byte are those that have got one. -/
theorem forall₂_delivers {ms : ι → Machine} {turns : List (Turn ι)}
    (ha : ∀ t ∈ turns, t.attempt.Accounted (ms t.machine).config) :
    List.Forall₂ (Delivers ms) (turns.filter (·.attempt.stored?.isSome))
      (((turns.map (·.attempt)).filterMap Attempt.reading?).filter (·.byte?.isSome)) := by
  induction turns with
  | nil => exact .nil
  | cons t turns ih =>
      have hlater := ih fun u hu => ha u (List.mem_cons_of_mem t hu)
      have hstored := (ha t List.mem_cons_self).stored
      cases hr : t.attempt.reading? with
      | none =>
          rw [hr] at hstored
          simpa [hr, hstored] using hlater
      | some item =>
          rw [hr] at hstored
          cases hb : item.byte? with
          | none => simpa [hr, hb, hstored] using hlater
          | some b =>
              have hdelivers : t.Delivers ms item := ⟨hr, b, hb, by simpa [hb] using hstored⟩
              simpa [hr, hb, hstored] using And.intro hdelivers hlater

variable [DecidableEq ι]

theorem own_cons (i : ι) (t : Turn ι) (turns : List (Turn ι)) :
    own i (t :: turns) = if t.machine = i then t.attempt :: own i turns else own i turns := by
  by_cases h : t.machine = i <;> simp [own, h]

theorem mem_own {t : Turn ι} {turns : List (Turn ι)} (h : t ∈ turns) :
    t.attempt ∈ own t.machine turns :=
  List.mem_filterMap.mpr ⟨t, h, if_pos rfl⟩

theorem length_own (i : ι) (turns : List (Turn ι)) :
    (own i turns).length = (turns.map (·.machine)).count i := by
  induction turns with
  | nil => rfl
  | cons t turns ih =>
      rw [own_cons, List.map_cons, List.count_cons, ← ih]
      by_cases h : t.machine = i <;> simp [h]

theorem sum_countP_own [Fintype ι] (p : Attempt → Bool) (turns : List (Turn ι)) :
    ∑ i, (own i turns).countP p = turns.countP (p ·.attempt) := by
  induction turns with
  | nil => simp [own]
  | cons t turns ih =>
      have hcons : ∀ i, (own i (t :: turns)).countP p =
          (own i turns).countP p + if t.machine = i then (p t.attempt).toNat else 0 := by
        intro i
        rw [own_cons]
        by_cases h : t.machine = i <;> cases hp : p t.attempt <;> simp [h, hp]
      simp only [hcons, Finset.sum_add_distrib, Finset.sum_ite_eq, Finset.mem_univ, if_true, ih,
        List.countP_cons]
      cases p t.attempt <;> rfl

/-- What a count of each machine has come to adds up to what was done in all turns. -/
theorem sum_eq_countP [Fintype ι] {p : Attempt → Bool} {turns : List (Turn ι)} {q : ι → Nat}
    (h : ∀ i, q i = 0 + (own i turns).countP p) : ∑ i, q i = turns.countP (p ·.attempt) := by
  rw [← sum_countP_own p]
  exact Finset.sum_congr rfl fun i _ => (h i).trans (Nat.zero_add _)

end Turn

/-- **What is consumed is delivered**: the input is left behind what the turns have read of it, and
each item of that which holds a byte was delivered by one turn. -/
theorem Linked.delivers {ms : ι → Machine} {turns : List (Turn ι)} {io io' : Streams}
    (h : Linked io (turns.map (·.attempt)) io')
    (ha : ∀ t ∈ turns, t.attempt.Accounted (ms t.machine).config) :
    let consumed := io.input.pending.take (io'.input.reads - io.input.reads)
    io.input.pending = consumed ++ io'.input.pending ∧
      List.Forall₂ (Turn.Delivers ms) (turns.filter (·.attempt.stored?.isSome))
        (consumed.filter (·.byte?.isSome)) := by
  intro consumed
  obtain ⟨n, hinput, hreadings⟩ := h.readings (List.forall_mem_map.mpr fun t ht => ⟨_, ha t ht⟩)
  have hconsumed : consumed = io.input.pending.take n := by
    have hn : io'.input.reads - io.input.reads = n := by simp [hinput]
    rw [← hn]
  have hall := Turn.forall₂_delivers ha
  -- Behind the last item the input has brought its end only, which holds no byte.
  have hend : (List.replicate (n - io.input.pending.length) (Reading.chunk [])).filter
    (·.byte?.isSome) = [] := by
    simp [Reading.byte?]
  rw [hreadings, List.filter_append, hend, List.append_nil] at hall
  rw [hconsumed]
  exact ⟨by rw [hinput, List.take_append_drop], hall⟩

/-! ## The two views of an interleaving -/

variable [DecidableEq ι]

namespace Machine

section

variable (ms : ι → Machine) (schedule : List ι) (states : ι → State) (io : Streams)

theorem interleave_linked :
    Linked io ((interleave ms schedule states io).turns.map (·.attempt))
      (interleave ms schedule states io).streams := by
  induction schedule generalizing states io with
  | nil => exact .nil
  | cons i schedule ih => exact .cons (a := (ms i).attempt (states i) io) (ih _ _)

theorem interleave_machines :
    (interleave ms schedule states io).turns.map (·.machine) = schedule := by
  induction schedule generalizing states io with
  | nil => rfl
  | cons i schedule ih => exact congrArg (i :: ·) (ih _ _)

theorem interleave_thread (i : ι) :
    Thread (ms i) (states i) (Turn.own i (interleave ms schedule states io).turns)
      ((interleave ms schedule states io).states i) := by
  induction schedule generalizing states io with
  | nil => exact .nil
  | cons j schedule ih =>
      have hlater := ih (fun k => if k = j then ((ms j).step (states j) io).state else states k)
        ((ms j).step (states j) io).streams
      simp only [interleave, Turn.own_cons]
      by_cases h : j = i
      · subst h
        rw [if_pos rfl] at hlater ⊢
        exact .cons hlater
      · rw [if_neg (Ne.symm h)] at hlater
        rw [if_neg h]
        exact hlater

end

end Machine

/-- A machine alone, on streams that bring what it has got, comes to the same state and raises the
same. -/
theorem Thread.alone_bringing {m : Machine} {s s' : State} {log : List Attempt}
    (h : Thread m s log s') :
    (m.trail log.length s (.bringing log)).state = s' ∧
      (m.trail log.length s (.bringing log)).faults = log.map (·.outcome.fault) := by
  refine h.alone ⟨List.prefix_refl _, ?_⟩
  intro j w hj
  simp [Streams.bringing, hj]

namespace Machine

/-! ## Interpreters in loaded programs -/

/-- **Interpreters that share their streams lose and duplicate nothing**, in whatever order they
take turns and whatever the streams do. What was read is what the input had to give first: every
item of it that holds a byte was delivered by one turn, in this order. Reads that were made are
bytes that were counted, an end for each interpreter that has found one, and those that raised. The
output is what was written in all turns, in their order, and no more than was counted. And each
interpreter is where it comes to alone, with as many steps, on what it has got from the streams. -/
theorem interleave_accounts [Fintype ι] {sources : ι → List UInt8} {ms : ι → Machine}
    (hload : ∀ i, Program.load (sources i) = .ok (ms i).program) (schedule : List ι)
    (io₀ : Streams) :
    let g := interleave ms schedule (fun i => (ms i).start) io₀
    let consumed := io₀.input.pending.take (g.streams.input.reads - io₀.input.reads)
    (io₀.input.pending = consumed ++ g.streams.input.pending ∧
      List.Forall₂ (Turn.Delivers ms) (g.turns.filter (·.attempt.stored?.isSome))
        (consumed.filter (·.byte?.isSome))) ∧
    (∑ i, (g.states i).bytesRead = consumed.countP (·.byte?.isSome) ∧
      g.streams.input.reads = io₀.input.reads + ∑ i, (g.states i).bytesRead +
        ∑ i, (g.states i).reachedEof.toNat +
        g.turns.countP (·.attempt.readRaised)) ∧
    (g.streams.output.bytes = io₀.output.bytes ++ (g.turns.filterMap (·.attempt.written?)).toArray ∧
      (g.turns.filterMap (·.attempt.written?)).length = ∑ i, (g.states i).bytesWritten) ∧
    ∀ i, let alone := (ms i).trail (schedule.count i) (ms i).start (.bringing (Turn.own i g.turns))
      alone.state = g.states i ∧ alone.faults = (Turn.own i g.turns).map (·.outcome.fault) := by
  intro g consumed
  have hlinked : Linked io₀ (g.turns.map (·.attempt)) g.streams :=
    interleave_linked ms schedule _ io₀
  have hthread : ∀ i, Thread (ms i) (ms i).start (Turn.own i g.turns) (g.states i) :=
    interleave_thread ms schedule (fun i => (ms i).start) io₀
  have hown : ∀ i, ∀ a ∈ Turn.own i g.turns, a.Accounted (ms i).config := fun i =>
    (hthread i).accounted (Program.paired_of_load (hload i)) (inRange_start _)
  have haccount : ∀ t ∈ g.turns, t.attempt.Accounted (ms t.machine).config :=
    fun t ht => hown _ _ (Turn.mem_own ht)
  have hsome : ∀ a ∈ g.turns.map (·.attempt), ∃ c, a.Accounted c :=
    List.forall_mem_map.mpr fun t ht => ⟨_, haccount t ht⟩
  have hbytesRead : ∑ i, (g.states i).bytesRead = g.turns.countP (·.attempt.stored?.isSome) :=
    Turn.sum_eq_countP fun i => (hthread i).bytesRead (hown i)
  have hreachedEof : ∑ i, (g.states i).reachedEof.toNat = g.turns.countP (·.attempt.findsEnd) :=
    Turn.sum_eq_countP fun i => (hthread i).reachedEof (hown i)
  have hbytesWritten :
      ∑ i, (g.states i).bytesWritten = g.turns.countP (·.attempt.written?.isSome) :=
    Turn.sum_eq_countP fun i => (hthread i).bytesWritten (hown i)
  have hdelivers := hlinked.delivers haccount
  refine ⟨hdelivers, ⟨?_, ?_⟩, ⟨?_, ?_⟩, ?_⟩
  · rw [hbytesRead, List.countP_eq_length_filter, List.countP_eq_length_filter,
      hdelivers.2.length_eq]
  · rw [hbytesRead, hreachedEof, hlinked.reads hsome]
    simp only [List.countP_map, Function.comp_def, Nat.add_assoc]
  · rw [hlinked.bytes hsome, List.filterMap_map]
    rfl
  · rw [hbytesWritten, List.length_filterMap_eq_countP]
  · intro i alone
    have hlength : (Turn.own i g.turns).length = schedule.count i := by
      rw [Turn.length_own, interleave_machines]
    have halone := (hthread i).alone_bringing
    rwa [hlength] at halone

/-- A read of the first interpreter raises and is made again; the second finds the end of the input,
which the first never sees, and a write that has failed is made again while the other waits. -/
theorem interleave_accounts_two :
    let p : Program :=
      ⟨[0x2C, 0x2E, 0x2C], #[.read, .write, .read], #[0, 1, 2], #[none, none, none]⟩
    let ms : Fin 2 → Machine :=
      fun i => ⟨p, { eof := if i = 0 then .check else .keep, tapeLength := 2 }⟩
    let closed : StreamFault := ⟨.invalid, "closed"⟩
    let io₀ : Streams := ⟨{ pending := [.fault closed, .chunk [0x41], .chunk [], .chunk [0x42]] },
      { plan := Output.failingFrom 0 true closed }⟩
    let g := interleave ms [0, 0, 1, 0, 0, 1, 0] (fun i => (ms i).start) io₀
    Program.load p.source = .ok p ∧
      g.turns.map (·.attempt.outcome.fault) =
        [some (.stream closed), none, none, some (.stream closed), none, none, none] ∧
      List.Forall₂ (Turn.Delivers ms) (g.turns.filter (·.attempt.stored?.isSome)) [.chunk [0x41],
        .chunk [0x42]] ∧
      ∑ i, (g.states i).bytesRead = 2 ∧ g.streams.input.reads = 4 ∧ g.streams.output.bytes =
        #[0x41, 0] ∧
      ((ms 0).trail 5 (ms 0).start (.bringing (Turn.own 0 g.turns))).state = g.states 0 := by
  intro p ms closed io₀ g
  have hload : Program.load p.source = .ok p := by decide
  have hfaults : g.turns.map (·.attempt.outcome.fault) =
      [some (.stream closed), none, none, some (.stream closed), none, none,
        none] := by decide +kernel
  have hreads : g.streams.input.reads = 4 := by decide +kernel
  have hwritten : g.turns.filterMap (·.attempt.written?) = [0x41, 0] := by decide +kernel
  have hloads : ∀ i, Program.load p.source = .ok (ms i).program := fun _ => hload
  have hall := interleave_accounts hloads [0, 0, 1, 0, 0, 1, 0] io₀
  -- From here on the interleaving is not to be computed again.
  have hg : interleave ms [0, 0, 1, 0, 0, 1, 0] (fun i => (ms i).start) io₀ = g := rfl
  rw [hg] at hall
  clear_value g
  obtain ⟨⟨_, hdelivered⟩, ⟨hbytes, _⟩, ⟨hout, _⟩, halone⟩ := hall
  rw [hreads] at hdelivered hbytes
  rw [hwritten] at hout
  exact ⟨hload, hfaults, hdelivered, hbytes, hreads, hout, (halone 0).1⟩

end Machine

end TapeLang
