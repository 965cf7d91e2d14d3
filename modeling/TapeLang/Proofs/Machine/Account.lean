import Mathlib.Algebra.BigOperators.Group.List.Basic
import Mathlib.Algebra.GroupWithZero.Nat
import TapeLang.Proofs.Machine.Thread

/-!
# Every byte is accounted for

* `Attempt.Accounted` — what an attempt does to the streams and to the counters, told by what it got
  from the streams; `Accounted.quiet` to `Accounted.refused` — the seven ways an attempt can go.
* `move_accounted` to `read_accounted` — it holds of every instruction, `attempt_accounted` of every
  attempt in range.
* `Linked.reads`, `Linked.readings`, `Linked.writes`, `Linked.bytes` — the sums on the side of the
  streams.
* `Thread.bytesRead`, `Thread.bytesWritten`, `Thread.reachedEof` — the sums on the side of a
  machine.
* `asksNoMore`, `pairwise_asksNoMore` — once the input has ended, it is not asked again.
* `session_accounts` — both sides agree for all that calls on an interpreter can do.
-/

namespace TapeLang

/-- **An attempt that accounts for what it does**: at most one call on a stream is made, and
whatever that brings shows in the counters. A cell of `c` keeps a byte modulo the number of its
values. -/
structure Attempt.Accounted (c : Config) (a : Attempt) : Prop where
  input : a.outcome.streams.input =
    if a.reading?.isSome then a.streams.input.advance else a.streams.input
  asks : a.reading?.isSome → a.state.reachedEof = false
  reads : a.reading?.isSome.toNat = a.stored?.isSome.toNat + a.findsEnd.toNat + a.readRaised.toNat
  stored : a.stored? = (a.reading?.bind Reading.byte?).map fun b =>
    ((b.toNat % 2 ^ c.cellWidth : Nat) : Int)
  bytesRead : a.outcome.state.bytesRead = a.state.bytesRead + a.stored?.isSome.toNat
  reachedEof : a.outcome.state.reachedEof.toNat = a.state.reachedEof.toNat + a.findsEnd.toNat
  writes : a.outcome.streams.output.writes =
    a.streams.output.writes + a.written?.isSome.toNat + a.writeFailed.toNat
  bytes : a.outcome.streams.output.bytes = a.streams.output.bytes ++ a.written?.toArray
  bytesWritten : a.outcome.state.bytesWritten = a.state.bytesWritten + a.written?.isSome.toNat

/-- What the policy makes of a read behind the end of the input. -/
def Machine.behindEnd (m : Machine) (s : State) (io : Streams) : Step :=
  match m.config.eof with
  | .keep => .done s.next io
  | .zero => .done (s.put 0).next io
  | .check => .fail (error s .endOfInput) s io

namespace Attempt.Accounted

variable {c : Config} {s s' : State} {io : Streams}

/-! ## The ways an attempt can go -/

theorem quiet {op : Option Instruction} {r : Step} (hread : op ≠ some .read)
    (hwrite : op ≠ some .write) (hio : r.streams = io)
    (hcounts : r.state.bytesRead = s.bytesRead ∧ r.state.bytesWritten = s.bytesWritten)
    (heof : r.state.reachedEof = s.reachedEof) : (⟨op, s, io, r⟩ : Attempt).Accounted c := by
  constructor <;>
    simp [reading?, stored?, findsEnd, readRaised, written?, writeFailed, hread, hwrite, hio,
      hcounts, heof]

theorem received {b : UInt8} {rest : List UInt8} (hnext : io.input.next = .chunk (b :: rest))
    (heof : s.reachedEof = false) (hcell : s'.cell = .ok (b.toNat % 2 ^ c.cellWidth : Nat))
    (hread : s'.bytesRead = s.bytesRead + 1) (hwritten : s'.bytesWritten = s.bytesWritten)
    (heof' : s'.reachedEof = false) :
    (⟨some .read, s, io, .done s' ⟨io.input.advance, io.output⟩⟩ : Attempt).Accounted c := by
  constructor <;>
    simp [reading?, stored?, findsEnd, readRaised, written?, writeFailed, Step.done, Input.advance,
      Except.toOption,
      Reading.byte?, Reading.isEnd, hnext, heof, hcell, hread, hwritten, heof']

theorem ended {f : Option Fault} (hend : io.input.next.isEnd = true) (heof : s.reachedEof = false)
    (hf : f.any Fault.ofStream = false)
    (hcounts : s'.bytesRead = s.bytesRead ∧ s'.bytesWritten = s.bytesWritten)
    (heof' : s'.reachedEof = true) :
    (⟨some .read, s, io, ⟨f, s', ⟨io.input.advance, io.output⟩⟩⟩ : Attempt).Accounted c := by
  have hbyte : io.input.next.byte? = none := by
    unfold Reading.isEnd at hend
    split at hend <;> simp_all [Reading.byte?]
  constructor <;>
    simp [reading?, stored?, findsEnd, readRaised, written?, writeFailed, Input.advance, hend, heof,
      hf, hcounts, heof',
      hbyte]

theorem behindEnd {f : Option Fault} (heof : s.reachedEof = true)
    (hf : f.any Fault.ofStream = false)
    (hcounts : s'.bytesRead = s.bytesRead ∧ s'.bytesWritten = s.bytesWritten)
    (heof' : s'.reachedEof = true) :
    (⟨some .read, s, io, ⟨f, s', io⟩⟩ : Attempt).Accounted c := by
  constructor <;>
    simp [reading?, stored?, findsEnd, readRaised, written?, writeFailed, heof, hf, hcounts, heof']

theorem raised {g : StreamFault} (hnext : io.input.next = .fault g) (heof : s.reachedEof = false) :
    (⟨some .read, s, io, .fail (Machine.streamFault s g) s ⟨io.input.advance, io.output⟩⟩
      : Attempt).Accounted c := by
  have hf := Machine.streamFault_ofStream s g
  constructor <;>
    simp [reading?, stored?, findsEnd, readRaised, written?, writeFailed, Step.fail, Input.advance,
      Reading.byte?,
      Reading.isEnd, hnext, heof, hf]

theorem wrote {v : Int} (hcell : s.cell = .ok v) (hread : s'.bytesRead = s.bytesRead)
    (hwritten : s'.bytesWritten = s.bytesWritten + 1) (heof : s'.reachedEof = s.reachedEof) :
    (⟨some .write, s, io, .done s' ⟨io.input, io.output.accept (Machine.outputByte v)⟩⟩
      : Attempt).Accounted c := by
  constructor <;>
    simp [reading?, stored?, findsEnd, readRaised, written?, writeFailed, Step.done, Output.accept,
      Except.toOption,
      hcell, hread, hwritten, heof]

theorem refused (f : Fault) :
    (⟨some .write, s, io, .fail f s ⟨io.input, io.output.reject⟩⟩ : Attempt).Accounted c := by
  constructor <;>
    simp [reading?, stored?, findsEnd, readRaised, written?, writeFailed, Step.fail, Output.reject]

theorem reachedEof_eq_true {a : Attempt} (h : a.Accounted c)
    (hend : a.state.reachedEof = true ∨ a.findsEnd = true) : a.outcome.state.reachedEof = true := by
  have hcount := h.reachedEof
  by_contra hno
  rw [Bool.not_eq_true] at hno
  rcases hend with hend | hend <;>
    simp only [hno, hend, Bool.toNat_false, Bool.toNat_true] at hcount <;> omega

end Attempt.Accounted

namespace Machine

open State (Fits InRange)

variable {m : Machine} {s s' : State} {io io₀ : Streams}

/-! ## Every attempt -/

theorem move_accounted {op : Option Instruction} (hread : op ≠ some .read)
    (hwrite : op ≠ some .write) (d : Direction) :
    (⟨op, s, io, m.move d s io⟩ : Attempt).Accounted m.config := by
  rw [move_eq]
  split
  · exact .quiet hread hwrite rfl ⟨rfl, rfl⟩ rfl
  · exact .quiet hread hwrite rfl ⟨rfl, rfl⟩ rfl

theorem adjust_accounted {op : Option Instruction} (hread : op ≠ some .read)
    (hwrite : op ≠ some .write) (h : s.Fits m.config) (d : Direction) :
    (⟨op, s, io, m.adjust d s io⟩ : Attempt).Accounted m.config := by
  rw [adjust_eq h]
  split
  · exact .quiet hread hwrite rfl ⟨rfl, rfl⟩ rfl
  · exact .quiet hread hwrite rfl ⟨rfl, rfl⟩ rfl

theorem branch_accounted {op : Option Instruction} (hread : op ≠ some .read)
    (hwrite : op ≠ some .write) (h : s.Fits m.config) (i : Nat) (onZero : Bool) :
    (⟨op, s, io, m.branch i onZero s io⟩ : Attempt).Accounted m.config := by
  rw [branch_eq h]
  split
  · split
    · exact .quiet hread hwrite rfl ⟨rfl, rfl⟩ rfl
    · exact .quiet hread hwrite rfl ⟨rfl, rfl⟩ rfl
  · exact .quiet hread hwrite rfl ⟨rfl, rfl⟩ rfl

theorem write_accounted (h : s.Fits m.config) :
    (⟨some .write, s, io, write s io⟩ : Attempt).Accounted m.config := by
  rw [write_eq h]
  split
  · exact .refused _
  · exact .wrote h.cell_eq rfl rfl rfl

theorem read_behindEnd (h : s.Fits m.config) (heof : s.reachedEof = true) (io : Streams) :
    m.read s io = m.behindEnd s io := by
  have hs : { s with reachedEof := true } = s := by rw [← heof]
  have hput : { s.put 0 with reachedEof := true } = s.put 0 := by rw [← heof]; rfl
  rw [read, if_pos heof, readNothing_eq h, hs, hput]
  rfl

theorem readByte_accounted (h : s.Fits m.config) (heof : s.reachedEof = false) {b : UInt8}
    {rest : List UInt8} (hnext : io.input.next = .chunk (b :: rest)) :
    (⟨some .read, s, io, m.readByte b s ⟨io.input.advance, io.output⟩⟩
      : Attempt).Accounted m.config := by
  have hmodulus := m.config.cellModulus_eq
  have hcell := h.cell_put (b.toNat % m.config.cellModulus : Nat)
  rw [readByte_eq h]
  exact .received hnext heof (hmodulus ▸ hcell) rfl rfl heof

theorem readNothing_accounted (h : s.Fits m.config) (heof : s.reachedEof = false)
    (hend : io.input.next.isEnd = true) :
    (⟨some .read, s, io, m.readNothing s ⟨io.input.advance, io.output⟩⟩
      : Attempt).Accounted m.config := by
  rw [readNothing_eq h]
  cases m.config.eof with
  | keep => exact .ended hend heof rfl ⟨rfl, rfl⟩ rfl
  | zero => exact .ended hend heof rfl ⟨rfl, rfl⟩ rfl
  | check => exact .ended hend heof rfl ⟨rfl, rfl⟩ rfl

theorem read_accounted (h : s.Fits m.config) :
    (⟨some .read, s, io, m.read s io⟩ : Attempt).Accounted m.config := by
  cases heof : s.reachedEof with
  | true =>
      rw [read_behindEnd h heof, Machine.behindEnd]
      cases m.config.eof with
      | keep => exact .behindEnd heof rfl ⟨rfl, rfl⟩ heof
      | zero => exact .behindEnd heof rfl ⟨rfl, rfl⟩ heof
      | check => exact .behindEnd heof rfl ⟨rfl, rfl⟩ heof
  | false =>
      rw [read, heof, if_neg (by decide)]
      rcases hnext : io.input.next with ⟨_ | ⟨b, rest⟩⟩ | _ | g
      · exact readNothing_accounted h heof (by rw [hnext]; rfl)
      · exact readByte_accounted h heof hnext
      · exact readNothing_accounted h heof (by rw [hnext]; rfl)
      · exact .raised hnext heof

/-- **Every attempt in range accounts for what it does.** -/
theorem attempt_accounted (h : s.InRange m) (io : Streams) :
    (m.attempt s io).Accounted m.config := by
  rcases attempt_eq h io with ⟨_, hnone⟩ | ⟨i, op, _, _, hsome⟩
  · rw [hnone]
    exact .quiet nofun nofun rfl ⟨rfl, rfl⟩ rfl
  · rw [hsome]
    cases op with
    | moveRight => exact move_accounted (by decide) (by decide) .up
    | moveLeft => exact move_accounted (by decide) (by decide) .down
    | increment => exact adjust_accounted (by decide) (by decide) h.toFits .up
    | decrement => exact adjust_accounted (by decide) (by decide) h.toFits .down
    | write => exact write_accounted h.toFits
    | read => exact read_accounted h.toFits
    | loopOpen => exact branch_accounted (by decide) (by decide) h.toFits i true
    | loopClose => exact branch_accounted (by decide) (by decide) h.toFits i false

end Machine

/-! ## Sums over many attempts -/

theorem sum_map_toNat (p : Attempt → Bool) (log : List Attempt) :
    (log.map fun a => (p a).toNat).sum = log.countP p := by
  induction log with
  | nil => rfl
  | cons a log ih =>
      rw [List.map_cons, List.sum_cons, ih, List.countP_cons]
      cases p a <;> simp [Nat.add_comm]

/-- What each attempt adds to a count of the streams is added up. -/
theorem Linked.total {io io' : Streams} {log : List Attempt} (h : Linked io log io')
    {q : Streams → Nat} {f : Attempt → Nat}
    (hq : ∀ a ∈ log, q a.outcome.streams = q a.streams + f a) :
    q io' = q io + (log.map f).sum := by
  induction h with
  | nil => rfl
  | @cons a log io' _ ih =>
      have hfirst := hq a List.mem_cons_self
      have hlater := ih fun b hb => hq b (List.mem_cons_of_mem a hb)
      rw [List.map_cons, List.sum_cons]
      omega

theorem Thread.total {m : Machine} {s s' : State} {log : List Attempt} (h : Thread m s log s')
    {q : State → Nat} {f : Attempt → Nat} (hq : ∀ a ∈ log, q a.outcome.state = q a.state + f a) :
    q s' = q s + (log.map f).sum := by
  induction h with
  | nil => rfl
  | @cons s s' io log _ ih =>
      have hfirst : q (m.step s io).state = q s + f (m.attempt s io) := hq _ List.mem_cons_self
      have hlater := ih fun b hb => hq b (List.mem_cons_of_mem _ hb)
      rw [List.map_cons, List.sum_cons]
      omega

namespace Linked

variable {io io' : Streams} {log : List Attempt} (h : Linked io log io') (ha : ∀ a ∈ log, ∃ c,
  a.Accounted c)

include h ha

theorem reads :
    io'.input.reads =
      io.input.reads + (log.countP (·.stored?.isSome) + log.countP Attempt.findsEnd +
      log.countP Attempt.readRaised) := by
  have htotal := h.total (q := (·.input.reads))
    (f := fun a => (a.stored?.isSome).toNat + a.findsEnd.toNat + a.readRaised.toNat) ?_
  · simpa only [List.sum_map_add, sum_map_toNat] using htotal
  · intro a hmem
    obtain ⟨c, hc⟩ := ha a hmem
    rw [hc.input, ← hc.reads]
    cases a.reading?.isSome <;> rfl

theorem writes :
    io'.output.writes =
      io.output.writes + (log.countP (·.written?.isSome) + log.countP Attempt.writeFailed) := by
  have htotal :=
    h.total (q := (·.output.writes)) (f := fun a =>
    (a.written?.isSome).toNat + a.writeFailed.toNat) ?_
  · simpa only [List.sum_map_add, sum_map_toNat] using htotal
  · intro a hmem
    obtain ⟨c, hc⟩ := ha a hmem
    rw [hc.writes, Nat.add_assoc]

theorem bytes : io'.output.bytes = io.output.bytes ++ (log.filterMap Attempt.written?).toArray := by
  induction h with
  | nil => simp
  | @cons a log io' _ ih =>
      obtain ⟨c, hc⟩ := ha a List.mem_cons_self
      rw [ih fun b hb => ha b (List.mem_cons_of_mem a hb), hc.bytes]
      cases hw : a.written? <;> simp [hw]

theorem readings :
    ∃ n, io'.input = ⟨io.input.pending.drop n, io.input.reads + n⟩ ∧
      log.filterMap Attempt.reading? =
        io.input.pending.take n ++ List.replicate (n - io.input.pending.length) (.chunk []) := by
  induction h with
  | nil => exact ⟨0, rfl, by simp⟩
  | @cons a log io' _ ih =>
      obtain ⟨c, hc⟩ := ha a List.mem_cons_self
      obtain ⟨n, hinput, hall⟩ := ih fun b hb => ha b (List.mem_cons_of_mem a hb)
      rw [hc.input] at hinput hall
      cases hr : a.reading? with
      | none =>
          rw [hr] at hinput hall
          refine ⟨n, hinput, ?_⟩
          rw [List.filterMap_cons, hr]
          exact hall
      | some r =>
          -- The first reading is the head of the input, or its end if there is no head.
          rw [hr] at hinput hall
          obtain rfl : a.streams.input.next = r := by
            unfold Attempt.reading? at hr
            split at hr
            · exact Option.some.inj hr
            · cases hr
          refine ⟨n + 1, ?_, ?_⟩
          · rw [hinput]
            simp [Input.advance, Nat.add_comm 1 n, Nat.add_assoc]
          · rw [List.filterMap_cons, hr]
            simp only
            rw [show List.filterMap Attempt.reading? log = _ from hall]
            cases hp : a.streams.input.pending <;>
              simp [Input.next, Input.advance, hp, List.replicate_succ]

end Linked

namespace Thread

variable {m : Machine} {s s' : State} {log : List Attempt} (h : Thread m s log s')

include h

section

variable (ha : ∀ a ∈ log, a.Accounted m.config)

include ha

theorem bytesRead : s'.bytesRead = s.bytesRead + log.countP (·.stored?.isSome) := by
  rw [← sum_map_toNat]
  exact h.total fun a hmem => (ha a hmem).bytesRead

theorem bytesWritten : s'.bytesWritten = s.bytesWritten + log.countP (·.written?.isSome) := by
  rw [← sum_map_toNat]
  exact h.total fun a hmem => (ha a hmem).bytesWritten

theorem reachedEof : s'.reachedEof.toNat = s.reachedEof.toNat + log.countP Attempt.findsEnd := by
  rw [← sum_map_toNat]
  exact h.total (q := (·.reachedEof.toNat)) fun a hmem => (ha a hmem).reachedEof

end

theorem accounted (hp : m.program.Paired) (hs : s.InRange m) : ∀ a ∈ log, a.Accounted m.config := by
  intro a hmem
  obtain ⟨hrange, heq⟩ := (h.inRange hp hs).2 a hmem
  rw [heq]
  exact Machine.attempt_accounted hrange a.streams

end Thread

/-! ## The end of the input -/

/-- An attempt that asks the input no more, and at which a read is what the policy makes of it. -/
structure Attempt.AsksNoMore (m : Machine) (input : Input) (a : Attempt) : Prop where
  before : a.streams.input = input
  behind : a.outcome.streams.input = input
  policy : a.op = some .read → a.outcome = m.behindEnd a.state a.streams

namespace Machine

variable {m : Machine} {s s' : State} {io io' : Streams} {log : List Attempt}

theorem attempt_asksNoMore (h : s.InRange m) (heof : s.reachedEof = true) (io : Streams) :
    (m.attempt s io).AsksNoMore m io.input ∧ (m.step s io).state.reachedEof = true := by
  have hc := attempt_accounted h io
  have hnone : (m.attempt s io).reading?.isSome = false := by
    by_contra hsome
    have hno : s.reachedEof = false := hc.asks (eq_true_of_ne_false hsome)
    cases hno.symm.trans heof
  have hinput := hc.input
  rw [hnone] at hinput
  refine ⟨⟨rfl, hinput, ?_⟩, ?_⟩
  · intro hop
    rcases attempt_eq h io with ⟨_, hidle⟩ | ⟨i, op, _, _, hsome⟩
    · rw [hidle] at hop
      cases hop
    · rw [hsome] at hop ⊢
      cases hop
      exact read_behindEnd h.toFits heof io
  · exact hc.reachedEof_eq_true (.inl heof)

/-- **Once the input has ended, it is never asked again.** -/
theorem asksNoMore (hp : m.program.Paired) (hthread : Thread m s log s')
    (hlinked : Linked io log io') (hs : s.InRange m) (heof : s.reachedEof = true) :
    ∀ a ∈ log, a.AsksNoMore m io.input := by
  induction hthread generalizing io with
  | nil => exact List.forall_mem_nil _
  | @cons s s' io₁ log _ ih =>
      cases hlinked with
      | cons hlater =>
          obtain ⟨hfirst, heof'⟩ := attempt_asksNoMore hs heof io₁
          have hall := ih hlater (step_safe hp hs (.refl io₁)).state heof'
          rw [hfirst.behind] at hall
          exact List.forall_mem_cons.mpr ⟨hfirst, hall⟩

/-- An attempt that finds the end of the input is the last that asks it. -/
theorem pairwise_asksNoMore (hp : m.program.Paired) (hthread : Thread m s log s')
    (hlinked : Linked io log io') (hs : s.InRange m) :
    log.Pairwise fun a a' => a.findsEnd = true → a'.AsksNoMore m a.outcome.streams.input := by
  induction hthread generalizing io with
  | nil => exact .nil
  | @cons s s' io₁ log hthread ih =>
      cases hlinked with
      | cons hlater =>
          have hs' := (step_safe hp hs (.refl io₁)).state
          refine List.pairwise_cons.mpr ⟨?_, ih hlater hs'⟩
          intro a' hmem hend
          have heof : (m.step s io₁).state.reachedEof = true :=
            (attempt_accounted hs io₁).reachedEof_eq_true (.inr hend)
          exact asksNoMore hp hthread hlater hs' heof a' hmem

/-! ## Sessions -/

/-- **All input and output of an interpreter is accounted for**, whatever is called on it and
whatever its streams do. Reads that were made are bytes that were counted, the one that found the
end of the input, and those that raised; the bytes stored are those that the input brought, in their
order and cut to a cell. An attempt that finds the end is the last that asks the input: at every
later read the policy is applied. Writes that were made are bytes that were counted and those that
failed, and the output is what was written, in its order. -/
theorem session_accounts {source : List UInt8} {p : Program} (hload : Program.load source = .ok p)
    (config : Config) {io₀ io : Streams} {log : List Attempt} {s : State}
    (h : Session ⟨p, config⟩ io₀ log s io) :
    io.input.reads =
      io₀.input.reads + s.bytesRead + s.reachedEof.toNat + log.countP Attempt.readRaised ∧
      log.filterMap Attempt.stored? =
        ((io₀.input.pending.take (io.input.reads - io₀.input.reads)).filterMap Reading.byte?).map
          (fun b => ((b.toNat % 2 ^ config.cellWidth : Nat) : Int)) ∧
      (log.Pairwise fun a a' => a.findsEnd = true →
        a'.AsksNoMore ⟨p, config⟩ a.outcome.streams.input) ∧
      io.output.writes = io₀.output.writes + s.bytesWritten + log.countP Attempt.writeFailed ∧
      io.output.bytes = io₀.output.bytes ++ (log.filterMap Attempt.written?).toArray := by
  have hp := Program.paired_of_load hload
  have hs : State.InRange ⟨p, config⟩ (start ⟨p, config⟩) := inRange_start _
  have hthread := h.thread
  have hlinked := h.linked
  have haccount := hthread.accounted hp hs
  have hsome : ∀ a ∈ log, ∃ c, a.Accounted c := fun a hmem => ⟨config, haccount a hmem⟩
  refine ⟨?_, ?_, pairwise_asksNoMore hp hthread hlinked hs, ?_, hlinked.bytes hsome⟩
  · have hreads := hlinked.reads hsome
    have hbytes : s.bytesRead = 0 + _ := hthread.bytesRead haccount
    have hends : s.reachedEof.toNat = 0 + _ := hthread.reachedEof haccount
    omega
  · obtain ⟨n, hinput, hall⟩ := hlinked.readings hsome
    have hn : io.input.reads - io₀.input.reads = n := by rw [hinput]; simp
    have hstored : log.filterMap Attempt.stored? =
        ((log.filterMap Attempt.reading?).filterMap Reading.byte?).map
          (fun b => ((b.toNat % 2 ^ config.cellWidth : Nat) : Int)) := by
      rw [List.filterMap_filterMap, List.map_filterMap]
      exact List.filterMap_congr fun a hmem => (haccount a hmem).stored
    rw [hstored, hn, hall, List.filterMap_append, List.filterMap_replicate_of_none rfl,
      List.append_nil]
  · have hwrites := hlinked.writes hsome
    have hbytes : s.bytesWritten = 0 + _ := hthread.bytesWritten haccount
    omega

/-- A read that raises, the same read again, a write, and two reads behind the end, which leave
alone what follows it. -/
theorem session_accounts_retried :
    let m : Machine :=
      ⟨⟨[0x2C, 0x2E, 0x2C], #[.read, .write, .read], #[0, 1, 2], #[none, none, none]⟩,
        { eof := .check, tapeLength := 2 }⟩
    let io₀ : Streams :=
      ⟨⟨[.fault ⟨.invalid, "closed"⟩, .chunk [0x41], .chunk [], .chunk [0x42]], 0⟩, {}⟩
    Program.load m.program.source = .ok m.program ∧
      ∃ log s io, m.Session io₀ log s io ∧ log.length = 5 ∧ log.countP Attempt.readRaised = 1 ∧
        s.bytesRead = 1 ∧
        s.reachedEof = true ∧ io.input.reads = 3 ∧ log.filterMap Attempt.stored? = [0x41] ∧
        io.output.bytes = #[0x41] := by
  intro m io₀
  have hload : Program.load m.program.source = .ok m.program := by decide
  have hraised := Session.call (.start) (show m.call 3 (.run none) m.start io₀ = some _ from rfl)
  have hended := Session.call hraised (show m.call 3 (.run none) _ _ = some _ from rfl)
  have hagain := Session.call hended (show m.call 0 .step _ _ = some _ from rfl)
  obtain ⟨hreads, hstored, _, _, hbytes⟩ := session_accounts hload _ hagain
  exact ⟨hload, _, _, _, hagain, rfl, rfl, rfl, rfl, hreads, hstored, hbytes⟩

end Machine

end TapeLang
