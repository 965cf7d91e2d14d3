import TapeLang.Proofs.Machine.Loops

/-!
# Loops that multiply

`[>` and `k` times `+` and `<-]` adds `k` times the current cell to the next, however numbers
overflow.

* `Instruction.adding`, `Instruction.multiplying` — the body of such a loop, and the loop.
* `State.Tally` — the data pointer and the two cells that such a loop works on, with everything
  beside them as it was.
* `steps_right`, `steps_adding`, `steps_adding_refused` — one turn of the loop, where the next cell
  can be counted so far and where that is refused.
* `steps_multiplying`, `steps_multiplying_refused` — all turns, by induction on the cell that is
  counted down: the next cell is shifted by all of them at once.
* `multiplying_computes` — what that comes to in each mode, with the number of steps.
-/

namespace TapeLang

open Instruction (brackets)

namespace Instruction

/-- The body of a loop that adds `k` to the next cell in each turn. -/
def adding (k : Nat) : List Instruction :=
  .moveRight :: (List.replicate k .increment ++ [.moveLeft, .decrement])

/-- The loop that adds `k` times the current cell to the next. -/
def multiplying (k : Nat) : List Instruction :=
  .loopOpen :: (adding k ++ [.loopClose])

theorem length_adding (k : Nat) : (adding k).length = k + 3 := by
  simp [adding]

theorem length_multiplying (k : Nat) : (multiplying k).length = k + 5 := by
  simp [multiplying, length_adding]

theorem balanced_adding (k : Nat) : brackets.Balanced (adding k) := by
  refine Brackets.balanced_of_straight fun x hx => ?_
  simp only [adding, List.mem_cons, List.mem_append, List.mem_replicate, List.not_mem_nil,
    or_false] at hx
  obtain rfl | ⟨_, rfl⟩ | rfl | rfl := hx <;> decide

theorem balanced_multiplying (k : Nat) : brackets.Balanced (multiplying k) :=
  (balanced_adding k).wrap

theorem ofString_multiplying (k : Nat) :
    Source.ofString ("[>" ++ String.ofList (List.replicate k '+') ++ "<-]") =
      (multiplying k).map Instruction.byte := by
  rw [← Source.ofString_symbols]
  congr 1
  apply String.toList_injective
  simp [multiplying, adding, symbol]

end Instruction

/-- **What the loop works on**: the data pointer is at `d`, the cell there holds `a` and the next
one `b`, and everything beside these two is as it was in `s₀`. -/
structure State.Tally (c : Config) (s₀ : State) (d : Nat) (a b : Int) (s : State) : Prop where
  fits : s.Fits c
  dp_eq : s.dp = d
  first : s.tape.get d = .ok a
  second : s.tape.get (d + 1 : Nat) = .ok b
  others : ∀ j : Nat, j ≠ d → j ≠ d + 1 → s.tape.get j = s₀.tape.get j
  reachedEof_eq : s.reachedEof = s₀.reachedEof
  bytesRead_eq : s.bytesRead = s₀.bytesRead
  bytesWritten_eq : s.bytesWritten = s₀.bytesWritten

namespace State.Tally

variable {c : Config} {s s₀ : State} {d : Nat} {a b : Int}

theorem goTo (h : Tally c s₀ d a b s) (ip : Int) : Tally c s₀ d a b (s.goTo ip) :=
  ⟨h.fits.congr rfl rfl, h.dp_eq, h.first, h.second, h.others, h.reachedEof_eq, h.bytesRead_eq,
    h.bytesWritten_eq⟩

theorem current_eq (h : Tally c s₀ d a b s) : s.current = a := by
  refine h.fits.current_eq ?_
  rw [State.cell, h.dp_eq, h.first]

theorem second_range (h : Tally c s₀ d a b s) (hroom : d + 1 < c.tapeLength) :
    0 ≤ b ∧ b < c.cellModulus := by
  have hsecond := h.second
  rw [h.fits.get_eq hroom] at hsecond
  exact Except.ok.inj hsecond ▸ h.fits.cell_range _ hroom

end State.Tally

namespace Machine

open Instruction (adding multiplying)
open State (Fits Tally)

variable {m : Machine} {s s₀ : State} {d i k : Nat} {a b b' : Int}

/-! ## One turn -/

theorem steps_inside (r : Register) (x : Direction) (h : s.Fits m.config)
    (hcode : m.Ahead s [r.instruction x]) {v : Int} (hv : r.Holds s v) (hlow : 0 ≤ v + x.delta)
    (hhigh : v + x.delta < r.bound m.config) (io : Streams) :
    ∃ s', m.steps 1 s io = .done s' io ∧ s'.Fits m.config ∧ r.Moved 1 s s' ∧
      r.Holds s' (v + x.delta) := by
  have hshift : shift v (x.delta * (1 : Nat)) (r.bound m.config) (r.mode m.config) =
    .ok (v + x.delta) := by
    rw [Int.natCast_one, Int.mul_one, shift_of_mem _ hlow hhigh]
  exact steps_shift r x 1 h hcode hv hshift io

theorem steps_right (h : Tally m.config s₀ d a b s) (hroom : d + 1 < m.config.tapeLength)
    (hcode : m.Ahead s [.moveRight]) (io : Streams) :
    ∃ s', m.steps 1 s io = .done s' io ∧ s'.Fits m.config ∧ Register.pointer.Moved 1 s s' ∧
      s'.dp = (d + 1 : Nat) ∧
      s'.cell = .ok b := by
  have hdp := h.dp_eq
  obtain ⟨s', hsteps, hfits, hmoved, hholds⟩ := steps_inside .pointer .up h.fits hcode rfl
    (by rw [hdp, Direction.delta]; omega) (by rw [hdp, Direction.delta, Register.bound]; omega) io
  have hdp' : s'.dp = (d + 1 : Nat) := Eq.trans hholds (by rw [hdp]; rfl)
  refine ⟨s', hsteps, hfits, hmoved, hdp', ?_⟩
  rw [State.cell, hdp', hmoved.get_of_pointer, h.second]

/-- **A turn** counts the next cell up and the current one down. -/
theorem steps_adding (h : Tally m.config s₀ d a b s) (ha : 0 < a)
    (hroom : d + 1 < m.config.tapeLength) (hcode : m.Ahead s (adding k))
    (hb : shift b k m.config.cellModulus m.config.cellOverflow = .ok b') (io : Streams) :
    ∃ s', m.steps (k + 3) s io = .done s' io ∧ s'.ip = s.ip + (k + 3 : Nat) ∧
      s'.steps = s.steps + (k + 3 : Nat) ∧
      Tally m.config s₀ d (a - 1) b' s' := by
  obtain ⟨s₁, hsteps₁, hfits₁, hmoved₁, hdp₁, hcell₁⟩ :=
    steps_right h hroom (hcode.left (w := [.moveRight])) io
  have hcode₁ : m.Ahead s₁ (List.replicate k .increment ++ [.moveLeft, .decrement]) :=
    hcode.tail hmoved₁.ip_eq
  obtain ⟨s₂, hsteps₂, hfits₂, hmoved₂, hcell₂⟩ := steps_shift .cell .up k hfits₁ hcode₁.left hcell₁
    (by rw [Direction.delta, Int.one_mul]; exact hb) io
  have hdp₂ : s₂.dp = (d + 1 : Nat) := hmoved₂.dp_of_cell.trans hdp₁
  have hcode₂ : m.Ahead s₂ [.moveLeft, .decrement] :=
    hcode₁.right (by rw [List.length_replicate, hmoved₂.ip_eq])
  obtain ⟨s₃, hsteps₃, hfits₃, hmoved₃, hholds₃⟩ :=
    steps_inside .pointer .down hfits₂ (hcode₂.left (w := [.moveLeft])) rfl
    (by rw [hdp₂, Direction.delta]; omega) (by rw [hdp₂, Direction.delta, Register.bound]; omega) io
  have hdp₃ : s₃.dp = d := Eq.trans hholds₃ (by rw [hdp₂, Direction.delta]; omega)
  have hbeside : ∀ j : Nat, j ≠ d + 1 → s₃.tape.get j = s.tape.get j := by
    intro j hj
    rw [hmoved₃.get_of_pointer, hmoved₂.get_eq j fun _ => by rw [hdp₁]; omega,
      hmoved₁.get_of_pointer]
  have hcell₃ : s₃.cell = .ok a := by rw [State.cell, hdp₃, hbeside d (by omega), h.first]
  have hrange := Register.cell.mem_range hfits₃ hcell₃
  obtain ⟨s₄, hsteps₄, hfits₄, hmoved₄, hholds₄⟩ :=
    steps_inside .cell .down hfits₃ (hcode₂.tail hmoved₃.ip_eq) hcell₃
    (by rw [Direction.delta]; omega) (by rw [Direction.delta]; omega) io
  have hdp₄ : s₄.dp = d := hmoved₄.dp_of_cell.trans hdp₃
  refine ⟨s₄, ?steps, ?ip, ?count, hfits₄, hdp₄, ?first, ?second, ?others, ?eof, ?read, ?written⟩
  case steps =>
    rw [show k + 3 = 1 + (k + (1 + 1)) by omega, steps_add hsteps₁, steps_add hsteps₂,
      steps_add hsteps₃, hsteps₄]
  case ip =>
    rw [hmoved₄.ip_eq, hmoved₃.ip_eq, hmoved₂.ip_eq, hmoved₁.ip_eq]
    omega
  case count =>
    rw [hmoved₄.steps_eq, hmoved₃.steps_eq, hmoved₂.steps_eq, hmoved₁.steps_eq]
    omega
  case first =>
    rw [← hdp₄]
    exact hholds₄
  case second =>
    rw [hmoved₄.get_eq _ fun _ => by rw [hdp₃]; omega, hmoved₃.get_of_pointer, ← hdp₂]
    exact hcell₂
  case others =>
    intro j hj hj'
    rw [hmoved₄.get_eq j fun _ => by rw [hdp₃]; omega, hbeside j hj', h.others j hj hj']
  case eof =>
    rw [hmoved₄.reachedEof_eq, hmoved₃.reachedEof_eq, hmoved₂.reachedEof_eq, hmoved₁.reachedEof_eq,
      h.reachedEof_eq]
  case read =>
    rw [hmoved₄.bytesRead_eq, hmoved₃.bytesRead_eq, hmoved₂.bytesRead_eq, hmoved₁.bytesRead_eq,
      h.bytesRead_eq]
  case written =>
    rw [hmoved₄.bytesWritten_eq, hmoved₃.bytesWritten_eq, hmoved₂.bytesWritten_eq,
      hmoved₁.bytesWritten_eq,
      h.bytesWritten_eq]

/-- **A turn that is refused**: the next cell is full before it has been counted `k` times. -/
theorem steps_adding_refused (h : Tally m.config s₀ d a b s) (hroom : d + 1 < m.config.tapeLength)
    (hcode : m.Ahead s (adding k)) {e : ShiftError}
    (he : shift b k m.config.cellModulus m.config.cellOverflow = .error e) (io : Streams) :
    m.config.cellOverflow = .check ∧ ∃ n s', m.steps n s io = .done s' io ∧
      s'.steps = s.steps + (n : Nat) ∧
      s'.dp = (d + 1 : Nat) ∧ s'.cell = .ok (m.config.cellModulus - 1) ∧
      m.step s' io = .fail (error s' (.arithmeticOverflow (m.config.cellModulus - 1))) s' io := by
  obtain ⟨s₁, hsteps₁, hfits₁, hmoved₁, hdp₁, hcell₁⟩ :=
    steps_right h hroom (hcode.left (w := [.moveRight])) io
  have hcode₁ : m.Ahead s₁ (List.replicate k .increment ++ [.moveLeft, .decrement]) :=
    hcode.tail hmoved₁.ip_eq
  obtain ⟨hcheck, n, _, _, s₂, hsteps₂, hmoved₂, hcell₂, hfail⟩ :=
    steps_refused .cell .up hfits₁ hcode₁.left hcell₁
    (by rw [Direction.delta, Int.one_mul]; exact he) io
  refine ⟨hcheck, 1 + n, s₂, (steps_add hsteps₁ n).trans hsteps₂, ?_, hmoved₂.dp_of_cell.trans hdp₁,
    hcell₂, hfail⟩
  rw [hmoved₂.steps_eq, hmoved₁.steps_eq]
  omega

/-! ## All turns -/

/-- **The loop shifts the next cell by all its turns at once**: by induction on the current cell,
which each turn counts down. Where the shift is refused, so is a turn, and the next cell is full. -/
theorem steps_multiplying (hloop : m.LoopAt i (adding k)) (hroom : d + 1 < m.config.tapeLength)
    (a : Nat) (hip : s.ip = (i : Int) ∨ s.ip = (i : Int) + (adding k).length + 1)
    (h : Tally m.config s₀ d a b s) (io : Streams) :
    match shift b (k * a : Nat) m.config.cellModulus m.config.cellOverflow with
    | .ok b' =>
      ∃ s', m.steps (1 + a * (k + 4)) s io = .done s' io ∧ s'.ip = (i : Int) + (k + 5 : Nat) ∧
        s'.steps = s.steps + (1 + a * (k + 4) : Nat) ∧ Tally m.config s₀ d 0 b' s'
    | .error _ =>
      m.config.cellOverflow = .check ∧ ∃ n s', m.steps n s io = .done s' io ∧
        s'.steps = s.steps + (n : Nat) ∧
        s'.dp = (d + 1 : Nat) ∧ s'.cell = .ok (m.config.cellModulus - 1) ∧
        m.step s' io = .fail (error s' (.arithmeticOverflow (m.config.cellModulus - 1))) s' io := by
  induction a generalizing s b with
  | zero =>
      have htest := hloop.test h.fits hip io
      rw [h.current_eq, Int.natCast_zero, if_pos rfl, Instruction.length_adding] at htest
      rw [Nat.mul_zero, Int.natCast_zero, shift_zero _ (h.second_range hroom)]
      refine ⟨s.goTo ((i : Int) + (k + 3 : Nat) + 2), ?_, ?_, ?_, h.goTo _⟩
      · rw [Nat.zero_mul, steps_succ_done 0 htest, steps]
      · rw [State.ip_goTo]
        omega
      · rw [Nat.zero_mul]
        rfl
  | succ a ih =>
      have htest := hloop.test h.fits hip io
      rw [h.current_eq, if_neg (by omega)] at htest
      have hfirst : m.steps 1 s io = .done (s.goTo ((i : Int) + 1)) io := by
        rw [steps_succ_done 0 htest, steps]
      have hcode : m.Ahead (s.goTo ((i : Int) + 1)) (adding k) := hloop.ahead rfl
      have hsum : ((k * (a + 1) : Nat) : Int) = k + (k * a : Nat) := by
        rw [Nat.mul_succ, Nat.add_comm, Int.natCast_add]
      rw [hsum, ← shift_shift (h.second_range hroom)
        (.inr (.inl ⟨Int.natCast_nonneg _, Int.natCast_nonneg _⟩))]
      cases hturn : shift b k m.config.cellModulus m.config.cellOverflow with
      | error e =>
          obtain ⟨hcheck, n, s', hsteps, hcount, hdp, hcell, hfail⟩ :=
            steps_adding_refused (h.goTo _) hroom hcode hturn io
          refine ⟨hcheck, 1 + n, s', (steps_add hfirst n).trans hsteps, ?_, hdp, hcell, hfail⟩
          rw [hcount, State.steps_goTo]
          omega
      | ok u =>
          obtain ⟨s₁, hsteps₁, hip₁, hcount₁, h₁⟩ :=
            steps_adding (h.goTo _) (by omega) hroom hcode hturn io
          have hturned := (steps_add hfirst (k + 3)).trans hsteps₁
          rw [State.ip_goTo] at hip₁
          rw [State.steps_goTo] at hcount₁
          rw [Int.natCast_succ, Int.add_sub_cancel] at h₁
          have hlater := ih (.inr (by rw [hip₁, Instruction.length_adding]; omega)) h₁
          show match shift u (k * a : Nat) m.config.cellModulus m.config.cellOverflow with
            | .ok b' => _
            | .error _ => _
          cases hrest : shift u (k * a : Nat) m.config.cellModulus m.config.cellOverflow with
          | ok b' =>
              rw [hrest] at hlater
              obtain ⟨s', hsteps, hip', hcount, h'⟩ := hlater
              have hall : 1 + (a + 1) * (k + 4) = 1 + (k + 3) + (1 + a * (k + 4)) := by
                rw [Nat.succ_mul]
                omega
              exact ⟨s', by rw [hall, steps_add hturned, hsteps], hip',
                by rw [hall, hcount, hcount₁]; omega, h'⟩
          | error e =>
              rw [hrest] at hlater
              obtain ⟨hcheck, n, s', hsteps, hcount, hdp, hcell, hfail⟩ := hlater
              refine ⟨hcheck, 1 + (k + 3) + n, s', (steps_add hturned n).trans hsteps, ?_, hdp,
                hcell, hfail⟩
              rw [hcount, hcount₁]
              omega

/-! ## What the loop computes -/

/-- **The loop ahead ends in `s'` after `n` steps**: behind the loop, with a zero in the current
cell and `product` in the next, and with everything beside these two as it was. If nothing follows
the loop, the run that begins there ends in `s'`. -/
structure Multiplies (m : Machine) (k : Nat) (s : State) (io : Streams) (n : Nat) (product : Int)
    (s' : State) : Prop where
  steps_eq : m.steps n s io = .done s' io
  count_eq : s'.steps = s.steps + n
  ip_eq : s'.ip = s.ip + (k + 5 : Nat)
  dp_eq : s'.dp = s.dp
  first : s'.tape.get s.dp = .ok 0
  second : s'.tape.get (s.dp + 1) = .ok product
  others : ∀ j : Nat, (j : Int) ≠ s.dp → (j : Int) ≠ s.dp + 1 → s'.tape.get j = s.tape.get j
  reachedEof_eq : s'.reachedEof = s.reachedEof
  bytesRead_eq : s'.bytesRead = s.bytesRead
  bytesWritten_eq : s'.bytesWritten = s.bytesWritten
  run_eq : m.program.size = s.ip + (k + 5 : Nat) → ∀ fuel ≥ n, m.run fuel none s io =
    some ⟨.finished, s', io⟩

/-- **The loop ahead is refused in `s'` after `n` steps**: the next cell is full and was to be
incremented. -/
structure FillsUp (m : Machine) (s : State) (io : Streams) (n : Nat) (s' : State)
    (e : ExecutionError) : Prop where
  steps_eq : m.steps n s io = .done s' io
  count_eq : s'.steps = s.steps + n
  step_eq : m.step s' io = .fail (.execution e) s' io
  cause_eq : e.cause = .arithmeticOverflow (2 ^ m.config.cellWidth - 1)
  dp_eq : e.dp = s.dp + 1 ∧ s'.dp = s.dp + 1
  full : s'.tape.get (s.dp + 1) = .ok (2 ^ m.config.cellWidth - 1)
  run_eq : ∀ fuel > n, m.run fuel none s io = some ⟨.failed (.execution e), s', io⟩

/-- The loop ahead, where its turns come to a number, and where they are refused. -/
theorem exists_multiplies (hp : m.program.Paired) (h : s.Fits m.config)
    (hcode : m.Ahead s (multiplying k)) (hroom : s.dp + 1 < m.config.tapeLength) (io : Streams) :
    ∃ a b : Nat, s.tape.get s.dp = .ok (a : Int) ∧ s.tape.get (s.dp + 1) = .ok (b : Int) ∧
      (b : Int) < m.config.cellModulus ∧
      match shift b (k * a : Nat) m.config.cellModulus m.config.cellOverflow with
      | .ok product => ∃ s', m.Multiplies k s io (1 + a * (k + 4)) product s'
      | .error _ => m.config.cellOverflow = .check ∧ ∃ n s' e, m.FillsUp s io n s' e := by
  obtain ⟨d, hd⟩ := Int.eq_ofNat_of_zero_le h.dp_nonneg
  obtain ⟨i, hip, _⟩ := hcode.head
  have hroom' : d + 1 < m.config.tapeLength := by omega
  have hd' : s.dp + 1 = (d + 1 : Nat) := by omega
  obtain ⟨ha, _⟩ := h.cell_range d (by omega)
  obtain ⟨hb, hlt⟩ := h.cell_range (d + 1) hroom'
  obtain ⟨a, ha⟩ := Int.eq_ofNat_of_zero_le ha
  obtain ⟨b, hb⟩ := Int.eq_ofNat_of_zero_le hb
  have hfirst : s.tape.get d = .ok (a : Int) := by rw [h.get_eq (by omega), ha]
  have hsecond : s.tape.get (d + 1 : Nat) = .ok (b : Int) := by rw [h.get_eq hroom', hb]
  have htally : Tally m.config s d a b s :=
    ⟨h, hd, hfirst, hsecond, fun _ _ _ => rfl, rfl, rfl, rfl⟩
  have hloop := hcode.loopAt hp (Instruction.balanced_adding k) hip
  have hturns := steps_multiplying hloop hroom' a (.inl hip) htally io
  refine ⟨a, b, by rw [hd]; exact hfirst, by rw [hd']; exact hsecond, hb ▸ hlt, ?_⟩
  cases hshift : shift b (k * a : Nat) m.config.cellModulus m.config.cellOverflow with
  | ok product =>
      rw [hshift] at hturns
      obtain ⟨s', hsteps, hip', hcount, h'⟩ := hturns
      rw [← hip] at hip'
      refine ⟨s', hsteps, hcount, hip', h'.dp_eq.trans hd.symm, by rw [hd]; exact h'.first,
        by rw [hd']; exact h'.second,
        fun j hj hj' => h'.others j (by omega) (by omega), h'.reachedEof_eq, h'.bytesRead_eq,
          h'.bytesWritten_eq, ?_⟩
      intro hsize
      exact run_of_steps_finished hsteps hcount (by rw [finished, hip', hsize]; simp)
  | error e =>
      rw [hshift] at hturns
      obtain ⟨hcheck, n, s', hsteps, hcount, hdp, hcell, hfail⟩ := hturns
      rw [m.config.cellModulus_cast] at hcell hfail
      rw [State.cell, hdp, ← hd'] at hcell
      exact ⟨hcheck, n, s', _, hsteps, hcount, hfail, rfl, ⟨hdp.trans hd'.symm, hdp.trans hd'.symm⟩,
        hcell,
        run_of_steps_fail hsteps hcount hfail⟩

/-- **Multiplication loops compute products in every mode.** As a text the loop is a program, and is
ahead at its start. Let the loop be ahead in any program whose brackets are paired, in a state whose
memory is in order and that has a cell behind the current one; let the two hold `a` and `b`. Where
cells wrap around or are clamped, the loop ends after exactly `1 + a * (k + 4)` steps, with a zero
in the first cell and `b + k * a` in the second, reduced or clamped; and so it does under a check,
if that is in range. Otherwise it is refused at the second cell, which is then full. -/
theorem multiplying_computes (k : Nat) :
    (∃ p, Program.loadText ("[>" ++ String.ofList (List.replicate k '+') ++ "<-]") = .ok p ∧
      p.Paired ∧ p.size = k + 5 ∧
      ∀ (c : Config) (s : State), s.ip = 0 → Ahead ⟨p, c⟩ s (multiplying k)) ∧
      ∀ (m : Machine) (s : State) (io : Streams), m.program.Paired → s.Fits m.config →
        m.Ahead s (multiplying k) →
        s.dp + 1 < m.config.tapeLength →
          ∃ a b : Nat, s.tape.get s.dp = .ok (a : Int) ∧ s.tape.get (s.dp + 1) = .ok (b : Int) ∧
            match m.config.cellOverflow with
            | .wrap =>
                ∃ s', m.Multiplies k s io (1 + a * (k + 4))
                ((b + k * a) % 2 ^ m.config.cellWidth) s'
            | .saturate =>
                ∃ s', m.Multiplies k s io (1 + a * (k + 4))
                (min (b + k * a) (2 ^ m.config.cellWidth - 1)) s'
            | .check =>
              ((b : Int) + k * a ≤ 2 ^ m.config.cellWidth - 1 →
                ∃ s', m.Multiplies k s io (1 + a * (k + 4)) (b + k * a) s') ∧
                (2 ^ m.config.cellWidth - 1 < (b : Int) + k * a →
                  ∃ n s' e, m.FillsUp s io n s' e) := by
  refine ⟨?_, fun m s io hp h hcode hroom => ?_⟩
  · obtain ⟨p, hload, hsize, hahead⟩ := load_ahead (Instruction.balanced_multiplying k)
    rw [← Instruction.ofString_multiplying] at hload
    exact ⟨p, hload, Program.paired_of_load hload, hsize.trans (Instruction.length_multiplying k),
      hahead⟩
  · obtain ⟨a, b, ha, hb, hlt, hturns⟩ := exists_multiplies hp h hcode hroom io
    refine ⟨a, b, ha, hb, ?_⟩
    rw [Int.natCast_mul] at hturns
    have hmodulus := m.config.cellModulus_cast
    have hproduct : 0 ≤ (k : Int) * a :=
      Int.mul_nonneg (Int.natCast_nonneg k) (Int.natCast_nonneg a)
    cases hmode : m.config.cellOverflow with
    | wrap =>
        rw [hmode, shift_wrap m.cellModulus_pos, hmodulus] at hturns
        exact hturns
    | saturate =>
        have hclamped : max 0 (min ((b : Int) + k * a) (m.config.cellModulus - 1)) =
            min ((b : Int) + k * a) (m.config.cellModulus - 1) := by
          have := m.cellModulus_pos
          omega
        rw [hmode, shift_saturate m.cellModulus_pos, hclamped, hmodulus] at hturns
        exact hturns
    | check =>
        rw [hmode] at hturns
        constructor
        · intro hle
          rw [shift_of_mem _ (by omega) (by omega)] at hturns
          exact hturns
        · intro hbeyond
          rw [shift_check (by omega)] at hturns
          exact hturns.2

/-- Twice three in cells of three bits, where more than seven is refused. -/
theorem multiplying_computes_twice_three :
    let m : Machine :=
      ⟨⟨[0x5B, 0x3E, 0x2B, 0x2B, 0x2B, 0x3C, 0x2D, 0x5D],
          #[.loopOpen, .moveRight, .increment, .increment, .increment, .moveLeft, .decrement,
            .loopClose],
          #[0, 1, 2, 3, 4, 5, 6, 7], #[some 7, none, none, none, none, none, none, some 0]⟩,
        { cellOverflow := .check, tapeLength := 2, cellWidth := 3 }⟩
    let s := m.start.put 2
    m.program.Paired ∧ s.Fits m.config ∧ m.Ahead s (multiplying 3) ∧
      s.dp + 1 < m.config.tapeLength ∧
      ∃ s', m.Multiplies 3 s {} 15 6 s' := by
  intro m s
  have hload : Program.load m.program.source = .ok m.program := by decide
  have hp := Program.paired_of_load hload
  have hfits : s.Fits m.config := (State.fits_start m).put (by decide)
  have hcode : m.Ahead s (multiplying 3) := ⟨by decide, by decide⟩
  obtain ⟨a, b, ha, hb, hcheck, _⟩ := (multiplying_computes 3).2 m s {} hp hfits hcode (by decide)
  obtain rfl : 2 = a := Int.ofNat_inj.mp (Except.ok.inj ha)
  obtain rfl : 0 = b := Int.ofNat_inj.mp (Except.ok.inj hb)
  exact ⟨hp, hfits, hcode, by decide, hcheck (by decide)⟩

end Machine

end TapeLang
