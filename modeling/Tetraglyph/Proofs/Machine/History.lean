/-
  Tetraglyph.Proofs.Machine.History
  ─────────────────────────────────
  **WHAT CAN HAPPEN TO A MACHINE.**

  One step of a machine, seen from its program and its position, is one of
  four: it STOPS with a failure where it stands, it MOVES to another
  instruction, it SPLICES one in, or it breaks on a kind that is not known.
  `step_cases` says this once, and everything about programs under way is
  derived from it.

  A HISTORY is a list of events, each a run of so many instructions or a
  value pushed from outside.  What every step and every push keeps, every
  history keeps (`Kept.after`).

  Main results

      step_cases         — what a step does to program and position
      getElem?_splice    — the entries of a program after a splice
      Kept.after         — from one step to every history
      size_after         — the program grows by one with each splice
-/
import Tetraglyph.Machine
import Tetraglyph.Proofs.Program.Loaded

namespace Tetraglyph

/-! ## §1. Fetching and splicing. -/

theorem Program.fetch?_eq_some {p : Program} {i : Int} {ix : Instr} :
    p.fetch? i = some ix ↔ ∃ n : Nat, i = (n : Int) ∧ p[n]? = some ix := by
  unfold Program.fetch?
  constructor
  · intro h
    split at h
    next => exact absurd h (by simp)
    next hi => exact ⟨i.toNat, (Int.toNat_of_nonneg (by omega)).symm, h⟩
  · intro ⟨n, hi, h⟩
    rw [if_neg (by omega), hi, Int.toNat_natCast]
    exact h

namespace Machine

theorem size_splice (p : Program) (id : Nat) (ix : Instr) (k : Kind) :
    (splice p id ix k).size = p.size + 1 := by
  unfold splice
  rw [Array.size_setIfInBounds, Array.size_push]

/-- **The entries after a splice**: the one spliced behind leads to the new
one, the new one leads on, and all others are what they were. -/
theorem getElem?_splice {p : Program} {id : Nat} (hid : id < p.size) (ix : Instr) (k : Kind)
    (j : Nat) :
    (splice p id ix k)[j]?
      = if j = id then some { ix with next := (p.size : Int) }
        else if j = p.size then some ⟨k, p.size, ix.next, ix.next, ix.parent⟩
        else p[j]? := by
  show (Array.setIfInBounds (p.push ⟨k, p.size, ix.next, ix.next, ix.parent⟩) id
    { ix with next := (p.size : Int) })[j]? = _
  rw [Array.getElem?_setIfInBounds, Array.getElem?_push, Array.size_push]
  by_cases hj : j = id
  · subst hj
    rw [if_pos rfl, if_pos (by omega), if_pos rfl]
  · rw [if_neg (fun h => hj h.symm), if_neg hj]

/-! ## §2. One step. -/

/-- The machine has stopped where it stood. -/
def Stops (m m' : Machine) : Prop :=
  (∃ f, m'.fault = some f) ∧ m'.pc = m.pc ∧ m'.program = m.program ∧ m'.broken = m.broken

/-- The machine has gone to `i` and its program is as it was. -/
def Moves (m m' : Machine) (i : Int) : Prop :=
  m'.fault = m.fault ∧ m'.pc = i ∧ m'.program = m.program ∧ m'.broken = m.broken

/-- The machine has put an instruction of kind `k` behind `ix` and stands at
it. -/
def Splices (m m' : Machine) (ix : Instr) (k : Kind) : Prop :=
  m'.fault = m.fault ∧ m'.pc = (m.program.size : Int) ∧
    m'.program = splice m.program m.pc.toNat ix k ∧ m'.broken = m.broken

theorem fail_stops (m : Machine) (f : Failure) : Stops m (m.fail f) := ⟨⟨f, rfl⟩, rfl, rfl, rfl⟩

theorem onStack_cases (m : Machine) (next : Int) (r : Except Failure Stack) :
    Stops m (m.onStack next r) ∨ Moves m (m.onStack next r) next := by
  cases r with
  | error f => exact .inl (fail_stops m f)
  | ok stack => exact .inr ⟨rfl, rfl, rfl, rfl⟩

theorem readInput_cases (m : Machine) (next : Int) :
    Stops m (m.readInput next) ∨ Moves m (m.readInput next) next := by
  unfold readInput
  split
  next => exact .inl ⟨⟨_, rfl⟩, rfl, rfl, rfl⟩
  next =>
      split
      next => exact .inl ⟨⟨_, rfl⟩, rfl, rfl, rfl⟩
      next => exact .inr ⟨rfl, rfl, rfl, rfl⟩

theorem writeOutput_cases (m : Machine) (next : Int) :
    Stops m (m.writeOutput next) ∨ Moves m (m.writeOutput next) next := by
  unfold writeOutput
  split
  next => exact .inl ⟨⟨_, rfl⟩, rfl, rfl, rfl⟩
  next =>
      split
      next => exact .inl ⟨⟨_, rfl⟩, rfl, rfl, rfl⟩
      next => exact .inr ⟨rfl, rfl, rfl, rfl⟩

theorem brace_cases (m : Machine) (ix : Instr) (test : Numeral → Bool) :
    Stops m (m.brace ix test) ∨ Moves m (m.brace ix test) ix.next ∨
      Moves m (m.brace ix test) ix.jump := by
  unfold brace
  split
  next => exact .inl ⟨⟨_, rfl⟩, rfl, rfl, rfl⟩
  next v _ =>
      cases test v with
      | false => exact .inr (.inl ⟨rfl, rfl, rfl, rfl⟩)
      | true => exact .inr (.inr ⟨rfl, rfl, rfl, rfl⟩)

theorem execute_cases (m : Machine) (ix : Instr) :
    Stops m (m.execute ix) ∨
      ∃ k : Kind, k.isBrace = false ∧ k.Known ∧ Splices m (m.execute ix) ix k := by
  unfold execute
  split
  next => exact .inl ⟨⟨_, rfl⟩, rfl, rfl, rfl⟩
  next vs stack _ =>
      dsimp only
      cases hk : (spelled vs).isBrace with
      | true => exact .inl ⟨⟨_, rfl⟩, rfl, rfl, rfl⟩
      | false =>
          refine .inr ⟨spelled vs, hk, Pattern.kind_known _, ?_⟩
          exact ⟨rfl, rfl, rfl, rfl⟩

/-- **What a step does to program and position**, if there is an instruction
of a known kind. -/
theorem step_cases {m : Machine} {ix : Instr} (hix : m.program.fetch? m.pc = some ix)
    (hknown : ix.kind.Known) :
    Stops m m.step ∨
    (ix.kind ≠ .execute ∧ Moves m m.step ix.next) ∨
    (ix.kind.isBrace = true ∧ Moves m m.step ix.jump) ∨
    (ix.kind = .execute ∧ ∃ k : Kind, k.isBrace = false ∧ k.Known ∧ Splices m m.step ix k) := by
  -- all kinds but braces and Execute either stop or go to the next one
  have plain : ix.kind ≠ .execute → Stops m m.step ∨ Moves m m.step ix.next →
      Stops m m.step ∨ (ix.kind ≠ .execute ∧ Moves m m.step ix.next) ∨
      (ix.kind.isBrace = true ∧ Moves m m.step ix.jump) ∨
      (ix.kind = .execute ∧ ∃ k : Kind, k.isBrace = false ∧ k.Known ∧ Splices m m.step ix k) :=
    fun hk h => h.imp_right fun hm => .inl ⟨hk, hm⟩
  unfold step at plain ⊢
  rw [hix] at plain ⊢
  dsimp only at plain ⊢
  cases hk : ix.kind <;> rw [hk] at plain hknown <;> dsimp only at plain ⊢
  case nop => exact plain (by decide) (.inr ⟨rfl, rfl, rfl, rfl⟩)
  case push => exact plain (by decide) (.inr ⟨rfl, rfl, rfl, rfl⟩)
  case input => exact plain (by decide) (readInput_cases m ix.next)
  case output => exact plain (by decide) (writeOutput_cases m ix.next)
  case lbrace =>
    rcases brace_cases m ix Numeral.isZero with h | h | h
    · exact .inl h
    · exact .inr (.inl ⟨by decide, h⟩)
    · exact .inr (.inr (.inl ⟨rfl, h⟩))
  case rbrace =>
    rcases brace_cases m ix fun v => !v.isZero with h | h | h
    · exact .inl h
    · exact .inr (.inl ⟨by decide, h⟩)
    · exact .inr (.inr (.inl ⟨rfl, h⟩))
  case execute =>
    rcases execute_cases m ix with h | h
    · exact .inl h
    · exact .inr (.inr (.inr ⟨rfl, h⟩))
  case unknown code => exact absurd hknown (by simp [Kind.Known, Kind.all])
  all_goals exact plain (by decide) (onStack_cases m ix.next _)

/-! ## §3. Histories. -/

/-- What can be done to a machine from outside. -/
inductive Event where
  /-- Running it for so many instructions. -/
  | run (n : Nat)
  /-- Pushing a value. -/
  | push (v : Numeral)
  deriving Repr, DecidableEq

/-- The machine after an event. -/
def occur (m : Machine) : Event → Machine
  | .run n => (m.run n).2
  | .push v => m.push v

/-- The machine after a history. -/
def after (m : Machine) (es : List Event) : Machine := es.foldl occur m

/-- The machine after `n` instructions, or where it stopped. -/
def goOn : Nat → Machine → Machine
  | 0, m => m
  | n + 1, m => if m.alive then goOn n m.step else m

theorem goOn_alive {m : Machine} (h : m.alive = true) (n : Nat) :
    goOn (n + 1) m = goOn n m.step := by
  rw [goOn, if_pos h]

theorem goOn_stopped {m : Machine} (h : m.alive = false) (n : Nat) : goOn n m = m := by
  cases n with
  | zero => rfl
  | succ n => rw [goOn, if_neg (by rw [h]; decide)]

/-- Going on is going on. -/
theorem goOn_add (a b : Nat) (m : Machine) : goOn (a + b) m = goOn b (goOn a m) := by
  induction a generalizing m with
  | zero => rw [Nat.zero_add]; rfl
  | succ a ih =>
      rw [Nat.add_right_comm]
      -- a machine that has stopped stays what it is, however often it is run
      cases h : m.alive with
      | true => rw [goOn_alive h, goOn_alive h, ih]
      | false => rw [goOn_stopped h, goOn_stopped h, goOn_stopped h]

theorem stepMany_snd (n done : Nat) (m : Machine) : (stepMany n done m).2 = goOn n m := by
  induction n generalizing done m with
  | zero => rfl
  | succ n ih =>
      unfold stepMany goOn
      split
      · exact ih (done + 1) m.step
      · rfl

/-- A run goes on, and then counts. -/
theorem run_snd (m : Machine) (n : Nat) :
    (m.run n).2 = { goOn n m with steps := (m.run n).2.steps } := by
  rw [← stepMany_snd n 0 m]
  rfl

/-- What is kept by a step, by a push and by counting steps. -/
structure Kept (P : Machine → Prop) : Prop where
  step : ∀ m, P m → m.alive = true → P m.step
  push : ∀ m v, P m → P (m.push v)
  count : ∀ m k, P m → P { m with steps := k }

theorem Kept.goOn {P : Machine → Prop} (h : Kept P) (n : Nat) {m : Machine} (hm : P m) :
    P (Machine.goOn n m) := by
  induction n generalizing m with
  | zero => exact hm
  | succ n ih =>
      cases ha : m.alive with
      | true =>
          rw [goOn_alive ha]
          exact ih (h.step m hm ha)
      | false =>
          rw [goOn_stopped ha]
          exact hm

theorem Kept.occur {P : Machine → Prop} (h : Kept P) {m : Machine} (hm : P m) (e : Event) :
    P (m.occur e) := by
  cases e with
  | run n =>
      show P (m.run n).2
      rw [run_snd]
      exact h.count _ _ (h.goOn n hm)
  | push v => exact h.push m v hm

/-- **From one step to every history.** -/
theorem Kept.after {P : Machine → Prop} (h : Kept P) {m : Machine} (hm : P m) (es : List Event) :
    P (m.after es) := by
  induction es generalizing m with
  | nil => exact hm
  | cons e es ih => exact ih (h.occur hm e)

/-! ## §4. How the program grows. -/

/-- Whether the machine is at an Execute that will succeed. -/
def splices (m : Machine) : Bool :=
  match m.program.fetch? m.pc with
  | some ix => ix.kind == .execute && m.step.fault.isNone
  | none => false

/-- How many of the next `n` instructions are an Execute that succeeds. -/
def spliceCount : Nat → Machine → Nat
  | 0, _ => 0
  | n + 1, m => if m.alive then (if m.splices then 1 else 0) + spliceCount n m.step else 0

/-- How many Executes succeed in a history. -/
def splicesIn : List Event → Machine → Nat
  | [], _ => 0
  | .run n :: es, m => spliceCount n m + splicesIn es (m.occur (.run n))
  | .push v :: es, m => splicesIn es (m.occur (.push v))

theorem fault_of_alive {m : Machine} (h : m.alive = true) : m.fault = none := by
  unfold alive at h
  simp only [Bool.and_eq_true, Option.isNone_iff_eq_none] at h
  exact h.1.2

/-- A run that ends without a failure began without one. -/
theorem fault_of_goOn {n : Nat} {m : Machine} (h : (goOn n m).fault = none) : m.fault = none := by
  cases ha : m.alive with
  | true => exact fault_of_alive ha
  | false =>
      rw [goOn_stopped ha] at h
      exact h

theorem pc_of_alive {m : Machine} (h : m.alive = true) : m.pc ≠ halt := by
  unfold alive halted at h
  simp only [Bool.and_eq_true, Bool.not_eq_true', beq_eq_false_iff_ne] at h
  exact h.1.1

/-- A step leaves the program alone, or it is an Execute that succeeds. -/
theorem splices_cases {m : Machine} (halive : m.alive = true) :
    (m.splices = false ∧ m.step.program = m.program) ∨
    (m.splices = true ∧ ∃ ix k, m.program.fetch? m.pc = some ix ∧ ix.kind = .execute ∧
      k.isBrace = false ∧ k.Known ∧ Splices m m.step ix k) := by
  have hfault := fault_of_alive halive
  cases hix : m.program.fetch? m.pc with
  | none =>
      refine .inl ⟨by simp [splices, hix], ?_⟩
      unfold step
      rw [hix]
      rfl
  | some ix =>
      have hsplices : m.splices = (ix.kind == .execute && m.step.fault.isNone) := by
        simp [splices, hix]
      rw [hsplices]
      by_cases hknown : ix.kind.Known
      · rcases step_cases hix hknown with h | ⟨hk, h⟩ | ⟨hk, h⟩ | ⟨hk, k, hb, hkn, h⟩
        · obtain ⟨⟨f, hf⟩, _, hprog, _⟩ := h
          exact .inl ⟨by simp [hf], hprog⟩
        · exact .inl ⟨by simp [hk], h.2.2.1⟩
        · -- it jumped, so it is a brace
          have hne : ix.kind ≠ .execute := by
            intro hx
            rw [hx] at hk
            exact absurd hk (by decide)
          exact .inl ⟨by simp [hne], h.2.2.1⟩
        · refine .inr ⟨?_, ix, k, rfl, hk, hb, hkn, h⟩
          simp [hk, h.1, hfault]
      · -- an unknown kind breaks the machine and touches nothing
        obtain ⟨code, hk⟩ := Kind.eq_unknown hknown
        refine .inl ⟨by simp [hk], ?_⟩
        unfold step
        rw [hix]
        dsimp only
        rw [hk]
        rfl

theorem size_step {m : Machine} (halive : m.alive = true) :
    m.step.program.size = m.program.size + (if m.splices then 1 else 0) := by
  rcases splices_cases halive with ⟨hs, hprog⟩ | ⟨hs, ix, k, _, _, _, _, h⟩
  · rw [hs, hprog]
    rfl
  · rw [hs, h.2.2.1, size_splice]
    rfl

theorem size_goOn (n : Nat) (m : Machine) :
    (goOn n m).program.size = m.program.size + spliceCount n m := by
  induction n generalizing m with
  | zero => rfl
  | succ n ih =>
      cases ha : m.alive with
      | true =>
          rw [goOn_alive ha, ih, size_step ha, spliceCount, if_pos ha]
          omega
      | false =>
          rw [goOn_stopped ha, spliceCount, if_neg (by rw [ha]; decide)]
          rfl

/-- **The program grows by one with each Execute that succeeds.** -/
theorem size_after (es : List Event) (m : Machine) :
    (m.after es).program.size = m.program.size + splicesIn es m := by
  induction es generalizing m with
  | nil => rfl
  | cons e es ih =>
      show ((m.occur e).after es).program.size = _
      rw [ih]
      cases e with
      | run n =>
          have hrun : (m.occur (.run n)).program.size = m.program.size + spliceCount n m := by
            show (m.run n).2.program.size = _
            rw [run_snd]
            exact size_goOn n m
          rw [hrun, splicesIn]
          omega
      | push v => rfl

end Machine

end Tetraglyph
