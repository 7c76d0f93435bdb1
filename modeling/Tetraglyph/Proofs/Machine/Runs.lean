/-
  Tetraglyph.Proofs.Machine.Runs
  ──────────────────────────────
  **RUNS COMPOSE.**

  A run executes one instruction after another and counts them.  No
  instruction looks at the count, and a machine that has stopped does
  nothing any more, so a run can be interrupted anywhere: what comes of its
  parts is what comes of the whole.  Running in BATCHES until the machine
  stops is a run up to the step at which it stops, whatever the size of the
  batches.

      recount       — the machine with another count
      stepCount     — how many of the next instructions are executed
      StopsAt       — the step at which a machine stops
      runInBatches  — until it stops, in batches of any size

  Main results

      step_recount  — no step looks at the count
      run_eq        — what a run returns and leaves
      run_add       — a run is the run of its parts
      batches_iff   — batches end at the first stop
      run_composes  — all of this in every history
-/
import Tetraglyph.Proofs.Machine.Arena

namespace Tetraglyph

namespace Machine

/-! ## §1. No step looks at the count. -/

/-- The machine with another count of its steps. -/
def recount (m : Machine) (k : UInt64) : Machine := { m with steps := k }

theorem alive_recount (m : Machine) (k : UInt64) : (m.recount k).alive = m.alive := rfl

theorem onStack_recount (m : Machine) (k : UInt64) (next : Int) (r : Except Failure Stack) :
    (m.recount k).onStack next r = (m.onStack next r).recount k := by
  cases r <;> rfl

theorem readInput_recount (m : Machine) (k : UInt64) (next : Int) :
    (m.recount k).readInput next = (m.readInput next).recount k := by
  rcases h : m.input.next with ⟨f | token, input⟩
  · simp only [readInput, recount, h, fail]
  · cases hv : Numeral.ofText m.base token <;> simp only [readInput, recount, h, hv, fail]

theorem writeOutput_recount (m : Machine) (k : UInt64) (next : Int) :
    (m.recount k).writeOutput next = (m.writeOutput next).recount k := by
  rcases h : m.stack.take m.pc with f | ⟨v, stack⟩
  · simp only [writeOutput, recount, h, fail]
  · cases hw : m.output.write (v.format m.base ++ "\n") <;>
      simp only [writeOutput, recount, h, hw, fail]

theorem brace_recount (m : Machine) (k : UInt64) (ix : Instr) (test : Numeral → Bool) :
    (m.recount k).brace ix test = (m.brace ix test).recount k := by
  cases h : m.stack.top m.pc <;> simp only [brace, recount, h, fail]

theorem execute_recount (m : Machine) (k : UInt64) (ix : Instr) :
    (m.recount k).execute ix = (m.execute ix).recount k := by
  rcases h : m.stack.takeMany m.pc 4 with f | ⟨vs, stack⟩
  · simp only [execute, recount, h, fail]
  · simp only [execute, recount, h]
    cases (spelled vs).isBrace <;> rfl

/-- **No step looks at the count.** -/
theorem step_recount (m : Machine) (k : UInt64) : (m.recount k).step = m.step.recount k := by
  have hfetch : (m.recount k).program.fetch? (m.recount k).pc = m.program.fetch? m.pc := rfl
  unfold step
  rw [hfetch]
  cases m.program.fetch? m.pc with
  | none => rfl
  | some ix =>
      dsimp only
      cases ix.kind with
      | nop => rfl
      | push => rfl
      | unknown code => rfl
      | input => exact readInput_recount m k ix.next
      | output => exact writeOutput_recount m k ix.next
      | lbrace => exact brace_recount m k ix _
      | rbrace => exact brace_recount m k ix _
      | execute => exact execute_recount m k ix
      | _ => exact onStack_recount m k ix.next _

theorem goOn_recount (n : Nat) (m : Machine) (k : UInt64) :
    goOn n (m.recount k) = (goOn n m).recount k := by
  induction n generalizing m with
  | zero => rfl
  | succ n ih =>
      cases h : m.alive with
      | true => rw [goOn_alive (by rw [alive_recount, h]), goOn_alive h, step_recount, ih]
      | false => rw [goOn_stopped (by rw [alive_recount, h]), goOn_stopped h]

/-- No step changes the count. -/
theorem steps_goOn (n : Nat) (m : Machine) : (goOn n m).steps = m.steps := by
  have h := goOn_recount n m m.steps
  show (goOn n m).steps = ((goOn n m).recount m.steps).steps
  rw [← h]
  rfl

/-! ## §2. Counting. -/

/-- How many of the next `n` instructions are executed. -/
def stepCount : Nat → Machine → Nat
  | 0, _ => 0
  | n + 1, m => if m.alive then stepCount n m.step + 1 else 0

theorem stepCount_alive {m : Machine} (h : m.alive = true) (n : Nat) :
    stepCount (n + 1) m = stepCount n m.step + 1 := by
  rw [stepCount, if_pos h]

theorem stepCount_stopped {m : Machine} (h : m.alive = false) (n : Nat) : stepCount n m = 0 := by
  cases n with
  | zero => rfl
  | succ n => rw [stepCount, if_neg (by rw [h]; decide)]

theorem stepCount_recount (n : Nat) (m : Machine) (k : UInt64) :
    stepCount n (m.recount k) = stepCount n m := by
  induction n generalizing m with
  | zero => rfl
  | succ n ih =>
      cases h : m.alive with
      | true => rw [stepCount_alive (by rw [alive_recount, h]), stepCount_alive h, step_recount, ih]
      | false => rw [stepCount_stopped (by rw [alive_recount, h]), stepCount_stopped h]

/-- The instructions of a run are those of its parts. -/
theorem stepCount_add (a b : Nat) (m : Machine) :
    stepCount (a + b) m = stepCount a m + stepCount b (goOn a m) := by
  induction a generalizing m with
  | zero => rw [Nat.zero_add, stepCount, Nat.zero_add]; rfl
  | succ a ih =>
      rw [Nat.add_right_comm]
      cases h : m.alive with
      | true =>
          rw [stepCount_alive h, stepCount_alive h, goOn_alive h, ih]
          omega
      | false => rw [stepCount_stopped h, stepCount_stopped h, goOn_stopped h, stepCount_stopped h]

/-- A run falls short only if the machine stops. -/
theorem stopped_of_stepCount_lt {n : Nat} {m : Machine} (h : stepCount n m < n) :
    (goOn n m).alive = false := by
  induction n generalizing m with
  | zero => exact absurd h (Nat.not_lt_zero _)
  | succ n ih =>
      cases ha : m.alive with
      | true =>
          rw [stepCount_alive ha] at h
          rw [goOn_alive ha]
          exact ih (by omega)
      | false =>
          rw [goOn_stopped ha]
          exact ha

theorem stepMany_fst (n done : Nat) (m : Machine) :
    (stepMany n done m).1 = done + stepCount n m := by
  induction n generalizing done m with
  | zero => rfl
  | succ n ih =>
      rw [stepMany]
      cases h : m.alive with
      | true =>
          rw [if_pos rfl, ih, stepCount_alive h]
          omega
      | false =>
          rw [if_neg (by decide), stepCount_stopped h]
          rfl

/-! ## §3. Runs. -/

/-- **What a run returns and leaves**: the number of instructions executed,
and the machine behind them with that number counted. -/
theorem run_eq (m : Machine) (n : Nat) :
    m.run n = (stepCount n m, (goOn n m).recount (m.steps + UInt64.ofNat (stepCount n m))) := by
  have hcount : (stepMany n 0 m).1 = stepCount n m := by rw [stepMany_fst, Nat.zero_add]
  show ((stepMany n 0 m).1, recount (stepMany n 0 m).2
    ((stepMany n 0 m).2.steps + UInt64.ofNat (stepMany n 0 m).1)) = _
  rw [hcount, stepMany_snd, steps_goOn]

theorem alive_run (m : Machine) (n : Nat) : (m.run n).2.alive = (goOn n m).alive := by
  rw [run_eq]
  rfl

/-- **A run is the run of its parts**, in what it leaves and in what it
returns. -/
theorem run_add (m : Machine) (a b : Nat) :
    ((m.run a).2.run b).2 = (m.run (a + b)).2 ∧
      (m.run a).1 + ((m.run a).2.run b).1 = (m.run (a + b)).1 := by
  rw [run_eq m a, run_eq m (a + b), run_eq _ b, stepCount_recount, goOn_recount, stepCount_add,
    goOn_add]
  refine ⟨?_, rfl⟩
  show recount _ (m.steps + UInt64.ofNat _ + UInt64.ofNat _) = recount _ (m.steps + UInt64.ofNat _)
  rw [UInt64.ofNat_add, UInt64.add_assoc]
  rfl

theorem run_zero (m : Machine) : m.run 0 = (0, m) := by
  rw [run_eq]
  show (0, m.recount (m.steps + 0)) = _
  rw [UInt64.add_zero]
  rfl

/-- Running on changes nothing once the machine has stopped. -/
theorem run_of_le {m : Machine} {k n : Nat} (h : (m.run k).2.alive = false) (hle : k ≤ n) :
    (m.run n).2 = (m.run k).2 := by
  obtain ⟨d, rfl⟩ := Nat.exists_eq_add_of_le hle
  rw [alive_run] at h
  rw [run_eq, run_eq, stepCount_add, goOn_add, stepCount_stopped h, goOn_stopped h, Nat.add_zero]

/-- A run that ends without a failure has met none on the way. -/
theorem fault_run_of_le {m : Machine} {k n : Nat} (h : (m.run n).2.fault = none) (hle : k ≤ n) :
    (m.run k).2.fault = none := by
  obtain ⟨d, rfl⟩ := Nat.exists_eq_add_of_le hle
  rw [run_eq, goOn_add] at h
  rw [run_eq]
  show (goOn k m).fault = none
  exact fault_of_goOn h

/-- What the runs of a history return, one after another. -/
def counts : List Event → Machine → List Nat
  | [], _ => []
  | .run n :: es, m => (m.run n).1 :: counts es (m.occur (.run n))
  | .push v :: es, m => counts es (m.occur (.push v))

/-- **The count is the sum of what the runs returned.** -/
theorem steps_after (es : List Event) (m : Machine) :
    (m.after es).steps = m.steps + UInt64.ofNat (counts es m).sum := by
  induction es generalizing m with
  | nil => exact (UInt64.add_zero _).symm
  | cons e es ih =>
      show ((m.occur e).after es).steps = _
      rw [ih]
      cases e with
      | push v => rfl
      | run n =>
          show (m.run n).2.steps + _ = m.steps + UInt64.ofNat ((m.run n).1 + _)
          rw [UInt64.ofNat_add, run_eq, ← UInt64.add_assoc]
          rfl

/-! ## §4. Batches. -/

/-- The machine stops at step `k`, and not before. -/
def StopsAt (m : Machine) (k : Nat) : Prop :=
  (m.run k).2.alive = false ∧ ∀ j < k, (m.run j).2.alive = true

theorem StopsAt.unique {m : Machine} {k k' : Nat} (h : m.StopsAt k) (h' : m.StopsAt k') :
    k = k' := by
  rcases Nat.lt_trichotomy k k' with hlt | heq | hgt
  · exact absurd (h'.2 k hlt) (by rw [h.1]; decide)
  · exact heq
  · exact absurd (h.2 k' hgt) (by rw [h'.1]; decide)

theorem exists_stopsAt {m : Machine} {n : Nat} (h : (m.run n).2.alive = false) :
    ∃ k, k ≤ n ∧ m.StopsAt k := by
  have hex : ∃ k, (m.run k).2.alive = false := ⟨n, h⟩
  refine ⟨Nat.find hex, Nat.find_min' hex h, Nat.find_spec hex, ?_⟩
  intro j hj
  exact Bool.not_eq_false _ ▸ Nat.find_min hex hj

/-- Runs a machine in batches of `size` instructions until it stops.  Gives
`none` after `limit` batches. -/
def runInBatches (size : Nat) : Nat → Machine → Option (Option Failure × Machine)
  | 0, _ => none
  | limit + 1, m =>
    if m.alive then runInBatches size limit (m.run size).2 else some (m.fault, m)

theorem runToHalt_eq (limit : Nat) (m : Machine) :
    runToHalt none limit m = runInBatches batchSize limit m := by
  induction limit generalizing m with
  | zero => rfl
  | succ limit ih =>
      rw [runToHalt, runInBatches, ih]

/-- Batches end after some run that stops the machine. -/
theorem batches_run {size limit : Nat} {m m' : Machine} {r : Option Failure}
    (h : runInBatches size limit m = some (r, m')) :
    ∃ n, m' = (m.run n).2 ∧ m'.alive = false ∧ r = m'.fault := by
  induction limit generalizing m with
  | zero => exact absurd h (by simp [runInBatches])
  | succ limit ih =>
      rw [runInBatches] at h
      cases ha : m.alive with
      | true =>
          rw [ha, if_pos rfl] at h
          obtain ⟨n, hn, hdead, hr⟩ := ih h
          exact ⟨size + n, by rw [hn, (run_add m size n).1], hdead, hr⟩
      | false =>
          rw [ha, if_neg (by decide), Option.some.injEq, Prod.mk.injEq] at h
          obtain ⟨rfl, rfl⟩ := h
          exact ⟨0, by rw [run_zero], ha, rfl⟩

/-- As many batches as it takes to stop the machine are enough. -/
theorem batches_of_stopped {size limit : Nat} {m : Machine}
    (h : (m.run (size * limit)).2.alive = false) :
    ∃ r m', runInBatches size (limit + 1) m = some (r, m') := by
  induction limit generalizing m with
  | zero =>
      rw [Nat.mul_zero, run_zero] at h
      have h : m.alive = false := h
      exact ⟨m.fault, m, by rw [runInBatches, h, if_neg (by decide)]⟩
  | succ limit ih =>
      rw [runInBatches]
      cases ha : m.alive with
      | true =>
          rw [if_pos rfl]
          refine ih ?_
          rw [(run_add m size (size * limit)).1, Nat.add_comm, ← Nat.mul_succ]
          exact h
      | false =>
          rw [if_neg (by decide)]
          exact ⟨_, _, rfl⟩

/-- **Batches end at the first stop**, whatever their size. -/
theorem batches_iff {size : Nat} (hsize : 0 < size) {m m' : Machine} {r : Option Failure} :
    (∃ limit, runInBatches size limit m = some (r, m')) ↔
      ∃ k, m.StopsAt k ∧ m' = (m.run k).2 ∧ r = m'.fault := by
  have forward : ∀ {r : Option Failure} {m' : Machine},
      (∃ limit, runInBatches size limit m = some (r, m')) →
        ∃ k, m.StopsAt k ∧ m' = (m.run k).2 ∧ r = m'.fault := by
    intro r m' ⟨limit, h⟩
    obtain ⟨n, hn, hdead, hr⟩ := batches_run h
    rw [hn] at hdead
    obtain ⟨k, hle, hk⟩ := exists_stopsAt hdead
    exact ⟨k, hk, by rw [hn, run_of_le hk.1 hle], hr⟩
  refine ⟨forward, ?_⟩
  intro ⟨k, hk, hm', hr⟩
  -- some number of batches is enough, and it ends at the same stop
  have hdead : (m.run (size * k)).2.alive = false := by
    rw [run_of_le hk.1 (Nat.le_mul_of_pos_left k hsize)]
    exact hk.1
  obtain ⟨r', d, hd⟩ := batches_of_stopped hdead
  obtain ⟨k', hk', hdm, hdr⟩ := forward ⟨_, hd⟩
  rw [hk'.unique hk, ← hm'] at hdm
  refine ⟨k + 1, ?_⟩
  rw [hd, hdr, hdm, ← hr]

/-! ## §5. Histories. -/

/-- A machine that has halted has not failed. -/
theorem halted_kept (loaded : Program) :
    Kept fun m => Safe loaded m ∧ (m.pc = halt → m.fault = none) := by
  refine ⟨?_, fun m v h => ⟨(safe_kept loaded).push m v h.1, h.2⟩,
    fun m k h => ⟨(safe_kept loaded).count m k h.1, h.2⟩⟩
  intro m ⟨hsafe, _⟩ halive
  refine ⟨(safe_kept loaded).step m hsafe halive, ?_⟩
  have hfault := fault_of_alive halive
  obtain ⟨_, ix, _, _, hfetch, hknown⟩ := hsafe.fetch halive
  rcases step_cases hfetch hknown with hs | ⟨_, hm⟩ | ⟨_, hm⟩ | ⟨_, _, _, _, hs⟩
  · -- it failed where it stood, which is not the end
    intro hpc
    rw [hs.2.1] at hpc
    exact absurd hpc (pc_of_alive halive)
  · exact fun _ => hm.1.trans hfault
  · exact fun _ => hm.1.trans hfault
  · exact fun _ => hs.1.trans hfault

/-- A machine that has stopped has halted or failed, and not both. -/
theorem stopped_cases {loaded : Program} {m : Machine} (hsafe : Safe loaded m)
    (hhalt : m.pc = halt → m.fault = none) (h : m.alive = false) :
    (m.halted = true ∧ m.fault = none) ∨ (m.halted = false ∧ ∃ f, m.fault = some f) := by
  cases hh : m.halted with
  | true => exact .inl ⟨rfl, hhalt (eq_of_beq hh)⟩
  | false =>
      rcases hsafe.stopped h with hh' | hf
      · rw [hh'] at hh
        exact absurd hh (by decide)
      · exact .inr ⟨rfl, hf⟩

/-- **Runs compose.**  In every history, a run and a run behind it leave what
one run of both lengths leaves, and return together what it returns; a run
falls short only if the machine has halted or failed; and the count of steps
is the sum of what the runs returned.  So running until the machine stops
ends if and only if some run stops it; it then leaves the machine as it is
at the first stop, and returns the failure, or none if the machine has
halted; and the size of the batches makes no difference. -/
theorem run_composes {p : Program} (hp : p.Loaded) {base : Int} {input : Tokens} {output : Sink}
    {start : Machine} (hstart : Machine.new p base input output = .ok start) (es : List Event) :
    let m := start.after es
    (∀ a b : Nat, ((m.run a).2.run b).2 = (m.run (a + b)).2 ∧
      (m.run a).1 + ((m.run a).2.run b).1 = (m.run (a + b)).1) ∧
    (∀ n : Nat, (m.run n).1 < n →
      (m.run n).2.halted = true ∨ ∃ f, (m.run n).2.fault = some f) ∧
    ((counts es start).sum < 2 ^ 64 → m.steps.toNat = (counts es start).sum) ∧
    ((∃ limit r, runToHalt none limit m = some r) ↔ ∃ k, (m.run k).2.alive = false) ∧
    (∀ limit r m', runToHalt none limit m = some (r, m') →
      ∃ k, m.StopsAt k ∧ m' = (m.run k).2 ∧
        ((m'.halted = true ∧ m'.fault = none ∧ r = none) ∨
          (m'.halted = false ∧ ∃ f, m'.fault = some f ∧ r = some f))) ∧
    ∀ size : Nat, 0 < size → ∀ r m', (∃ limit, runInBatches size limit m = some (r, m')) ↔
      ∃ limit, runToHalt none limit m = some (r, m') := by
  intro m
  have hinit : Safe p start ∧ (start.pc = halt → start.fault = none) := by
    refine ⟨safe_new hp hstart, ?_⟩
    obtain ⟨b, rfl⟩ := new_eq hstart
    exact fun _ => rfl
  -- what a run leaves is the machine of a longer history
  have hkept : ∀ n, Safe p (m.run n).2 ∧ ((m.run n).2.pc = halt → (m.run n).2.fault = none) :=
    fun n => (halted_kept p).occur ((halted_kept p).after hinit es) (.run n)
  have hpos : 0 < batchSize := by decide
  have hends : ∀ {r : Option Failure} {m' : Machine},
      (∃ limit, runToHalt none limit m = some (r, m')) ↔
        ∃ k, m.StopsAt k ∧ m' = (m.run k).2 ∧ r = m'.fault := by
    intro r m'
    simp only [runToHalt_eq]
    exact batches_iff hpos
  refine ⟨run_add m, ?_, ?_, ?_, ?_, ?_⟩
  · intro n hn
    rw [run_eq] at hn
    have hdead : (m.run n).2.alive = false := by
      rw [alive_run]
      exact stopped_of_stepCount_lt hn
    exact (hkept n).1.stopped hdead
  · intro hlt
    have hsteps : m.steps = start.steps + UInt64.ofNat (counts es start).sum := steps_after es start
    have hzero : start.steps = 0 := by
      obtain ⟨b, rfl⟩ := new_eq hstart
      rfl
    rw [hsteps, hzero, UInt64.zero_add, UInt64.toNat_ofNat', Nat.mod_eq_of_lt hlt]
  · constructor
    · intro ⟨limit, ⟨r, m'⟩, h⟩
      obtain ⟨k, hk, _⟩ := hends.1 ⟨limit, h⟩
      exact ⟨k, hk.1⟩
    · intro ⟨n, hn⟩
      obtain ⟨k, _, hk⟩ := exists_stopsAt hn
      obtain ⟨limit, h⟩ := hends.2 ⟨k, hk, rfl, rfl⟩
      exact ⟨limit, _, h⟩
  · intro limit r m' h
    obtain ⟨k, hk, hm', hr⟩ := hends.1 ⟨limit, h⟩
    refine ⟨k, hk, hm', ?_⟩
    have hdead := hk.1
    rw [hr, hm']
    rcases stopped_cases (hkept k).1 (hkept k).2 hdead with ⟨hh, hf⟩ | ⟨hh, f, hf⟩
    · exact .inl ⟨hh, hf, hf⟩
    · exact .inr ⟨hh, f, hf, hf⟩
  · intro size hsize r m'
    exact (batches_iff hsize).trans hends.symm

/-- A push and two pops, looked at after the push: the second pop fails, in
the second of ten more steps. -/
theorem run_composes_pops :
    ∃ (p : Program) (start : Machine), p.Loaded ∧
      Machine.new p 10 (Tokens.ofBytes [] none) Sink.unlimited = .ok start ∧
      let m := start.after [.run 1]
      (m.run 10).1 = 2 ∧ ((m.run 1).2.run 9).2 = (m.run 10).2 ∧
      (m.run 10).2.fault = some (.fault .emptyStack 2) ∧ m.steps.toNat = 1 ∧
      ∃ limit r, runToHalt none limit m = some r := by
  let p : Program := #[⟨.push, 0, 1, 1, 0⟩, ⟨.pop, 1, 2, 2, 1⟩, ⟨.pop, 2, halt, halt, 2⟩]
  let start : Machine :=
    ⟨p, 0, Stack.new, 0, .ten, Tokens.ofBytes [] none, Sink.unlimited, none, none⟩
  have hp : p.Loaded :=
    .codes 1 1 none #[⟨97, 97, 98, 99⟩, ⟨97, 98, 99, 99⟩, ⟨97, 98, 99, 99⟩] rfl
  have hstart : Machine.new p 10 (Tokens.ofBytes [] none) Sink.unlimited = .ok start := rfl
  obtain ⟨hadd, _, hsteps, hiff, _⟩ := run_composes hp hstart [.run 1]
  exact ⟨p, start, hp, hstart, by cbv, (hadd 1 9).1, by cbv, hsteps (by cbv),
    hiff.2 ⟨2, by cbv⟩⟩

end Machine

end Tetraglyph
