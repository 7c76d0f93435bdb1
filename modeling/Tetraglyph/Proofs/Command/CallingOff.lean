/-
  Tetraglyph.Proofs.Command.CallingOff
  ────────────────────────────────────
  **WORK THAT IS CALLED OFF BEFORE A RUN.**

  A setting says whether the work was called off, and with which error.  The
  two ways of running a machine look at it differently.  Without a limit on
  the steps a machine is looked after from batch to batch: one that is called
  off is handed back as it was, behind the error.  With a limit there is one
  run and nothing to look at before it: the machine makes its steps as if
  nobody had called it off, and at least one of them.

      Setting.goingOn   — the setting in which nothing was called off
      writesOne         — a machine that is to push 1 and write it

  Main results

      drive_unlimited          — without a limit nothing is executed
      drive_limited            — with a limit nothing is noticed
      called_off_noticed_iff   — the limit decides
-/
import Tetraglyph.Proofs.Command.Driving

namespace Tetraglyph

/-! ## §1. A run moves a machine that is alive. -/

namespace Machine

/-- How many instructions a run executes is at most how many it may. -/
theorem stepCount_le (n : Nat) (m : Machine) : stepCount n m ≤ n := by
  induction n generalizing m with
  | zero => exact Nat.le_refl 0
  | succ n ih =>
      cases h : m.alive with
      | true =>
          rw [stepCount_alive h]
          exact Nat.succ_le_succ (ih m.step)
      | false =>
          rw [stepCount_stopped h]
          exact Nat.zero_le _

/-- A machine that is alive makes a step if it may make any. -/
theorem run_fst_pos {m : Machine} (h : m.alive = true) {n : Nat} (hn : 0 < n) :
    0 < (m.run n).1 := by
  obtain ⟨n, rfl⟩ := Nat.exists_eq_succ_of_ne_zero hn.ne'
  rw [run_eq]
  show 0 < stepCount (n + 1) m
  rw [stepCount_alive h]
  exact Nat.succ_pos _

/-- **The count of the steps tells a run from no run.**  It is a word, but
there are fewer steps in one run than there are words. -/
theorem steps_run_ne {m : Machine} (h : m.alive = true) {n : UInt64} (hn : n ≠ 0) :
    (m.run n.toNat).2.steps ≠ m.steps := by
  have hnpos : 0 < n.toNat :=
    Nat.pos_of_ne_zero fun hz => hn (UInt64.toNat_inj.1 (by simpa using hz))
  have hpos := run_fst_pos h hnpos
  have hle : (m.run n.toNat).1 ≤ n.toNat := by
    rw [run_eq]
    exact stepCount_le _ m
  have hn64 := n.toNat_lt
  have hm64 := m.steps.toNat_lt
  intro heq
  -- less than one round of the count was added
  have hnat := congrArg UInt64.toNat heq
  rw [steps_run, UInt64.toNat_add, UInt64.toNat_ofNat'] at hnat
  omega

end Machine

namespace Command

open Machine

variable {γ : Type}

/-! ## §2. The two ways of running. -/

/-- The setting in which the work was not called off. -/
def Setting.goingOn (s : Setting γ) : Setting γ := { s with done := none }

/-- **Without a limit a machine that is called off is left as it is.** -/
theorem drive_unlimited {s : Setting γ} {f : Failure} (hs : s.done = some f)
    (hlimit : 0 < s.limit) {m : Machine} (hm : m.alive = true) (hmax : s.config.maxSteps = 0) :
    drive s m = some (some f, m) := by
  obtain ⟨batches, hb⟩ := Nat.exists_eq_succ_of_ne_zero hlimit.ne'
  unfold drive
  rw [if_pos hmax, hs, hb]
  show (if m.alive then _ else _) = _
  rw [if_pos hm]

/-- **With a limit nothing is noticed.** -/
theorem drive_limited {s : Setting γ} (hmax : s.config.maxSteps ≠ 0) (m : Machine) :
    drive s m = drive s.goingOn m ∧
      ∃ r, drive s m = some (r, (m.run s.config.maxSteps.toNat).2) := by
  have hgoing : s.goingOn.config.maxSteps ≠ 0 := hmax
  unfold drive
  rw [if_neg hmax, if_neg hgoing]
  refine ⟨rfl, ?_⟩
  dsimp only
  split
  next f _ => exact ⟨some f, rfl⟩
  next => exact ⟨_, rfl⟩

/-! ## §3. The limit decides. -/

/-- A machine that is to push 1 and write it. -/
def writesOne : Machine :=
  ⟨#[⟨.push, 0, 1, 1, 0⟩, ⟨.output, 1, halt, halt, 1⟩], 0, Stack.new, 0, .ten,
    Tokens.ofBytes [] none, Sink.unlimited, none, none⟩

/-- **Whether calling off is noticed depends on the limit alone.**  A machine
that is alive, driven after the work was called off, comes back untouched
and with the error exactly if there is no limit on the steps.
With a limit it is driven as if the work went on: it makes at least one
step, and its count of steps is another one afterwards. -/
theorem called_off_noticed_iff {s : Setting γ} {f : Failure} (hs : s.done = some f)
    (hlimit : 0 < s.limit) {m : Machine} (hm : m.alive = true) :
    (drive s m = some (some f, m) ↔ s.config.maxSteps = 0) ∧
    (s.config.maxSteps ≠ 0 →
      ∃ r u, drive s m = some (r, u) ∧ drive s.goingOn m = some (r, u) ∧
        u = (m.run s.config.maxSteps.toNat).2 ∧ 0 < (m.run s.config.maxSteps.toNat).1 ∧
        u.steps ≠ m.steps) := by
  have hlimited : s.config.maxSteps ≠ 0 →
      ∃ r u, drive s m = some (r, u) ∧ drive s.goingOn m = some (r, u) ∧
        u = (m.run s.config.maxSteps.toNat).2 ∧ 0 < (m.run s.config.maxSteps.toNat).1 ∧
        u.steps ≠ m.steps := by
    intro hmax
    obtain ⟨hsame, r, hr⟩ := drive_limited hmax m
    have hpos : 0 < s.config.maxSteps.toNat :=
      Nat.pos_of_ne_zero fun hz => hmax (UInt64.toNat_inj.1 (by simpa using hz))
    exact ⟨r, _, hr, by rw [← hsame, hr], rfl, run_fst_pos hm hpos, steps_run_ne hm hmax⟩
  refine ⟨⟨?_, drive_unlimited hs hlimit hm⟩, hlimited⟩
  intro hdrive
  by_contra hmax
  obtain ⟨r, u, hr, _, _, _, hsteps⟩ := hlimited hmax
  rw [hdrive, Option.some.injEq, Prod.mk.injEq] at hr
  exact hsteps (by rw [hr.2])

/-- A push and an output that were called off: nothing is executed without a
limit, and everything with one. -/
theorem called_off_noticed_iff_output :
    ∃ (s : Setting (Cache Content.Id Program)) (u : Machine),
      s.done = some (.known .cancelled) ∧ writesOne.alive = true ∧
      drive (s.capped 0 1) writesOne = some (some (.known .cancelled), writesOne) ∧
      drive (s.capped 1000 1) writesOne = some (none, u) ∧
      drive (s.capped 1000 1).goingOn writesOne = some (none, u) := by
  let s : Setting (Cache Content.Id Program) :=
    ⟨.default, some (.known .cancelled), .standard, 1, 0⟩
  have halive : writesOne.alive = true := rfl
  obtain ⟨hnoticed, _⟩ :=
    called_off_noticed_iff (s := s.capped 0 1) rfl Nat.one_pos halive
  obtain ⟨_, hlimited⟩ :=
    called_off_noticed_iff (s := s.capped 1000 1) rfl Nat.one_pos halive
  obtain ⟨r, u, hr, hgoing, _⟩ := hlimited (by decide)
  have hnone : r = none := by
    have hfst : (drive (s.capped 1000 1) writesOne).map Prod.fst = some none := by cbv
    rw [hr] at hfst
    exact Option.some.inj hfst
  subst hnone
  exact ⟨s, u, rfl, halive, hnoticed.2 rfl, hr, hgoing⟩

/-- Under a limit of a thousand steps, a push and an output that were called
off run to their end and write what they write. -/
theorem called_off_ignored_under_limit :
    ¬ ∀ (s : Setting (Cache Content.Id Program)) (f : Failure) (m : Machine),
      s.done = some f → 0 < s.limit → m.alive = true → drive s m = some (some f, m) := by
  intro h
  let s : Setting (Cache Content.Id Program) :=
    ⟨{ Config.default with maxSteps := 1000 }, some (.known .cancelled), .standard, 1, 1⟩
  have hdrive := h s (.known .cancelled) writesOne rfl Nat.one_pos rfl
  have hout : (drive s writesOne).map (fun x => x.2.output.text) = some "1\n" := by cbv
  rw [hdrive] at hout
  exact absurd hout (by decide)

end Command

end Tetraglyph
