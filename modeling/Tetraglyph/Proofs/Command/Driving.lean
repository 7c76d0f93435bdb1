/-
  Tetraglyph.Proofs.Command.Driving
  ─────────────────────────────────
  **WITH AND WITHOUT A LIMIT ON THE STEPS.**

  Without a limit a machine is run in batches until it stops.  With a limit
  it is run once for that many steps, and looked at afterwards.  Both ways
  stop at the same step: a limit that is not below it makes no difference,
  and a limit below it cuts the run off.

      capped    — the setting with another limit
      Regular   — machines that halt without a failure
      Driven    — what comes of running a machine under a setting

  Main results

      uncapped_iff    — without a limit, the first stop
      drive_stopped   — with a limit, a stop within it
      drive_alive     — with a limit, no stop within it
      drive_driven    — all that can come of either way
      limits_agree    — both ways agree
-/
import Tetraglyph.Command
import Tetraglyph.Proofs.Machine.Output

namespace Tetraglyph

/-! ## §1. Machines that halt without a failure. -/

namespace Machine

/-- A safe machine which has not both halted and failed. -/
def Regular (loaded : Program) (m : Machine) : Prop :=
  Safe loaded m ∧ (m.pc = halt → m.fault = none)

theorem regular_new {p : Program} (hp : p.Loaded) {base : Int} {input : Tokens} {output : Sink}
    {start : Machine} (h : Machine.new p base input output = .ok start) : Regular p start := by
  refine ⟨safe_new hp h, ?_⟩
  obtain ⟨b, rfl⟩ := new_eq h
  exact fun _ => rfl

theorem Regular.after {loaded : Program} {m : Machine} (h : Regular loaded m)
    (es : List Event) : Regular loaded (m.after es) :=
  (halted_kept loaded).after h es

theorem Regular.run {loaded : Program} {m : Machine} (h : Regular loaded m) (n : Nat) :
    Regular loaded (m.run n).2 :=
  (halted_kept loaded).occur h (.run n)

theorem Regular.stopped {loaded : Program} {m : Machine} (h : Regular loaded m)
    (hdead : m.alive = false) :
    (m.halted = true ∧ m.fault = none) ∨ (m.halted = false ∧ ∃ f, m.fault = some f) :=
  stopped_cases h.1 h.2 hdead

theorem halted_of_alive {m : Machine} (h : m.alive = true) : m.halted = false := by
  unfold halted
  rw [beq_eq_false_iff_ne]
  exact pc_of_alive h

/-- A machine that is alive after `n` steps has made all of them. -/
theorem run_fst_of_alive {m : Machine} {n : Nat} (h : (m.run n).2.alive = true) :
    (m.run n).1 = n := by
  rw [alive_run] at h
  rw [run_eq]
  induction n generalizing m with
  | zero => rfl
  | succ n ih =>
      cases ha : m.alive with
      | true =>
          rw [goOn_alive ha] at h
          show stepCount (n + 1) m = n + 1
          rw [stepCount_alive ha]
          exact congrArg (· + 1) (ih h)
      | false =>
          rw [goOn_stopped ha, ha] at h
          exact absurd h (by decide)

/-- A machine makes all the steps up to its stop. -/
theorem StopsAt.run_fst {m : Machine} {k : Nat} (h : m.StopsAt k) : (m.run k).1 = k := by
  cases k with
  | zero => rw [run_zero]
  | succ k =>
      -- it is alive before the last of them
      have hk := h.2 k (Nat.lt_succ_self k)
      have hlast : ((m.run k).2.run 1).1 = 1 := by
        rw [run_eq]
        exact stepCount_alive hk 0
      rw [← (run_add m k 1).2, run_fst_of_alive hk, hlast]

theorem steps_run (m : Machine) (n : Nat) :
    (m.run n).2.steps = m.steps + UInt64.ofNat (m.run n).1 := by
  rw [run_eq]
  rfl

end Machine

namespace Command

open Machine

variable {γ : Type}

/-! ## §2. Either way of running. -/

/-- The setting with another limit on the steps, and so many batches. -/
def Setting.capped (s : Setting γ) (maxSteps : UInt64) (batches : Nat) : Setting γ :=
  { s with config := { s.config with maxSteps }, limit := batches }

/-- **Without a limit a machine is run up to its first stop.** -/
theorem uncapped_iff {s : Setting γ} (hs : s.done = none) {m u : Machine}
    {r : Option Failure} :
    (∃ batches, drive (s.capped 0 batches) m = some (r, u)) ↔
      ∃ k, m.StopsAt k ∧ u = (m.run k).2 ∧ r = u.fault := by
  have hdrive : ∀ batches, drive (s.capped 0 batches) m = runInBatches batchSize batches m := by
    intro batches
    show runToHalt s.done batches m = _
    rw [hs, runToHalt_eq]
  simp only [hdrive]
  exact batches_iff (by decide)

section

variable {s : Setting γ} (hmax : s.config.maxSteps ≠ 0) {m : Machine}

include hmax

/-- **With a limit, a stop within it** is what a run without a limit finds. -/
theorem drive_stopped {loaded : Program} (h : Regular loaded m) {k : Nat} (hk : m.StopsAt k)
    (hle : k ≤ s.config.maxSteps.toNat) : drive s m = some ((m.run k).2.fault, (m.run k).2) := by
  unfold drive
  rw [if_neg hmax, run_of_le hk.1 hle]
  dsimp only
  rcases (h.run k).stopped hk.1 with ⟨hh, hf⟩ | ⟨_, f, hf⟩
  · rw [hf, hh]
    rfl
  · rw [hf]

/-- **With a limit, no stop within it** is a failure behind all the steps. -/
theorem drive_alive (halive : (m.run s.config.maxSteps.toNat).2.alive = true) :
    drive s m = some (some (.known .stepLimit), (m.run s.config.maxSteps.toNat).2) := by
  unfold drive
  rw [if_neg hmax]
  dsimp only
  rw [fault_of_alive halive, halted_of_alive halive]
  rfl

end

/-- What comes of running a machine under a setting: it stops, within the
limit if there is one, or the limit cuts it off. -/
inductive Driven (s : Setting γ) (m : Machine) : Option Failure → Machine → Prop where
  /-- The machine stops by itself. -/
  | stopped {k : Nat} (hk : m.StopsAt k)
      (hmax : s.config.maxSteps = 0 ∨ k ≤ s.config.maxSteps.toNat) :
      Driven s m (m.run k).2.fault (m.run k).2
  /-- The machine could go on behind the last step it may make. -/
  | cutOff (hmax : s.config.maxSteps ≠ 0)
      (halive : (m.run s.config.maxSteps.toNat).2.alive = true) :
      Driven s m (some (.known .stepLimit)) (m.run s.config.maxSteps.toNat).2

/-- **Nothing else comes of running a machine.** -/
theorem drive_driven {s : Setting γ} (hs : s.done = none) {loaded : Program} {m u : Machine}
    (h : Regular loaded m) {r : Option Failure} (hdrive : drive s m = some (r, u)) :
    Driven s m r u := by
  by_cases hmax : s.config.maxSteps = 0
  · have hcap : s.capped 0 s.limit = s := by
      unfold Setting.capped
      rw [← hmax]
    obtain ⟨k, hk, rfl, rfl⟩ := (uncapped_iff hs).1 ⟨s.limit, by rw [hcap]; exact hdrive⟩
    exact .stopped hk (.inl hmax)
  · cases halive : (m.run s.config.maxSteps.toNat).2.alive with
    | true =>
        rw [drive_alive hmax halive, Option.some.injEq, Prod.mk.injEq] at hdrive
        obtain ⟨rfl, rfl⟩ := hdrive
        exact .cutOff hmax halive
    | false =>
        obtain ⟨k, hle, hk⟩ := exists_stopsAt halive
        rw [drive_stopped hmax h hk hle, Option.some.injEq, Prod.mk.injEq] at hdrive
        obtain ⟨rfl, rfl⟩ := hdrive
        exact .stopped hk (.inr hle)

/-- Either way it is run for some number of steps. -/
theorem Driven.eq_run {s : Setting γ} {m u : Machine} {r : Option Failure} (h : Driven s m r u) :
    ∃ k, u = (m.run k).2 := by
  cases h with
  | stopped => exact ⟨_, rfl⟩
  | cutOff => exact ⟨_, rfl⟩

/-- One thing comes of running a machine. -/
theorem Driven.unique {s : Setting γ} {m u u' : Machine} {r r' : Option Failure}
    (h : Driven s m r u) (h' : Driven s m r' u') : r = r' ∧ u = u' := by
  -- a machine that stops within the limit is not alive behind it
  have hapart : ∀ {k : Nat}, m.StopsAt k →
      (s.config.maxSteps = 0 ∨ k ≤ s.config.maxSteps.toNat) → s.config.maxSteps ≠ 0 →
      (m.run s.config.maxSteps.toNat).2.alive = true → False := by
    intro k hk hwithin hmax halive
    rcases hwithin with hzero | hle
    · exact hmax hzero
    · rw [run_of_le hk.1 hle, hk.1] at halive
      exact absurd halive (by decide)
  cases h with
  | stopped hk hwithin =>
      cases h' with
      | stopped hk' hwithin' =>
          rw [hk.unique hk']
          exact ⟨rfl, rfl⟩
      | cutOff hmax halive => exact (hapart hk hwithin hmax halive).elim
  | cutOff hmax halive =>
      cases h' with
      | stopped hk hwithin => exact (hapart hk hwithin hmax halive).elim
      | cutOff => exact ⟨rfl, rfl⟩

/-! ## §3. Both ways agree. -/

/-- **A limit on the steps makes a difference only where it is reached.**  In
every history, if a machine run without a limit stops, it does so behind some
number of steps; with any limit that is not below this number the outcome is
the same, in what is returned and in the whole machine; and with any limit
below it the run is cut off behind exactly as many steps as the limit says,
with an output that the output of the whole run starts with.  If the machine
never stops, every limit cuts it off. -/
theorem limits_agree {p : Program} (hp : p.Loaded) {base : Int} {input : Tokens} {output : Sink}
    {start : Machine} (hstart : Machine.new p base input output = .ok start) (es : List Event)
    {s : Setting γ} (hs : s.done = none) :
    let m := start.after es
    (∀ r u, (∃ batches, drive (s.capped 0 batches) m = some (r, u)) →
      ∃ k, m.StopsAt k ∧ (m.run k).1 = k ∧ u = (m.run k).2 ∧
        (∀ (n : UInt64) (batches : Nat), n ≠ 0 → k ≤ n.toNat →
          drive (s.capped n batches) m = some (r, u)) ∧
        ∀ (n : UInt64) (batches : Nat), n ≠ 0 → n.toNat < k →
          ∃ v rest, drive (s.capped n batches) m = some (some (.known .stepLimit), v) ∧
            v = (m.run n.toNat).2 ∧ (m.run n.toNat).1 = n.toNat ∧ v.steps = m.steps + n ∧
            u.output.text = v.output.text ++ rest) ∧
    ((∀ batches, drive (s.capped 0 batches) m = none) →
      ∀ (n : UInt64) (batches : Nat), n ≠ 0 →
        ∃ v, drive (s.capped n batches) m = some (some (.known .stepLimit), v) ∧
          v = (m.run n.toNat).2 ∧ (m.run n.toNat).1 = n.toNat) := by
  intro m
  have hreg : Regular p m := (regular_new hp hstart).after es
  refine ⟨?_, ?_⟩
  · intro r u hends
    obtain ⟨k, hk, rfl, rfl⟩ := (uncapped_iff hs).1 hends
    refine ⟨k, hk, hk.run_fst, rfl, ?_, ?_⟩
    · intro n batches hn hle
      exact drive_stopped (s := s.capped n batches) hn hreg hk hle
    · intro n batches hn hlt
      have halive := hk.2 n.toNat hlt
      have hcount := run_fst_of_alive halive
      -- the run that stops goes on where the limit cuts it off
      obtain ⟨d, rfl⟩ := Nat.exists_eq_add_of_lt hlt
      have hgoes := (run_add m n.toNat (d + 1)).1
      obtain ⟨rest, hrest⟩ := (extends_run (m.run n.toNat).2 (d + 1)).text
      rw [hgoes] at hrest
      refine ⟨_, rest, drive_alive (s := s.capped n batches) hn halive, rfl, hcount, ?_, hrest⟩
      show (m.run n.toNat).2.steps = _
      rw [steps_run, hcount, UInt64.ofNat_toNat]
  · intro hnever n batches hn
    have halive : (m.run n.toNat).2.alive = true := by
      cases hdead : (m.run n.toNat).2.alive with
      | true => rfl
      | false =>
          -- a stop would have been found without the limit
          obtain ⟨k, _, hk⟩ := exists_stopsAt hdead
          obtain ⟨b, hb⟩ := (uncapped_iff hs).2 ⟨k, hk, rfl, rfl⟩
          rw [hnever b] at hb
          exact absurd hb (by simp)
    exact ⟨_, drive_alive (s := s.capped n batches) hn halive, rfl, run_fst_of_alive halive⟩

/-- A push, an output and a pop that fails: three steps are enough for the
failure, and two show the output. -/
theorem limits_agree_pop :
    ∃ (p : Program) (start : Machine) (s : Setting (Cache Content.Id Program)) (u v : Machine),
      p.Loaded ∧ Machine.new p 10 (Tokens.ofBytes [] none) Sink.unlimited = .ok start ∧
      s.done = none ∧
      (∃ batches, drive (s.capped 0 batches) start = some (some (.fault .emptyStack 2), u)) ∧
      drive (s.capped 3 0) start = some (some (.fault .emptyStack 2), u) ∧
      drive (s.capped 2 0) start = some (some (.known .stepLimit), v) ∧
      v.steps = 2 ∧ v.output.text = "1\n" := by
  let p : Program := #[⟨.push, 0, 1, 1, 0⟩, ⟨.output, 1, 2, 2, 1⟩, ⟨.pop, 2, halt, halt, 2⟩]
  let start : Machine :=
    ⟨p, 0, Stack.new, 0, .ten, Tokens.ofBytes [] none, Sink.unlimited, none, none⟩
  let s : Setting (Cache Content.Id Program) := ⟨.default, none, .standard, 1, 0⟩
  have hp : p.Loaded :=
    .codes 1 1 none #[⟨97, 97, 98, 99⟩, ⟨97, 98, 98, 98⟩, ⟨97, 98, 99, 99⟩] rfl
  have hstart : Machine.new p 10 (Tokens.ofBytes [] none) Sink.unlimited = .ok start := rfl
  have hk : start.StopsAt 3 := ⟨by cbv, by decide⟩
  have hfault : (start.run 3).2.fault = some (.fault .emptyStack 2) := by cbv
  have hends := (uncapped_iff (s := s) rfl).2 ⟨3, hk, rfl, hfault.symm⟩
  obtain ⟨k, hk', _, hu, hsame, hcut⟩ := (limits_agree hp hstart [] (s := s) rfl).1 _ _ hends
  obtain rfl : k = 3 := hk'.unique hk
  obtain ⟨v, _, hdrive, hv, _⟩ := hcut 2 0 (by decide) (by decide)
  have hthree := hsame 3 0 (by decide) (by decide)
  refine ⟨p, start, s, _, v, hp, hstart, rfl, hends, hthree, hdrive, ?_, ?_⟩
  · rw [hv]
    cbv
  · rw [hv]
    cbv

end Command

end Tetraglyph
