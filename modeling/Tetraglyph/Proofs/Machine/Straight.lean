/-
  Tetraglyph.Proofs.Machine.Straight
  ──────────────────────────────────
  **PROGRAMS WITHOUT BRACES STOP.**

  Without braces a machine can only go to the next instruction, along the
  path AHEAD of it.  Every instruction leaves the path ahead by one shorter,
  but an Execute puts another instruction into it.  An Execute takes four
  values, though, and all others add one at most.  So twice the length of
  the path ahead, plus the number of values, goes down with every step,
  however many Executes make other Executes.

  Main results

      leads_notMem      — no instruction comes twice on the way to the end
      ahead_splice      — what a splice does to the path ahead
      ahead_step        — what a step does to path and stack
      straight_stops    — so the machine stops
-/
import Tetraglyph.Proofs.Machine.Faults
import Tetraglyph.Proofs.Machine.Path

namespace Tetraglyph

/-! ## §1. The path ahead. -/

namespace Path

theorem leads_lt {p : Program} {path : List Nat} {i j : Int} (h : p.Leads i path j) {id : Nat}
    (hid : id ∈ path) : id < p.size := by
  induction path generalizing i with
  | nil => exact absurd hid List.not_mem_nil
  | cons k path ih =>
      obtain ⟨_, hlt, hrest⟩ := h
      rcases List.mem_cons.1 hid with rfl | hid
      · exact hlt
      · exact ih hrest hid

/-- **No instruction comes twice on the way to the end**: from there the way
would be the same again. -/
theorem leads_notMem {p : Program} {path : List Nat} {i : Int} {id : Nat}
    (h : p.Leads i (id :: path) halt) : id ∉ path := by
  intro hmem
  obtain ⟨front, back, rfl⟩ := List.append_of_mem hmem
  obtain ⟨hi, hlt, hrest⟩ := h
  obtain ⟨mid, _, hmid, _, hback⟩ := (leads_append p front (id :: back) _ halt).1 hrest
  have hlong : p.Leads (id : Int) (id :: (front ++ id :: back)) halt := ⟨rfl, hlt, hrest⟩
  have hshort : p.Leads (id : Int) (id :: back) halt := ⟨rfl, hlt, hback⟩
  have hlen := congrArg List.length (leads_unique hlong hshort)
  simp only [List.length_cons, List.length_append] at hlen
  omega

/-- **A splice puts the new instruction in front of the path ahead.** -/
theorem ahead_splice {p : Program} {id : Nat} {ix : Instr} (hix : p[id]? = some ix) (k : Kind)
    {path : List Nat} (h : p.Leads (id : Int) (id :: path) halt) :
    (Machine.splice p id ix k).Leads (p.size : Int) (p.size :: path) halt := by
  have hsize := Machine.size_splice p id ix k
  have hnot := leads_notMem h
  obtain ⟨_, _, hrest⟩ := h
  rw [Program.instr_of_getElem? hix] at hrest
  refine ⟨rfl, by omega, ?_⟩
  rw [instr_splice_new hix k]
  refine leads_congr ?_ hrest
  intro j hj
  have hlt := leads_lt hrest hj
  refine ⟨by omega, ?_⟩
  rw [instr_splice_other hix k hlt (fun heq => hnot (heq ▸ hj))]

end Path

/-! ## §2. One step. -/

/-- No brace in the program. -/
def Program.Straight (p : Program) : Prop :=
  ∀ (i : Nat) (ix : Instr), p[i]? = some ix → ix.kind.isBrace = false

/-- An arena that came of a program without braces has none. -/
theorem Program.Sound.straight {loaded p : Program} (h : Sound loaded p)
    (hloaded : loaded.Straight) : p.Straight := by
  intro i ix hix
  by_cases hi : i < loaded.size
  · have hlx := Program.getElem?_instr hi
    obtain ⟨ix', hix', hkind, _⟩ := h.grown i _ hlx
    rw [hix, Option.some.injEq] at hix'
    rw [hix', hkind]
    exact hloaded i _ hlx
  · exact (h.entry i ix hix).made_plain (by omega)

namespace Machine

/-- **What a step does to path and stack**: it stops the machine, or twice
the path ahead plus the number of values goes down. -/
theorem ahead_step {loaded : Program} (hloaded : loaded.Straight) {m : Machine}
    (hsafe : Safe loaded m) (hvalid : m.stack.ring.Valid) (halive : m.alive = true)
    {path : List Nat} (h : m.program.Leads m.pc path halt) :
    m.step.alive = false ∨
      (m.step.stack.ring.Valid ∧ ∃ path', m.step.program.Leads m.step.pc path' halt ∧
        2 * path'.length + m.step.stack.size < 2 * path.length + m.stack.size) := by
  have hfault := fault_of_alive halive
  obtain ⟨n, ix, hn, hix, hfetch, hknown⟩ := hsafe.fetch halive
  rcases faults_or_wentOn hvalid hfetch hfault hknown with ⟨f, lost, hf⟩ | hgo
  · left
    unfold alive
    rw [(hf.failed hvalid hfetch hknown rfl).fault, Option.isNone_some, Bool.and_false,
      Bool.false_and]
  right
  refine ⟨hgo.valid, ?_⟩
  -- the machine is not at the end, so there is an instruction on the path
  cases path with
  | nil => exact absurd h (pc_of_alive halive)
  | cons id path =>
      have hid : id = n := by
        have := h.1
        omega
      subst hid
      rw [hn] at h
      have hnext : m.program.Leads ix.next path halt := by
        have := h.2.2
        rw [Program.instr_of_getElem? hix] at this
        exact this
      rcases step_cases hfetch hknown with hs | ⟨hk, hm⟩ | ⟨hk, _⟩ | ⟨hk, k, _, _, hs⟩
      · obtain ⟨⟨f, hf⟩, _⟩ := hs
        rw [hgo.fault] at hf
        exact absurd hf (by simp)
      · refine ⟨path, ?_, ?_⟩
        · rw [hm.2.2.1, hm.2.1]
          exact hnext
        · have := hgo.others hk
          rw [List.length_cons]
          omega
      · rw [hsafe.arena.straight hloaded id ix hix] at hk
        exact absurd hk (by decide)
      · refine ⟨m.program.size :: path, ?_, ?_⟩
        · rw [hs.2.2.1, hs.2.1, hn, Int.toNat_natCast]
          exact Path.ahead_splice hix k h
        · have := hgo.execute hk
          rw [List.length_cons, List.length_cons]
          omega

/-! ## §3. Whole runs. -/

/-- So many steps are enough. -/
theorem goOn_straight {loaded : Program} (hloaded : loaded.Straight) (n : Nat) :
    ∀ {m : Machine} {path : List Nat}, Safe loaded m → m.stack.ring.Valid →
      m.program.Leads m.pc path halt → 2 * path.length + m.stack.size ≤ n →
      (goOn n m).alive = false := by
  induction n with
  | zero =>
      intro m path _ _ h hle
      -- nothing is ahead, so this is the end
      rw [List.length_eq_zero_iff.1 (show path.length = 0 by omega)] at h
      have hpc : m.pc = halt := h
      show m.alive = false
      unfold alive halted
      rw [hpc]
      rfl
  | succ n ih =>
      intro m path hsafe hvalid h hle
      cases halive : m.alive with
      | false =>
          rw [goOn_stopped halive]
          exact halive
      | true =>
          rw [goOn_alive halive]
          rcases ahead_step hloaded hsafe hvalid halive h with hdead | ⟨hvalid', path', h', hlt⟩
          · rw [goOn_stopped hdead]
            exact hdead
          · exact ih ((safe_kept loaded).step m hsafe halive) hvalid' h' (by omega)

/-- A machine at the start of a program has all of it ahead. -/
theorem leads_new {p : Program} (hp : p.Loaded) {base : Int} {input : Tokens} {output : Sink}
    {start : Machine} (h : Machine.new p base input output = .ok start) :
    p.Leads start.pc (List.range p.size) halt := by
  obtain ⟨ks, _, hl⟩ := hp.linked
  obtain ⟨b, rfl⟩ := new_eq h
  show p.Leads (if p.isEmpty then halt else 0) _ halt
  by_cases hsize : p.size = 0
  · rw [if_pos (Array.isEmpty_iff_size_eq_zero.2 hsize), hsize]
    rfl
  · rw [if_neg (fun he => hsize (Array.isEmpty_iff_size_eq_zero.1 he))]
    exact (Path.threaded_linked hl (by omega)).leads

/-- **Programs without braces stop.**  From any stack whose ring is valid, on
any input and with any output, a program of `n` instructions without braces
has halted or failed after twice `n` steps and one for each value on the
stack. -/
theorem straight_stops {p : Program} (hp : p.Loaded) (hstraight : p.Straight) {base : Int}
    {input : Tokens} {output : Sink} {start : Machine}
    (hstart : Machine.new p base input output = .ok start) {stack : Stack}
    (hvalid : stack.ring.Valid) :
    let m : Machine := ({ start with stack }.run (2 * p.size + stack.size)).2
    m.alive = false ∧ (m.halted = true ∨ ∃ f, m.fault = some f) := by
  intro m
  have hsafe := safe_new hp hstart
  have hprog : start.program = p := by
    obtain ⟨b, rfl⟩ := new_eq hstart
    rfl
  have hsafe' : Safe p { start with stack } := ⟨hsafe.arena, hsafe.pc_holds, hsafe.unbroken⟩
  have hahead : start.program.Leads start.pc (List.range p.size) halt := by
    rw [hprog]
    exact leads_new hp hstart
  have hdead : m.alive = false := by
    show ({ start with stack }.run (2 * p.size + stack.size)).2.alive = false
    rw [run_snd]
    exact goOn_straight hstraight _ hsafe' hvalid hahead (by rw [List.length_range])
  exact ⟨hdead, ((safe_kept p).occur hsafe' (.run _)).stopped hdead⟩

/-- An Execute makes an Execute, which makes a Push: one instruction and
eight values need ten steps at most. -/
theorem straight_stops_nested :
    ∃ (p : Program) (start : Machine) (stack : Stack), p.Loaded ∧ p.Straight ∧
      Machine.new p 10 (Tokens.ofBytes [] none) Sink.unlimited = .ok start ∧
      stack.ring.Valid ∧ p.size = 1 ∧ stack.size = 8 ∧
      ({ start with stack }.run 2).2.alive = true ∧
      ({ start with stack }.run (2 * p.size + stack.size)).2.alive = false := by
  let p : Program := #[⟨.execute, 0, halt, halt, 0⟩]
  let start : Machine :=
    ⟨p, 0, Stack.new, 0, .ten, Tokens.ofBytes [] none, Sink.unlimited, none, none⟩
  let digit (d : UInt8) : Event := .push ⟨false, [d]⟩
  let es : List Event := [digit 5, digit 9, digit 1, digit 1, digit 1, digit 3, digit 2, digit 1]
  have hp : p.Loaded := .codes 1 1 none #[⟨97, 98, 99, 97⟩] rfl
  have hstraight : p.Straight := by
    intro i ix hix
    have hmem : ix ∈ p := Array.mem_of_getElem? hix
    rw [List.mem_singleton.1 (Array.mem_def.1 hmem)]
    rfl
  have hstart : Machine.new p 10 (Tokens.ofBytes [] none) Sink.unlimited = .ok start := rfl
  have hvalid := ((steady_kept p _).after (steady_new hp hstart) es).valid
  obtain ⟨hdead, _⟩ := straight_stops hp hstraight hstart hvalid
  exact ⟨p, start, (start.after es).stack, hp, hstraight, hstart, hvalid, rfl, by cbv, by cbv,
    hdead⟩

end Machine

end Tetraglyph
