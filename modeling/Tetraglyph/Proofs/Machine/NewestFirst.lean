/-
  Tetraglyph.Proofs.Machine.NewestFirst
  ─────────────────────────────────────
  **WHAT AN EXECUTE HAS MADE RUNS NEWEST FIRST.**

  Each time an Execute succeeds it puts one more instruction right behind
  itself, in front of those it made before.  As long as none of these is an
  Execute, nothing else comes to lie among them, whatever other Executes of
  the program do meanwhile.  So behind a loaded Execute stands the CHAIN of
  what it has made, the newest first, and then the loaded instruction that
  follows it.  A machine that comes out of the Execute goes through the chain
  in this order.

      Program.Descends     — what was made at run time, and whose it is
      Program.Flat         — none of it is an Execute
      Program.NewestFirst  — the chain behind a loaded Execute
      Machine.madeIn       — what an Execute makes in a history, newest first

  Main results

      newestFirst_splice_self   — a splice at the Execute adds to the front
      newestFirst_splice_other  — a splice elsewhere does not touch the chain
      newestFirst_after         — so every history keeps the order
      goOn_along                — a machine goes along a chain
      newest_first              — the chain, and the way through it
-/
import Tetraglyph.Proofs.Machine.Runs
import Tetraglyph.Proofs.Machine.Straight

namespace Tetraglyph

/-! ## §1. Descendants. -/

/-- The instruction at `i` was made at run time and descends from `e`. -/
def Program.Descends (p : Program) (e i : Nat) : Prop :=
  ∃ ix, p[i]? = some ix ∧ ix.isSynthesized = true ∧ ix.parent = (e : Int)

/-- No descendant of `e` is an Execute. -/
def Program.Flat (p : Program) (e : Nat) : Prop :=
  ∀ i, p.Descends e i → (p.instr i).kind ≠ .execute

theorem Program.Descends.lt {p : Program} {e i : Nat} (h : p.Descends e i) : i < p.size := by
  obtain ⟨ix, hix, _⟩ := h
  exact (Array.getElem?_eq_some_iff.1 hix).1

theorem Program.Descends.grown {p q : Program} (hgrown : p.Grown q) {e i : Nat}
    (h : p.Descends e i) : q.Descends e i ∧ (q.instr i).kind = (p.instr i).kind := by
  obtain ⟨ix, hix, hmade, hparent⟩ := h
  obtain ⟨ix', hix', hkind, hid, _, hparent', _⟩ := hgrown i ix hix
  refine ⟨⟨ix', hix', ?_, hparent'.trans hparent⟩, ?_⟩
  · unfold Instr.isSynthesized at hmade ⊢
    rw [hid, hparent']
    exact hmade
  · rw [Program.instr_of_getElem? hix', Program.instr_of_getElem? hix, hkind]

/-- What is flat has always been flat. -/
theorem Program.Flat.of_grown {p q : Program} (hgrown : p.Grown q) {e : Nat} (h : q.Flat e) :
    p.Flat e := by
  intro i hi
  obtain ⟨hi', hkind⟩ := hi.grown hgrown
  rw [← hkind]
  exact h i hi'

/-- Nothing descends from itself. -/
theorem Program.Sound.not_descends_self {loaded p : Program} (h : Sound loaded p) (e : Nat) :
    ¬ p.Descends e e := by
  intro ⟨ix, hix, hmade, hparent⟩
  unfold Instr.isSynthesized at hmade
  rw [hparent, (h.entry e ix hix).id_eq, bne_self_eq_false] at hmade
  exact absurd hmade (by decide)

/-- A loaded instruction descends from none. -/
theorem Program.Sound.le_of_descends {loaded p : Program} (h : Sound loaded p) {e i : Nat}
    (hi : p.Descends e i) : loaded.size ≤ i := by
  obtain ⟨ix, hix, hmade, _⟩ := hi
  rw [(h.entry i ix hix).isSynthesized_eq] at hmade
  exact of_decide_eq_true hmade

/-- **A splice makes one descendant** of the parent of the instruction it is
put behind. -/
theorem Program.descends_splice {p : Program} {id : Nat} {ix : Instr} (hix : p[id]? = some ix)
    (k : Kind) {e : Nat} (he : e < p.size) (j : Nat) :
    Program.Descends (Machine.splice p id ix k) e j ↔
      p.Descends e j ∨ (j = p.size ∧ ix.parent = (e : Int)) := by
  have hid : id < p.size := (Array.getElem?_eq_some_iff.1 hix).1
  unfold Descends
  rw [Machine.getElem?_splice hid]
  by_cases hj : j = id
  · -- its successor is new, and nothing else
    subst hj
    rw [if_pos rfl, hix]
    simp only [Option.some.injEq, exists_eq_left']
    constructor
    · exact fun h => .inl h
    · rintro (h | ⟨hsize, _⟩)
      · exact h
      · omega
  · rw [if_neg hj]
    by_cases hsize : j = p.size
    · subst hsize
      rw [if_pos rfl]
      constructor
      · rintro ⟨_, hnew, _, hparent⟩
        obtain rfl := Option.some.inj hnew
        exact .inr ⟨rfl, hparent⟩
      · rintro (⟨jx, hjx, _⟩ | ⟨_, hparent⟩)
        · rw [Array.getElem?_size] at hjx
          exact absurd hjx (by simp)
        · refine ⟨_, rfl, ?_, hparent⟩
          show (ix.parent != (p.size : Int)) = true
          rw [hparent]
          simp only [bne_iff_ne, ne_eq, Int.natCast_inj]
          omega
    · rw [if_neg hsize]
      constructor
      · exact fun h => .inl h
      · rintro (h | ⟨h, _⟩)
        · exact h
        · exact absurd h hsize

/-! ## §2. The chain behind an Execute. -/

/-- Behind the instruction `e` of a program that came of `loaded` stand its
descendants, the newest first, and then the loaded instruction that follows
it. -/
structure Program.NewestFirst (loaded p : Program) (e : Nat) (chain : List Nat) : Prop where
  /-- Following successors from `e` goes through the chain and on to what
  followed `e` in the loaded program. -/
  leads : p.Leads (p.instr e).next chain (Linking.successor loaded.size e)
  /-- The indexes go down. -/
  descending : chain.Pairwise (· > ·)
  /-- These are all descendants of `e`. -/
  mem : ∀ i, i ∈ chain ↔ p.Descends e i

/-- In a linked program nothing has been made yet. -/
theorem Program.Linked.newestFirst {ks : List Kind} {p : Program} (h : p.Linked ks) {e : Nat}
    (he : e < p.size) : p.NewestFirst p e [] := by
  refine ⟨h.next_eq e _ (Program.getElem?_instr he), List.Pairwise.nil, ?_⟩
  intro i
  refine ⟨fun hi => absurd hi List.not_mem_nil, ?_⟩
  intro ⟨ix, hix, hmade, _⟩
  unfold Instr.isSynthesized at hmade
  rw [h.parent_eq i ix hix, h.id_eq i ix hix, bne_self_eq_false] at hmade
  exact absurd hmade (by decide)

section Splice

variable {loaded p : Program} (hsound : Program.Sound loaded p) {e : Nat} (he : e < loaded.size)
  {chain : List Nat} (h : Program.NewestFirst loaded p e chain) (k : Kind)

include hsound he h

/-- **A splice at the Execute adds to the front.** -/
theorem newestFirst_splice_self {ix : Instr} (hix : p[e]? = some ix) :
    Program.NewestFirst loaded (Machine.splice p e ix k) e (p.size :: chain) := by
  have hlt : e < p.size := (Array.getElem?_eq_some_iff.1 hix).1
  have hsize := Machine.size_splice p e ix k
  refine ⟨?_, ?_, ?_⟩
  · rw [Path.instr_splice_self hix k]
    refine ⟨rfl, by omega, ?_⟩
    rw [Path.instr_splice_new hix k]
    -- the new one leads where the Execute led, and the chain is as it was
    have hleads := h.leads
    rw [Program.instr_of_getElem? hix] at hleads
    refine Path.leads_congr ?_ hleads
    intro i hi
    have hi' := (h.mem i).1 hi
    have hne : i ≠ e := fun heq => hsound.not_descends_self e (heq ▸ hi')
    have := hi'.lt
    exact ⟨by omega, by rw [Path.instr_splice_other hix k hi'.lt hne]⟩
  · exact List.pairwise_cons.2 ⟨fun i hi => ((h.mem i).1 hi).lt, h.descending⟩
  · intro i
    rw [List.mem_cons, h.mem, Program.descends_splice hix k hlt,
      (hsound.entry e ix hix).own_parent he, or_comm]
    simp

/-- **A splice elsewhere does not touch the chain.** -/
theorem newestFirst_splice_other {id : Nat} {ix : Instr} (hix : p[id]? = some ix)
    (hparent : ix.parent ≠ (e : Int)) :
    Program.NewestFirst loaded (Machine.splice p id ix k) e chain := by
  have hlt : e < p.size := Nat.lt_of_lt_of_le he hsound.grown.size_le
  have hsize := Machine.size_splice p id ix k
  have hne : e ≠ id := by
    rintro rfl
    exact hparent ((hsound.entry e ix hix).own_parent he)
  refine ⟨?_, h.descending, ?_⟩
  · rw [Path.instr_splice_other hix k hlt hne]
    refine Path.leads_congr ?_ h.leads
    intro i hi
    have hi' := (h.mem i).1 hi
    have hne' : i ≠ id := by
      rintro rfl
      obtain ⟨ix', hix', _, hparent'⟩ := hi'
      obtain rfl := Option.some.inj (hix.symm.trans hix')
      exact hparent hparent'
    have := hi'.lt
    exact ⟨by omega, by rw [Path.instr_splice_other hix k hi'.lt hne']⟩
  · intro i
    rw [h.mem, Program.descends_splice hix k hlt]
    simp [hparent]

end Splice

/-! ## §3. What is made. -/

namespace Machine

/-- What the Execute at `e` makes in the next step. -/
def madeNext (e : Nat) (m : Machine) : List Nat :=
  if m.splices && m.pc == (e : Int) then [m.program.size] else []

/-- What the Execute at `e` makes in the next `n` instructions, the newest
first. -/
def made (e : Nat) : Nat → Machine → List Nat
  | 0, _ => []
  | n + 1, m => if m.alive then made e n m.step ++ madeNext e m else []

/-- What the Execute at `e` makes in a history, the newest first. -/
def madeIn (e : Nat) : List Event → Machine → List Nat
  | [], _ => []
  | .run n :: es, m => madeIn e es (m.occur (.run n)) ++ made e n m
  | .push v :: es, m => madeIn e es (m.occur (.push v))

variable {loaded : Program} {e : Nat}

/-- **A step keeps the order.**  An Execute other than `e` whose splice would
belong to `e` would be a descendant of `e`. -/
theorem newestFirst_step (he : e < loaded.size) {m : Machine} (hsafe : Safe loaded m)
    (halive : m.alive = true) (hflat : m.program.Flat e) {chain : List Nat}
    (h : Program.NewestFirst loaded m.program e chain) :
    Program.NewestFirst loaded m.step.program e (madeNext e m ++ chain) := by
  rcases splices_cases halive with ⟨hs, hprog⟩ | ⟨hs, ix, k, hfetch, hk, _, _, hsp⟩
  · have hnone : madeNext e m = [] := if_neg (by simp [hs])
    rw [hnone, hprog]
    exact h
  · obtain ⟨n, hn, hix⟩ := Program.fetch?_eq_some.1 hfetch
    rw [hsp.2.2.1, hn, Int.toNat_natCast]
    by_cases hne : n = e
    · subst hne
      have hone : madeNext n m = [m.program.size] := if_pos (by simp [hs, hn])
      rw [hone]
      exact newestFirst_splice_self hsafe.arena he h k hix
    · have hnone : madeNext e m = [] := if_neg (by simp [hn, hne])
      rw [hnone]
      refine newestFirst_splice_other hsafe.arena he h k hix ?_
      intro hparent
      have hmade : ix.isSynthesized = true := by
        unfold Instr.isSynthesized
        rw [hparent, (hsafe.arena.entry n ix hix).id_eq]
        simp only [bne_iff_ne, ne_eq, Int.natCast_inj]
        omega
      refine hflat n ⟨ix, hix, hmade, hparent⟩ ?_
      rw [Program.instr_of_getElem? hix, hk]

theorem Safe.grown_goOn {m : Machine} (hsafe : Safe loaded m) (n : Nat) :
    m.program.Grown (goOn n m).program := by
  have h : m.program.Grown (m.run n).2.program := hsafe.grown_after [.run n]
  rw [run_snd] at h
  exact h

/-- So does a run. -/
theorem newestFirst_goOn (he : e < loaded.size) (n : Nat) :
    ∀ {m : Machine} {chain : List Nat}, Safe loaded m → (goOn n m).program.Flat e →
      Program.NewestFirst loaded m.program e chain →
      Program.NewestFirst loaded (goOn n m).program e (made e n m ++ chain) := by
  induction n with
  | zero => exact fun _ _ h => h
  | succ n ih =>
      intro m chain hsafe hflat h
      cases halive : m.alive with
      | false =>
          rw [goOn_stopped halive, made, halive]
          exact h
      | true =>
          have hstep := newestFirst_step he hsafe halive (hflat.of_grown (hsafe.grown_goOn _)) h
          rw [goOn_alive halive] at hflat ⊢
          rw [made, if_pos halive, List.append_assoc]
          exact ih ((safe_kept loaded).step m hsafe halive) hflat hstep

/-- **Every history keeps the order.** -/
theorem newestFirst_after (he : e < loaded.size) (es : List Event) :
    ∀ {m : Machine} {chain : List Nat}, Safe loaded m → (m.after es).program.Flat e →
      Program.NewestFirst loaded m.program e chain →
      Program.NewestFirst loaded (m.after es).program e (madeIn e es m ++ chain) := by
  induction es with
  | nil => exact fun _ _ h => h
  | cons ev es ih =>
      intro m chain hsafe hflat h
      have hsafe' : Safe loaded (m.occur ev) := (safe_kept loaded).occur hsafe ev
      cases ev with
      | push v => exact ih hsafe' hflat h
      | run n =>
          have hprog : (m.occur (.run n)).program = (goOn n m).program := by
            show (m.run n).2.program = _
            rw [run_snd]
          have hflat' : (m.occur (.run n)).program.Flat e :=
            hflat.of_grown (hsafe'.grown_after es)
          have hrun : Program.NewestFirst loaded (m.occur (.run n)).program e
              (made e n m ++ chain) := by
            rw [hprog] at hflat' ⊢
            exact newestFirst_goOn he n hsafe hflat' h
          rw [madeIn, List.append_assoc]
          exact ih hsafe' hflat hrun

/-! ## §4. The way through the chain. -/

/-- **A machine goes along a chain** without braces and Executes, one
instruction after another, unless one of them fails. -/
theorem goOn_along (i : Nat) :
    ∀ {m : Machine} {chain : List Nat} {j : Int}, Safe loaded m →
      m.program.Leads m.pc chain j →
      (∀ id ∈ chain, (m.program.instr id).kind.isBrace = false ∧
        (m.program.instr id).kind ≠ .execute) →
      i ≤ chain.length → (goOn i m).fault = none →
      stepCount i m = i ∧ (goOn i m).program = m.program ∧
        m.program.Leads (goOn i m).pc (chain.drop i) j := by
  induction i with
  | zero => exact fun _ hleads _ _ _ => ⟨rfl, rfl, hleads⟩
  | succ i ih =>
      intro m chain j hsafe hleads hplain hle hgo
      match chain, hleads with
      | [], _ => exact absurd hle (by simp)
      | id :: chain, ⟨hpc, hlt, hrest⟩ =>
          have halive : m.alive = true := by
            unfold alive halted
            rw [hsafe.unbroken, fault_of_goOn hgo, hpc]
            simp only [halt, Option.isNone_none, Bool.and_true, Bool.not_eq_true',
              beq_eq_false_iff_ne]
            omega
          have hix := Program.getElem?_instr hlt
          have hfetch : m.program.fetch? m.pc = some (m.program.instr id) :=
            Program.fetch?_eq_some.2 ⟨id, hpc, hix⟩
          obtain ⟨hbrace, hexec⟩ := hplain id List.mem_cons_self
          rw [goOn_alive halive] at hgo ⊢
          rw [stepCount_alive halive, List.drop_succ_cons]
          rcases step_cases hfetch (hsafe.arena.entry id _ hix).known with
            ⟨⟨f, hf⟩, _⟩ | ⟨_, hm⟩ | ⟨hk, _⟩ | ⟨hk, _⟩
          · rw [fault_of_goOn hgo] at hf
            exact absurd hf (by simp)
          · obtain ⟨_, hpc', hprog, _⟩ := hm
            rw [← hpc', ← hprog] at hrest
            rw [← hprog] at hplain ⊢
            obtain ⟨hcount, hsame, hpath⟩ := ih ((safe_kept loaded).step m hsafe halive) hrest
              (fun id' hid' => hplain id' (List.mem_cons_of_mem id hid'))
              (Nat.le_of_succ_le_succ hle) hgo
            exact ⟨by rw [hcount], hsame, hpath⟩
          · rw [hbrace] at hk
            exact absurd hk (by decide)
          · exact absurd hk hexec

/-- A chain that is left to go begins where the machine stands. -/
theorem getElem?_of_leads {p : Program} {chain : List Nat} {i : Nat} {pc j : Int}
    (hle : i ≤ chain.length) (h : p.Leads pc (chain.drop i) j) :
    (chain.map Int.ofNat ++ [j])[i]? = some pc := by
  rcases Nat.lt_or_eq_of_le hle with hlt | rfl
  · rw [List.drop_eq_getElem_cons hlt] at h
    obtain ⟨rfl, _⟩ := h
    rw [List.getElem?_append_left (by rw [List.length_map]; exact hlt), List.getElem?_map,
      List.getElem?_eq_getElem hlt]
    rfl
  · rw [List.drop_length] at h
    obtain rfl : pc = j := h
    rw [List.getElem?_append_right (by simp), List.length_map, Nat.sub_self]
    rfl

/-- **What an Execute has made runs newest first.**  In every history, if no
descendant of a loaded instruction is an Execute, then behind it stands what
it has made, which is all of its descendants, with their indexes going down,
and then the loaded instruction that follows it.  So when it succeeds once
more, the machine goes, unless one of these fails, through the instruction
just made and through all that were made before, the newest first, and then to
the loaded instruction that follows, executing one instruction for each. -/
theorem newest_first {p : Program} (hp : p.Loaded) {base : Int} {input : Tokens} {output : Sink}
    {start : Machine} (hstart : Machine.new p base input output = .ok start) (es : List Event)
    {e : Nat} (he : e < p.size) :
    let m := start.after es
    let chain := madeIn e es start
    (m.program.Flat e → Program.NewestFirst p m.program e chain) ∧
    (m.alive = true → m.pc = (e : Int) → m.splices = true → m.step.program.Flat e →
      Program.NewestFirst p m.step.program e (m.program.size :: chain) ∧
      ∀ i ≤ chain.length + 1, (m.run (i + 1)).2.fault = none →
        (m.run (i + 1)).1 = i + 1 ∧ (m.run (i + 1)).2.program = m.step.program ∧
        ((m.program.size :: chain).map Int.ofNat ++ [Linking.successor p.size e])[i]?
          = some (m.run (i + 1)).2.pc) := by
  intro m chain
  obtain ⟨ks, _, hl⟩ := hp.linked
  have hsafe : Safe p m := (safe_kept p).after (safe_new hp hstart) es
  have hprog : start.program = p := by
    obtain ⟨b, rfl⟩ := new_eq hstart
    rfl
  have hchain : m.program.Flat e → Program.NewestFirst p m.program e chain := by
    intro hflat
    have hnone : Program.NewestFirst p start.program e [] := by
      rw [hprog]
      exact hl.newestFirst he
    have h := newestFirst_after he es (safe_new hp hstart) hflat hnone
    rw [List.append_nil] at h
    exact h
  refine ⟨hchain, ?_⟩
  intro halive hpc hs hflat
  have hflat' : m.program.Flat e := hflat.of_grown (step_frame halive).1
  have hsafe' := (safe_kept p).step m hsafe halive
  have hnew : Program.NewestFirst p m.step.program e (m.program.size :: chain) := by
    have hone : madeNext e m = [m.program.size] := if_pos (by simp [hs, hpc])
    have h := newestFirst_step he hsafe halive hflat' (hchain hflat')
    rw [hone] at h
    exact h
  refine ⟨hnew, ?_⟩
  -- the machine stands at the front of the chain
  have hleads : m.step.program.Leads m.step.pc (m.program.size :: chain)
      (Linking.successor p.size e) := by
    rcases splices_cases halive with ⟨hno, _⟩ | ⟨_, _, _, _, _, _, _, hsp⟩
    · rw [hs] at hno
      exact absurd hno (by decide)
    · rw [hsp.2.1, ← hnew.leads.1]
      exact hnew.leads
  have hplain : ∀ id ∈ m.program.size :: chain,
      (m.step.program.instr id).kind.isBrace = false ∧
        (m.step.program.instr id).kind ≠ .execute := by
    intro id hid
    have hid' := (hnew.mem id).1 hid
    exact ⟨(hsafe'.arena.entry id _ (Program.getElem?_instr hid'.lt)).made_plain
      (hsafe'.arena.le_of_descends hid'), hflat id hid'⟩
  intro i hi hgo
  rw [run_eq, goOn_alive halive] at hgo
  obtain ⟨hcount, hsame, hrest⟩ := goOn_along i hsafe' hleads hplain hi hgo
  rw [run_eq, stepCount_alive halive, goOn_alive halive, hcount]
  exact ⟨rfl, hsame, getElem?_of_leads hi hrest⟩

/-- An Execute in a loop makes a Push in the first pass and a Dup in the
second: the Dup runs before the Push, and then the loop goes on. -/
theorem newest_first_loop :
    ∃ (p : Program) (start : Machine) (es : List Event), p.Loaded ∧
      Machine.new p 10 (Tokens.ofBytes [] none) Sink.unlimited = .ok start ∧
      let m := start.after es
      Program.NewestFirst p m.program 1 [3] ∧ m.pc = 1 ∧ m.splices = true ∧
      Program.NewestFirst p m.step.program 1 [4, 3] ∧
      ∀ i ≤ 2, ([4, 3, 2] : List Int)[i]? = some (m.run (i + 1)).2.pc := by
  let p : Program :=
    #[⟨.lbrace, 0, 1, 2, 0⟩, ⟨.execute, 1, 2, 2, 1⟩, ⟨.rbrace, 2, halt, 0, 2⟩]
  let start : Machine :=
    ⟨p, 0, Stack.new, 0, .ten, Tokens.ofBytes [] none, Sink.unlimited, none, none⟩
  let digit (d : UInt8) : Event := .push ⟨false, [d]⟩
  let es : List Event :=
    [digit 7, digit 5, digit 1, digit 5, digit 5, digit 9, digit 1, digit 1, .run 5]
  have hp : p.Loaded :=
    .codes 1 1 none #[⟨97, 98, 98, 97⟩, ⟨97, 98, 99, 97⟩, ⟨97, 98, 99, 100⟩] rfl
  have hstart : Machine.new p 10 (Tokens.ofBytes [] none) Sink.unlimited = .ok start := rfl
  have hmade : madeIn 1 es start = [3] := by cbv
  have hsize : (start.after es).program.size = 4 := by cbv
  have hpc : (start.after es).pc = 1 := by cbv
  have hs : (start.after es).splices = true := by cbv
  have hprog : (start.after es).step.program
      = #[⟨.lbrace, 0, 1, 2, 0⟩, ⟨.execute, 1, 4, 2, 1⟩, ⟨.rbrace, 2, halt, 0, 2⟩,
          ⟨.push, 3, 2, 2, 1⟩, ⟨.dup, 4, 3, 3, 1⟩] := by cbv
  have hflat : (start.after es).step.program.Flat 1 := by
    rw [hprog]
    intro i hi
    have hlt : i < 5 := hi.lt
    by_cases hone : i = 1
    · -- the Execute itself is loaded
      obtain ⟨ix, hix, hsynth, _⟩ := hi
      rw [hone] at hix
      obtain rfl := Option.some.inj hix
      exact absurd hsynth (by decide)
    · obtain rfl | rfl | rfl | rfl : i = 0 ∨ i = 2 ∨ i = 3 ∨ i = 4 := by omega
      all_goals decide
  have hfault : ((start.after es).run 3).2.fault = none := by cbv
  have halive : (start.after es).alive = true := by cbv
  have hsucc : Linking.successor p.size 1 = 2 := by decide
  have hmain := newest_first hp hstart es (show 1 < p.size by decide)
  dsimp only at hmain
  rw [hmade, hsize, hsucc] at hmain
  obtain ⟨hchain, hgo⟩ := hmain
  obtain ⟨hnew, hway⟩ := hgo halive hpc hs hflat
  exact ⟨p, start, es, hp, hstart, hchain (hflat.of_grown (step_frame halive).1), hpc, hs, hnew,
    fun i hi => (hway i hi (fault_run_of_le hfault (by omega))).2.2⟩

end Machine

end Tetraglyph
