/-
  Tetraglyph.Proofs.Machine.Arena
  ───────────────────────────────
  **THE ARENA OF A RUNNING PROGRAM.**

  A program under way is an ARENA which only grows.  Entries keep their
  index, kind, jump and parent for good; the successor of an entry changes
  only when it is an Execute that succeeds.  Every link stays inside, so
  there is always an instruction to fetch, and the parents of whatever was
  made at run time are loaded Execute instructions.

      Grown   — one arena came of another
      Sound   — what holds of every arena that came of a loaded program
      Safe    — the same of a machine: its position is inside, too

  Main results

      grown_splice   — a splice behind an Execute grows the arena
      sound_splice   — and keeps it sound
      safe_kept      — every step keeps a machine safe
      history_safe   — so every history does
-/
import Mathlib
import Tetraglyph.Proofs.Machine.History

namespace Tetraglyph

open Nesting

/-! ## §1. Growing. -/

/-- The end of the program, or an index inside it. -/
def Program.Holds (p : Program) (i : Int) : Prop :=
  i = halt ∨ ∃ n : Nat, i = (n : Int) ∧ n < p.size

theorem Program.Holds.mono {p q : Program} (hle : p.size ≤ q.size) {i : Int} (h : p.Holds i) :
    q.Holds i := by
  rcases h with h | ⟨n, hn, hlt⟩
  · exact .inl h
  · exact .inr ⟨n, hn, by omega⟩

/-- The arena `q` came of `p`: entries keep all but their successor, and
that changes for Execute instructions only. -/
def Program.Grown (p q : Program) : Prop :=
  ∀ (i : Nat) (ix : Instr), p[i]? = some ix →
    ∃ ix', q[i]? = some ix' ∧ ix'.kind = ix.kind ∧ ix'.id = ix.id ∧ ix'.jump = ix.jump ∧
      ix'.parent = ix.parent ∧ (ix.kind ≠ .execute → ix'.next = ix.next)

theorem Program.Grown.refl (p : Program) : p.Grown p :=
  fun _ ix h => ⟨ix, h, rfl, rfl, rfl, rfl, fun _ => rfl⟩

theorem Program.Grown.trans {p q r : Program} (hpq : p.Grown q) (hqr : q.Grown r) :
    p.Grown r := by
  intro i ix hix
  obtain ⟨jx, hjx, hk, hid, hj, hpar, hn⟩ := hpq i ix hix
  obtain ⟨kx, hkx, hk', hid', hj', hpar', hn'⟩ := hqr i jx hjx
  refine ⟨kx, hkx, hk'.trans hk, hid'.trans hid, hj'.trans hj, hpar'.trans hpar, ?_⟩
  -- the kind is the same on the way, so neither growth changed the successor
  intro hne
  rw [hn' (by rw [hk]; exact hne), hn hne]

theorem Program.Grown.size_le {p q : Program} (h : p.Grown q) : p.size ≤ q.size := by
  rcases Nat.eq_zero_or_pos p.size with h0 | hpos
  · omega
  · have hlast := Program.getElem?_instr (show p.size - 1 < p.size by omega)
    obtain ⟨ix', hix', _⟩ := h _ _ hlast
    have := (Array.getElem?_eq_some_iff.1 hix').1
    omega

/-- **A splice behind an Execute grows the arena.** -/
theorem Program.grown_splice {p : Program} {id : Nat} {ix : Instr} (hix : p[id]? = some ix)
    (hk : ix.kind = .execute) (k : Kind) : p.Grown (Machine.splice p id ix k) := by
  have hid : id < p.size := (Array.getElem?_eq_some_iff.1 hix).1
  intro j jx hjx
  have hj : j < p.size := (Array.getElem?_eq_some_iff.1 hjx).1
  rw [Machine.getElem?_splice hid]
  by_cases heq : j = id
  · subst heq
    rw [hix, Option.some.injEq] at hjx
    subst hjx
    rw [if_pos rfl]
    exact ⟨_, rfl, rfl, rfl, rfl, rfl, fun hne => absurd hk hne⟩
  · rw [if_neg heq, if_neg (by omega)]
    exact ⟨jx, hjx, rfl, rfl, rfl, rfl, fun _ => rfl⟩

/-! ## §2. Sound arenas. -/

/-- What holds of the entry at `i` of an arena `p` that came of `loaded`. -/
structure Program.Entry (loaded p : Program) (i : Nat) (ix : Instr) : Prop where
  /-- It knows its index. -/
  id_eq : ix.id = i
  /-- Its successor is inside. -/
  next_holds : p.Holds ix.next
  /-- Its jump is inside. -/
  jump_holds : p.Holds ix.jump
  /-- It can be executed. -/
  known : ix.kind.Known
  /-- A loaded instruction is its own parent. -/
  own_parent : i < loaded.size → ix.parent = (i : Int)
  /-- One made at run time is no brace. -/
  made_plain : loaded.size ≤ i → ix.kind.isBrace = false
  /-- One made at run time descends from a loaded Execute. -/
  made_parent : loaded.size ≤ i →
    ∃ (q : Nat) (qx : Instr), ix.parent = (q : Int) ∧ loaded[q]? = some qx ∧ qx.kind = .execute

/-- What holds of every arena that came of `loaded`. -/
structure Program.Sound (loaded p : Program) : Prop where
  grown : loaded.Grown p
  entry : ∀ (i : Nat) (ix : Instr), p[i]? = some ix → Entry loaded p i ix

theorem Program.Entry.mono {loaded p q : Program} (hle : p.size ≤ q.size) {i : Nat} {ix : Instr}
    (h : Entry loaded p i ix) : Entry loaded q i ix :=
  ⟨h.id_eq, h.next_holds.mono hle, h.jump_holds.mono hle, h.known, h.own_parent, h.made_plain,
    h.made_parent⟩

/-- What was made at run time is what names another instruction as its
parent. -/
theorem Program.Entry.isSynthesized_eq {loaded p : Program} {i : Nat} {ix : Instr}
    (h : Entry loaded p i ix) : ix.isSynthesized = decide (loaded.size ≤ i) := by
  unfold Instr.isSynthesized
  rw [h.id_eq]
  by_cases hi : i < loaded.size
  · rw [h.own_parent hi, decide_eq_false (by omega)]
    simp
  · obtain ⟨q, qx, hq, hqx, _⟩ := h.made_parent (by omega)
    have hlt : q < loaded.size := (Array.getElem?_eq_some_iff.1 hqx).1
    rw [hq, decide_eq_true (by omega)]
    simp only [bne_iff_ne, ne_eq, Int.natCast_inj]
    omega

/-- The parent of an Execute is a loaded Execute, be it itself. -/
theorem Program.Sound.execute_parent {loaded p : Program} (h : Sound loaded p) {i : Nat}
    {ix : Instr} (hix : p[i]? = some ix) (hk : ix.kind = .execute) :
    ∃ (q : Nat) (qx : Instr), ix.parent = (q : Int) ∧ loaded[q]? = some qx ∧
      qx.kind = .execute := by
  have he := h.entry i ix hix
  by_cases hi : i < loaded.size
  · have hlx := Program.getElem?_instr hi
    obtain ⟨ix', hix', hkind, _⟩ := h.grown i _ hlx
    rw [hix, Option.some.injEq] at hix'
    subst hix'
    exact ⟨i, _, he.own_parent hi, hlx, hkind.symm.trans hk⟩
  · exact he.made_parent (by omega)

/-- A loaded instruction is its own parent for good. -/
theorem Program.Sound.parent_loaded {loaded p : Program} (h : Sound loaded p) {i : Nat}
    (hi : i < loaded.size) : (p.instr i).parent = (i : Int) := by
  have hle := h.grown.size_le
  exact (h.entry i _ (Program.getElem?_instr (by omega))).own_parent hi

/-- **A splice keeps an arena sound.** -/
theorem Program.sound_splice {loaded p : Program} (h : Sound loaded p) {id : Nat} {ix : Instr}
    (hix : p[id]? = some ix) (hk : ix.kind = .execute) {k : Kind} (hb : k.isBrace = false)
    (hknown : k.Known) : Sound loaded (Machine.splice p id ix k) := by
  have hid : id < p.size := (Array.getElem?_eq_some_iff.1 hix).1
  have hsize := Machine.size_splice p id ix k
  have hle : p.size ≤ (Machine.splice p id ix k).size := by omega
  have hloaded := h.grown.size_le
  have he := h.entry id ix hix
  have hparent := h.execute_parent hix hk
  refine ⟨h.grown.trans (grown_splice hix hk k), ?_⟩
  intro j jx hjx
  rw [Machine.getElem?_splice hid] at hjx
  split at hjx
  next hj =>
      -- the Execute itself: only its successor is new
      injection hjx with hjx
      subst hjx hj
      exact { (he.mono hle) with next_holds := .inr ⟨p.size, rfl, by omega⟩ }
  next =>
      split at hjx
      next hj =>
          -- the instruction just made
          injection hjx with hjx
          subst hjx hj
          exact ⟨rfl, he.next_holds.mono hle, he.next_holds.mono hle, hknown,
            fun hlt => absurd hlt (by omega), fun _ => hb,
            fun _ => hparent⟩
      next => exact (h.entry j jx hjx).mono hle

/-- A linked program is a sound arena. -/
theorem Program.OfKnown.sound {p : Program} (h : p.OfKnown) : Sound p p := by
  obtain ⟨ks, hknown, hl⟩ := h
  refine ⟨Program.Grown.refl p, ?_⟩
  intro i ix hix
  have hi : i < p.size := (Array.getElem?_eq_some_iff.1 hix).1
  have hinstr : p.instr i = ix := Program.instr_of_getElem? hix
  have hnext : p.Holds ix.next := by
    rw [hl.next_eq i ix hix]
    unfold Linking.successor
    split
    next hlt => exact .inr ⟨i + 1, rfl, hlt⟩
    next => exact .inl rfl
  -- partners lie on the path, which is the whole program
  have hinside : ∀ {l r : Nat}, Partners p (List.range p.size) l r → l < p.size ∧ r < p.size := by
    intro l r ⟨front, inside, back, hpath, _⟩
    have hl' : l ∈ List.range p.size := by
      rw [hpath]
      simp
    have hr' : r ∈ List.range p.size := by
      rw [hpath]
      simp
    exact ⟨List.mem_range.1 hl', List.mem_range.1 hr'⟩
  have hjump : p.Holds ix.jump := by
    rcases kind_cases ix.kind with hk | hk | hk
    · obtain ⟨r, hr, hpart⟩ := paired_closing hl.paired (List.mem_range.2 hi) (hinstr ▸ hk)
      exact .inr ⟨r, hinstr ▸ hr, (hinside hpart).2⟩
    · obtain ⟨l, hj, hpart⟩ := paired_opening hl.paired (List.mem_range.2 hi) (hinstr ▸ hk)
      exact .inr ⟨l, hinstr ▸ hj, (hinside hpart).1⟩
    · rw [hl.jump_eq i ix hix hk]
      exact hnext
  exact ⟨hl.id_eq i ix hix, hnext, hjump,
    hknown ix.kind (List.mem_of_getElem? (hl.kind_eq i ix hix)), fun _ => hl.parent_eq i ix hix,
    fun hle => absurd hle (by omega), fun hle => absurd hle (by omega)⟩

/-! ## §3. Safe machines. -/

namespace Machine

/-- A machine whose arena came of `loaded`, at a position inside it. -/
structure Safe (loaded : Program) (m : Machine) : Prop where
  arena : Program.Sound loaded m.program
  pc_holds : m.program.Holds m.pc
  unbroken : m.broken = none

/-- **There is an instruction to execute** while a safe machine is alive. -/
theorem Safe.fetch {loaded : Program} {m : Machine} (h : Safe loaded m)
    (halive : m.alive = true) :
    ∃ (n : Nat) (ix : Instr), m.pc = (n : Int) ∧ m.program[n]? = some ix ∧
      m.program.fetch? m.pc = some ix ∧ ix.kind.Known := by
  rcases h.pc_holds with hpc | ⟨n, hn, hlt⟩
  · exact absurd hpc (pc_of_alive halive)
  · have hix := Program.getElem?_instr hlt
    exact ⟨n, _, hn, hix, Program.fetch?_eq_some.2 ⟨n, hn, hix⟩, (h.arena.entry n _ hix).known⟩

/-- A safe machine that has stopped has halted or failed. -/
theorem Safe.stopped {loaded : Program} {m : Machine} (h : Safe loaded m)
    (hdead : m.alive = false) : m.halted = true ∨ ∃ f, m.fault = some f := by
  unfold alive at hdead
  rw [h.unbroken] at hdead
  cases hh : m.halted with
  | true => exact .inl rfl
  | false =>
      cases hf : m.fault with
      | none =>
          rw [hh, hf] at hdead
          exact absurd hdead (by decide)
      | some f => exact .inr ⟨f, rfl⟩

/-- **Every step keeps a machine safe.** -/
theorem safe_kept (loaded : Program) : Kept (Safe loaded) := by
  refine ⟨?_, fun m v h => ⟨h.arena, h.pc_holds, h.unbroken⟩,
    fun m k h => ⟨h.arena, h.pc_holds, h.unbroken⟩⟩
  intro m h halive
  obtain ⟨n, ix, hn, hix, hfetch, hknown⟩ := h.fetch halive
  have he := h.arena.entry n ix hix
  rcases step_cases hfetch hknown with hs | ⟨_, hm⟩ | ⟨_, hm⟩ | ⟨hk, k, hb, hkn, hs⟩
  · -- it stopped where it stood
    obtain ⟨_, hpc, hprog, hbr⟩ := hs
    refine ⟨?_, ?_, hbr.trans h.unbroken⟩
    · rw [hprog]; exact h.arena
    · rw [hprog, hpc]; exact h.pc_holds
  · obtain ⟨_, hpc, hprog, hbr⟩ := hm
    refine ⟨?_, ?_, hbr.trans h.unbroken⟩
    · rw [hprog]; exact h.arena
    · rw [hprog, hpc]; exact he.next_holds
  · obtain ⟨_, hpc, hprog, hbr⟩ := hm
    refine ⟨?_, ?_, hbr.trans h.unbroken⟩
    · rw [hprog]; exact h.arena
    · rw [hprog, hpc]; exact he.jump_holds
  · -- it spliced, and stands at the entry that the splice added
    obtain ⟨_, hpc, hprog, hbr⟩ := hs
    rw [hn, Int.toNat_natCast] at hprog
    refine ⟨?_, ?_, hbr.trans h.unbroken⟩
    · rw [hprog]
      exact Program.sound_splice h.arena hix hk hb hkn
    · rw [hprog, hpc]
      exact .inr ⟨m.program.size, rfl, by rw [size_splice]; omega⟩

theorem new_eq {p : Program} {base : Int} {input : Tokens} {output : Sink} {start : Machine}
    (h : Machine.new p base input output = .ok start) :
    ∃ b, start
      = ⟨p, if p.isEmpty then halt else 0, Stack.new, 0, b, input, output, none, none⟩ := by
  unfold Machine.new at h
  split at h
  next => exact absurd h (by simp)
  next b _ =>
      injection h with h
      exact ⟨b, h.symm⟩

/-- A machine at the start of a loaded program is safe. -/
theorem safe_new {p : Program} (hp : p.Loaded) {base : Int} {input : Tokens} {output : Sink}
    {start : Machine} (h : Machine.new p base input output = .ok start) : Safe p start := by
  obtain ⟨b, rfl⟩ := new_eq h
  refine ⟨hp.linked.sound, ?_, rfl⟩
  show p.Holds (if p.isEmpty then halt else 0)
  cases hempty : p.isEmpty with
  | true => exact .inl rfl
  | false =>
      have hpos : p.size ≠ 0 := by
        intro h0
        rw [Array.isEmpty_iff_size_eq_zero.2 h0] at hempty
        exact absurd hempty (by decide)
      exact .inr ⟨0, rfl, by omega⟩

/-! ## §4. Histories. -/

/-- One step changes at most the successor of the entry it stands at, and
only if it is an Execute that succeeds. -/
theorem step_frame {m : Machine} (halive : m.alive = true) :
    m.program.Grown m.step.program ∧
      (m.splices = false → m.step.program = m.program) ∧
      ∀ i : Nat, i < m.program.size → (i : Int) ≠ m.pc →
        m.step.program[i]? = m.program[i]? := by
  rcases splices_cases halive with ⟨hs, hprog⟩ | ⟨hs, ix, k, hfetch, hk, _, _, hsp⟩
  · rw [hprog]
    exact ⟨Program.Grown.refl _, fun _ => rfl, fun _ _ _ => rfl⟩
  · obtain ⟨n, hn, hix⟩ := Program.fetch?_eq_some.1 hfetch
    have hlt : n < m.program.size := (Array.getElem?_eq_some_iff.1 hix).1
    have hprog := hsp.2.2.1
    rw [hn, Int.toNat_natCast] at hprog
    rw [hprog, hs, hn]
    refine ⟨Program.grown_splice hix hk k, fun hf => absurd hf (by decide), ?_⟩
    intro i hi hne
    rw [getElem?_splice hlt, if_neg (by omega), if_neg (by omega)]

/-- An arena only grows, in every history. -/
theorem Safe.grown_after {loaded : Program} {m : Machine} (h : Safe loaded m)
    (es : List Event) : m.program.Grown (m.after es).program := by
  have hkept : Kept fun m' => Safe loaded m' ∧ m.program.Grown m'.program := by
    refine ⟨?_, fun m' v h => ⟨(safe_kept loaded).push m' v h.1, h.2⟩,
      fun m' k h => ⟨(safe_kept loaded).count m' k h.1, h.2⟩⟩
    intro m' h halive
    exact ⟨(safe_kept loaded).step m' h.1 halive, h.2.trans (step_frame halive).1⟩
  exact (hkept.after ⟨h, Program.Grown.refl _⟩ es).2

/-- **Arenas are safe in every history.**  Links and position stay inside,
so a machine that is alive always finds an instruction it can execute;
entries only ever change the successor of an Execute; the arena grows by one
with each Execute that succeeds; and what was made at run time is no brace
and descends from a loaded Execute. -/
theorem history_safe {p : Program} (hp : p.Loaded) {base : Int} {input : Tokens} {output : Sink}
    {start : Machine} (hstart : Machine.new p base input output = .ok start)
    (es fs : List Event) :
    let m := start.after es
    (∀ (i : Nat) (ix : Instr), m.program[i]? = some ix →
      ix.id = i ∧ m.program.Holds ix.next ∧ m.program.Holds ix.jump) ∧
    m.program.Holds m.pc ∧
    m.broken = none ∧
    (m.alive = true → ∃ ix, m.program.fetch? m.pc = some ix ∧ ix.kind.Known) ∧
    m.program.Grown (m.after fs).program ∧
    (m.alive = true →
      (m.splices = false → m.step.program = m.program) ∧
      ∀ i : Nat, i < m.program.size → (i : Int) ≠ m.pc →
        m.step.program[i]? = m.program[i]?) ∧
    m.program.size = p.size + splicesIn es start ∧
    ∀ (i : Nat) (ix : Instr), m.program[i]? = some ix →
      ix.isSynthesized = decide (p.size ≤ i) ∧
      (i < p.size → ix.parent = (i : Int)) ∧
      (p.size ≤ i → ix.kind.isBrace = false ∧
        ∃ (q : Nat) (qx : Instr), ix.parent = (q : Int) ∧ p[q]? = some qx ∧
          qx.kind = .execute) := by
  intro m
  have hsafe : Safe p m := (safe_kept p).after (safe_new hp hstart) es
  refine ⟨?_, hsafe.pc_holds, hsafe.unbroken, ?_, hsafe.grown_after fs, ?_, ?_, ?_⟩
  · intro i ix hix
    have he := hsafe.arena.entry i ix hix
    exact ⟨he.id_eq, he.next_holds, he.jump_holds⟩
  · intro halive
    obtain ⟨_, ix, _, _, hfetch, hknown⟩ := hsafe.fetch halive
    exact ⟨ix, hfetch, hknown⟩
  · intro halive
    exact (step_frame halive).2
  · have hprog : start.program = p := by
      obtain ⟨b, rfl⟩ := new_eq hstart
      rfl
    rw [← hprog]
    exact size_after es start
  · intro i ix hix
    have he := hsafe.arena.entry i ix hix
    exact ⟨he.isSynthesized_eq, he.own_parent, fun hi => ⟨he.made_plain hi, he.made_parent hi⟩⟩

/-- A loaded Execute makes an Execute, and that one makes a Push. -/
theorem history_safe_nested :
    ∃ (p : Program) (start : Machine) (es : List Event), p.Loaded ∧
      Machine.new p 10 (Tokens.ofBytes [] none) Sink.unlimited = .ok start ∧
      splicesIn es start = 2 ∧ (start.after es).program.size = p.size + splicesIn es start ∧
      (start.after es).broken = none := by
  let p : Program := #[⟨.execute, 0, halt, halt, 0⟩]
  let start : Machine :=
    ⟨p, 0, Stack.new, 0, .ten, Tokens.ofBytes [] none, Sink.unlimited, none, none⟩
  let digit (d : UInt8) : Event := .push ⟨false, [d]⟩
  let es : List Event :=
    [digit 5, digit 9, digit 1, digit 1, digit 1, digit 3, digit 2, digit 1, .run 3]
  have hp : p.Loaded := .codes 1 1 none #[⟨97, 98, 99, 97⟩] rfl
  have hstart : Machine.new p 10 (Tokens.ofBytes [] none) Sink.unlimited = .ok start := rfl
  obtain ⟨_, _, hbroken, _, _, _, hsize, _⟩ := history_safe hp hstart es []
  exact ⟨p, start, es, hp, hstart, by cbv, hsize, hbroken⟩

end Machine

end Tetraglyph
