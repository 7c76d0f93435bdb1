/-
  Tetraglyph.Proofs.Program.Linking
  ─────────────────────────────────
  **WHAT LINKING ACHIEVES.**

  Linking goes through the program once.  An instruction that it has passed
  is never touched again, unless it is an opening brace which is still open;
  that one gets its jump when its partner is met.  So the FINAL program can
  be read along with the pass: where a brace is closed, both jumps are
  already the final ones.

  Main results

      linkOne_frame   — linking one instruction touches it and the innermost
                        open brace, nothing else
      link_linked     — a linked program is `Linked`: every instruction leads
                        to the one behind it, and the braces are paired
-/
import Tetraglyph.Program.Linking
import Tetraglyph.Proofs.Program.Decoding
import Tetraglyph.Proofs.Program.Nesting

namespace Tetraglyph

open Nesting

/-- The instructions of `ks`, each leading to the one behind it, with the
braces paired. -/
structure Program.Linked (ks : List Kind) (p : Program) : Prop where
  /-- One instruction for each kind. -/
  size_eq : p.size = ks.length
  /-- The kinds, in order. -/
  kind_eq : ∀ (i : Nat) (ix : Instr), p[i]? = some ix → ks[i]? = some ix.kind
  /-- Each instruction knows its index. -/
  id_eq : ∀ (i : Nat) (ix : Instr), p[i]? = some ix → ix.id = i
  /-- Each instruction is its own parent. -/
  parent_eq : ∀ (i : Nat) (ix : Instr), p[i]? = some ix → ix.parent = (i : Int)
  /-- Each instruction leads to the one behind it. -/
  next_eq : ∀ (i : Nat) (ix : Instr), p[i]? = some ix → ix.next = Linking.successor p.size i
  /-- What is no brace jumps where it leads. -/
  jump_eq : ∀ (i : Nat) (ix : Instr), p[i]? = some ix → ix.kind.isBrace = false → ix.jump = ix.next
  /-- The braces jump to their partners. -/
  paired : Paired p [] (List.range p.size) []

namespace Linking

/-! ## §1. One instruction. -/

theorem except_bind_ok {ε α β : Type} {x : Except ε α} {f : α → Except ε β} {b : β} :
    (x >>= f) = .ok b ↔ ∃ a, x = .ok a ∧ f a = .ok b := by
  cases x with
  | error e =>
      constructor
      · intro h
        exact absurd h (by simp [bind, Except.bind])
      · intro ⟨a, h, _⟩
        exact absurd h (by simp)
  | ok a =>
      constructor
      · intro h
        exact ⟨a, rfl, h⟩
      · intro ⟨a', ha, h⟩
        injection ha with ha
        subst ha
        exact h

/-- What linking the instruction `ix` at `id` does: an opening brace is
opened, a closing one closes the innermost, anything else is plain. -/
theorem linkOne_cases {st st' : Progress} {id : Nat} {ix : Instr}
    (hix : st.program[id]? = some ix) (h : linkOne st id = .ok st') :
    (ix.kind = .lbrace ∧ st' = ⟨st.program.setIfInBounds id
        { ix with next := successor st.program.size id }, id :: st.openBraces⟩) ∨
    (ix.kind = .rbrace ∧ ∃ l rest, st.openBraces = l :: rest ∧
      st' = ⟨(st.program.setIfInBounds id
        { ix with next := successor st.program.size id, jump := (l : Int) }).modify l
          (fun lx => { lx with jump := (id : Int) }), rest⟩) ∨
    (ix.kind.isBrace = false ∧ st' = ⟨st.program.setIfInBounds id
        { ix with next := successor st.program.size id,
                  jump := successor st.program.size id }, st.openBraces⟩) := by
  unfold linkOne at h
  rw [hix] at h
  dsimp only at h
  split at h
  next hk =>
      injection h with h
      exact .inl ⟨hk, h.symm⟩
  next hk =>
      split at h
      next => exact absurd h (by simp)
      next l rest hos =>
          injection h with h
          exact .inr (.inl ⟨hk, l, rest, hos, h.symm⟩)
  next hl hr =>
      injection h with h
      refine .inr (.inr ⟨?_, h.symm⟩)
      rcases kind_cases ix.kind with hk | hk | hk
      · exact absurd hk hl
      · exact absurd hk hr
      · exact hk

/-- Linking one instruction keeps the number of instructions. -/
theorem linkOne_size {st st' : Progress} {id : Nat} {ix : Instr}
    (hix : st.program[id]? = some ix) (h : linkOne st id = .ok st') :
    st'.program.size = st.program.size := by
  rcases linkOne_cases hix h with ⟨_, rfl⟩ | ⟨_, l, rest, _, rfl⟩ | ⟨_, rfl⟩
  · exact Array.size_setIfInBounds
  · rw [Array.size_modify, Array.size_setIfInBounds]
  · exact Array.size_setIfInBounds

/-- **Linking one instruction touches it and the open braces**, nothing
else. -/
theorem linkOne_frame {st st' : Progress} {id : Nat} {ix : Instr}
    (hix : st.program[id]? = some ix) (h : linkOne st id = .ok st') {j : Nat} (hj : j ≠ id)
    (hopen : j ∉ st.openBraces) : st'.program[j]? = st.program[j]? := by
  have hne : id ≠ j := fun h => hj h.symm
  rcases linkOne_cases hix h with ⟨_, rfl⟩ | ⟨_, l, rest, hos, rfl⟩ | ⟨_, rfl⟩
  · exact Array.getElem?_setIfInBounds_ne hne
  · have hl : l ≠ j := by
      intro hl
      rw [hos, hl] at hopen
      exact hopen List.mem_cons_self
    rw [Array.getElem?_modify, if_neg hl]
    exact Array.getElem?_setIfInBounds_ne hne
  · exact Array.getElem?_setIfInBounds_ne hne

/-- What becomes of an entry when the instruction at `id` is linked: only
its links can change, and a plain one keeps its jump unless it is the one. -/
theorem linkOne_entry {st st' : Progress} {id : Nat} {ix : Instr}
    (hix : st.program[id]? = some ix) (h : linkOne st id = .ok st')
    (hopen : ∀ (l : Nat) (lx : Instr), l ∈ st.openBraces → st.program[l]? = some lx →
      lx.kind = .lbrace)
    {j : Nat} {jx' : Instr} (hj : st'.program[j]? = some jx') :
    ∃ jx, st.program[j]? = some jx ∧ jx'.kind = jx.kind ∧ jx'.id = jx.id ∧
      jx'.parent = jx.parent ∧
      jx'.next = (if j = id then successor st.program.size id else jx.next) ∧
      (jx.kind.isBrace = false →
        jx'.jump = if j = id then successor st.program.size id else jx.jump) := by
  have hlt : id < st.program.size := (Array.getElem?_eq_some_iff.1 hix).1
  by_cases hid : j = id
  · subst hid
    refine ⟨ix, hix, ?_⟩
    simp only [if_pos]
    rcases linkOne_cases hix h with ⟨hk, rfl⟩ | ⟨hk, l, rest, hos, rfl⟩ | ⟨hk, rfl⟩
    · rw [Array.getElem?_setIfInBounds_self_of_lt hlt, Option.some.injEq] at hj
      subst hj
      exact ⟨rfl, rfl, rfl, rfl, fun hb => absurd hb (by rw [hk]; decide)⟩
    · rw [Array.getElem?_modify, Array.getElem?_setIfInBounds_self_of_lt hlt] at hj
      refine ⟨?_, ?_, ?_, ?_, fun hb => absurd hb (by rw [hk]; decide)⟩
      -- the partner's write changes a jump at most, wherever it goes
      all_goals
        split at hj <;> simp only [Option.map_some, Option.some.injEq] at hj <;> subst hj <;> rfl
    · rw [Array.getElem?_setIfInBounds_self_of_lt hlt, Option.some.injEq] at hj
      subst hj
      exact ⟨rfl, rfl, rfl, rfl, fun _ => rfl⟩
  · simp only [if_neg hid]
    by_cases hmem : j ∈ st.openBraces
    · -- an open brace: at most its jump changes
      rcases linkOne_cases hix h with ⟨_, rfl⟩ | ⟨_, l, rest, hos, rfl⟩ | ⟨_, rfl⟩
      · rw [Array.getElem?_setIfInBounds_ne (fun h => hid h.symm)] at hj
        exact ⟨jx', hj, rfl, rfl, rfl, rfl, fun _ => rfl⟩
      · rw [Array.getElem?_modify, Array.getElem?_setIfInBounds_ne (fun h => hid h.symm)] at hj
        split at hj
        · obtain ⟨jx, hjx, rfl⟩ := Option.map_eq_some_iff.1 hj
          refine ⟨jx, hjx, rfl, rfl, rfl, rfl, fun hb => ?_⟩
          exact absurd hb (by rw [hopen j jx hmem hjx]; decide)
        · exact ⟨jx', hj, rfl, rfl, rfl, rfl, fun _ => rfl⟩
      · rw [Array.getElem?_setIfInBounds_ne (fun h => hid h.symm)] at hj
        exact ⟨jx', hj, rfl, rfl, rfl, rfl, fun _ => rfl⟩
    · rw [linkOne_frame hix h hid hmem] at hj
      exact ⟨jx', hj, rfl, rfl, rfl, rfl, fun _ => rfl⟩

/-! ## §2. The pass. -/

/-- A pass over `ks` that has come to `i`: everything is in its place, what
lies behind is linked, and the open braces lie behind. -/
structure Passed (ks : List Kind) (i : Nat) (st : Progress) : Prop where
  size_eq : st.program.size = ks.length
  entry : ∀ (j : Nat) (jx : Instr), st.program[j]? = some jx →
    ks[j]? = some jx.kind ∧ jx.id = j ∧ jx.parent = (j : Int)
  linked : ∀ (j : Nat) (jx : Instr), j < i → st.program[j]? = some jx →
    jx.next = successor st.program.size j ∧ (jx.kind.isBrace = false → jx.jump = jx.next)
  open_lt : ∀ l, l ∈ st.openBraces → l < i
  open_lbrace : ∀ (l : Nat) (lx : Instr), l ∈ st.openBraces → st.program[l]? = some lx →
    lx.kind = .lbrace
  open_nodup : st.openBraces.Nodup

theorem passed_unlinked (ks : List Kind) : Passed ks 0 ⟨Program.unlinked ks, []⟩ := by
  refine ⟨Program.size_unlinked ks, ?_, ?_, ?_, ?_, List.nodup_nil⟩
  · intro j jx h
    rw [Program.getElem?_unlinked, Option.map_eq_some_iff] at h
    obtain ⟨k, hk, rfl⟩ := h
    exact ⟨hk, rfl, rfl⟩
  · intro j jx hj
    exact absurd hj (Nat.not_lt_zero j)
  · intro l hl
    exact absurd hl List.not_mem_nil
  · intro l lx hl
    exact absurd hl List.not_mem_nil

/-- The open braces after one instruction. -/
theorem passed_open {ks : List Kind} {i : Nat} {st st' : Progress} {ix : Instr}
    (hp : Passed ks i st) (hix : st.program[i]? = some ix) (h : linkOne st i = .ok st') :
    st'.openBraces.Nodup ∧
      ∀ l, l ∈ st'.openBraces → (l = i ∧ ix.kind = .lbrace) ∨ l ∈ st.openBraces := by
  rcases linkOne_cases hix h with ⟨hk, rfl⟩ | ⟨_, l, rest, hos, rfl⟩ | ⟨_, rfl⟩
  · refine ⟨List.nodup_cons.2 ⟨?_, hp.open_nodup⟩, ?_⟩
    · -- all open braces lie behind the pass
      intro hmem
      exact absurd (hp.open_lt i hmem) (Nat.lt_irrefl i)
    · intro l hl
      rcases List.mem_cons.1 hl with heq | hl
      · exact .inl ⟨heq, hk⟩
      · exact .inr hl
  · have hnodup := hp.open_nodup
    rw [hos] at hnodup ⊢
    exact ⟨(List.nodup_cons.1 hnodup).2, fun j hj => .inr (List.mem_cons_of_mem l hj)⟩
  · exact ⟨hp.open_nodup, fun j hj => .inr hj⟩

/-- One instruction further. -/
theorem passed_succ {ks : List Kind} {i : Nat} {st st' : Progress} {ix : Instr}
    (hp : Passed ks i st) (hix : st.program[i]? = some ix) (h : linkOne st i = .ok st') :
    Passed ks (i + 1) st' := by
  have hsize := linkOne_size hix h
  obtain ⟨hnodup, hopen⟩ := passed_open hp hix h
  refine ⟨hsize.trans hp.size_eq, ?_, ?_, ?_, ?_, hnodup⟩
  · intro j jx' hj
    obtain ⟨jx, hjx, hkind, hid, hparent, _, _⟩ := linkOne_entry hix h hp.open_lbrace hj
    rw [hkind, hid, hparent]
    exact hp.entry j jx hjx
  · intro j jx' hlt hj
    obtain ⟨jx, hjx, hkind, _, _, hnext, hjump⟩ := linkOne_entry hix h hp.open_lbrace hj
    rw [hsize, hnext, hkind]
    by_cases hji : j = i
    · subst hji
      rw [if_pos rfl]
      refine ⟨rfl, fun hb => ?_⟩
      rw [hjump hb, if_pos rfl]
    · obtain ⟨hn, hb'⟩ := hp.linked j jx (by omega) hjx
      rw [if_neg hji]
      refine ⟨hn, fun hb => ?_⟩
      rw [hjump hb, if_neg hji, hb' hb]
  · intro l hl
    rcases hopen l hl with ⟨heq, _⟩ | hl
    · omega
    · have := hp.open_lt l hl
      omega
  · intro l lx' hl hlx'
    obtain ⟨lx, hlx, hkind, _⟩ := linkOne_entry hix h hp.open_lbrace hlx'
    rw [hkind]
    rcases hopen l hl with ⟨heq, hk⟩ | hl
    · subst heq
      rw [hix, Option.some.injEq] at hlx
      rw [← hlx]
      exact hk
    · exact hp.open_lbrace l lx hl hlx

theorem pass_succ {i k : Nat} {st st' : Progress} :
    (List.range' i (k + 1)).foldlM linkOne st = .ok st' ↔
      ∃ mid, linkOne st i = .ok mid ∧ (List.range' (i + 1) k).foldlM linkOne mid = .ok st' := by
  rw [List.range'_succ, List.foldlM_cons]
  exact except_bind_ok

theorem pass_zero {i : Nat} {st st' : Progress} :
    (List.range' i 0).foldlM linkOne st = .ok st' ↔ st = st' := by
  show Except.ok st = Except.ok st' ↔ st = st'
  rw [Except.ok.injEq]

/-- There is an instruction wherever the pass comes. -/
theorem Passed.instr_at {ks : List Kind} {i : Nat} {st : Progress} (hp : Passed ks i st)
    {j : Nat} (hj : j < ks.length) : st.program[j]? = some (st.program.instr j) :=
  Program.getElem?_instr (by rw [hp.size_eq]; exact hj)

/-- The rest of a pass. -/
theorem pass_passed {ks : List Kind} {k : Nat} :
    ∀ {i : Nat} {st st' : Progress}, Passed ks i st → i + k ≤ ks.length →
      (List.range' i k).foldlM linkOne st = .ok st' → Passed ks (i + k) st' := by
  induction k with
  | zero =>
      intro i st st' hp _ h
      rw [pass_zero] at h
      subst h
      exact hp
  | succ k ih =>
      intro i st st' hp hle h
      obtain ⟨mid, hone, hrest⟩ := pass_succ.1 h
      have hmid := passed_succ hp (hp.instr_at (by omega)) hone
      have := ih hmid (by omega) hrest
      rw [Nat.add_right_comm] at this
      exact this

/-- What lies behind the pass and is not open stays as it is. -/
theorem pass_frame {ks : List Kind} {k : Nat} :
    ∀ {i : Nat} {st st' : Progress}, Passed ks i st → i + k ≤ ks.length →
      (List.range' i k).foldlM linkOne st = .ok st' →
      ∀ j, j < i → j ∉ st.openBraces → st'.program[j]? = st.program[j]? := by
  induction k with
  | zero =>
      intro i st st' _ _ h j _ _
      rw [pass_zero] at h
      rw [h]
  | succ k ih =>
      intro i st st' hp hle h j hj hopen
      obtain ⟨mid, hone, hrest⟩ := pass_succ.1 h
      have hix := hp.instr_at (j := i) (by omega)
      -- what lies behind is not opened again
      have hopen' : j ∉ mid.openBraces := by
        intro hmem
        rcases (passed_open hp hix hone).2 j hmem with ⟨heq, _⟩ | hmem
        · omega
        · exact hopen hmem
      rw [ih (passed_succ hp hix hone) (by omega) hrest j (by omega) hopen']
      exact linkOne_frame hix hone (by omega) hopen

/-- **The final program can be read along with the pass.** -/
theorem pass_paired {ks : List Kind} {k : Nat} :
    ∀ {i : Nat} {st st' : Progress}, Passed ks i st → i + k ≤ ks.length →
      (List.range' i k).foldlM linkOne st = .ok st' →
      Paired st'.program st.openBraces (List.range' i k) st'.openBraces := by
  induction k with
  | zero =>
      intro i st st' _ _ h
      rw [pass_zero] at h
      rw [h]
      rfl
  | succ k ih =>
      intro i st st' hp hle h
      have hfinal := pass_passed hp hle h
      obtain ⟨mid, hone, hrest⟩ := pass_succ.1 h
      have hix := hp.instr_at (j := i) (by omega)
      have hmid := passed_succ hp hix hone
      have hread := ih hmid (by omega) hrest
      have hframe := pass_frame hmid (by omega) hrest
      -- kinds never change, so the final one decides how `i` is read
      have hkind : (st'.program.instr i).kind = (st.program.instr i).kind := by
        have hnow := (hp.entry i _ hix).1
        rw [(hfinal.entry i _ (hfinal.instr_at (by omega))).1, Option.some.injEq] at hnow
        exact hnow
      have hlt : i < st.program.size := (Array.getElem?_eq_some_iff.1 hix).1
      rw [List.range'_succ]
      rcases linkOne_cases hix hone with ⟨hk, rfl⟩ | ⟨hk, l, rest, hos, rfl⟩ | ⟨hk, rfl⟩
      · rw [paired_lbrace (hkind.trans hk)]
        exact hread
      · rw [paired_rbrace (hkind.trans hk)]
        have hnodup := hp.open_nodup
        have hbehind := hp.open_lt
        rw [hos] at hnodup hbehind
        have hl : l < i := hbehind l List.mem_cons_self
        -- neither `i` nor `l` is open any more: both have their final jumps
        have hfi := hframe i (by omega)
          (fun hmem => absurd (hbehind i (List.mem_cons_of_mem l hmem)) (Nat.lt_irrefl i))
        have hfl := hframe l (by omega) (List.nodup_cons.1 hnodup).1
        refine ⟨l, rest, hos, ?_, ?_, hread⟩
        · have hlx : st.program[l]? = some (st.program.instr l) := hp.instr_at (by omega)
          rw [Array.getElem?_modify, if_pos rfl, Array.getElem?_setIfInBounds_ne (by omega), hlx]
            at hfl
          rw [Program.instr_of_getElem? hfl]
        · rw [Array.getElem?_modify, if_neg (by omega),
            Array.getElem?_setIfInBounds_self_of_lt hlt] at hfi
          rw [Program.instr_of_getElem? hfi]
      · rw [paired_plain (by rw [hkind]; exact hk)]
        exact hread

/-! ## §3. Linked programs. -/

/-- **A linked program is `Linked`**: every instruction leads to the one
behind it, and the braces are paired. -/
theorem link_linked {ks : List Kind} {p : Program}
    (h : link (Program.unlinked ks) = .ok p) : Program.Linked ks p := by
  obtain ⟨st, hpass, hend⟩ := except_bind_ok.1 h
  rw [List.range_eq_range', Program.size_unlinked] at hpass
  have hstart := passed_unlinked ks
  have hdone := pass_passed hstart (by omega) hpass
  have hread := pass_paired hstart (by omega) hpass
  split at hend
  next hos =>
      have hp : st.program = p := by
        injection hend
      subst hp
      rw [hos] at hread
      -- the pass has gone through every instruction
      have hlt : ∀ {j : Nat} {jx : Instr}, st.program[j]? = some jx → j < 0 + ks.length := by
        intro j jx hj
        have := (Array.getElem?_eq_some_iff.1 hj).1
        rw [hdone.size_eq] at this
        omega
      refine ⟨hdone.size_eq, ?_, ?_, ?_, ?_, ?_, ?_⟩
      · intro i ix hi
        exact (hdone.entry i ix hi).1
      · intro i ix hi
        exact (hdone.entry i ix hi).2.1
      · intro i ix hi
        exact (hdone.entry i ix hi).2.2
      · intro i ix hi
        exact (hdone.linked i ix (hlt hi) hi).1
      · intro i ix hi
        exact (hdone.linked i ix (hlt hi) hi).2
      · rw [hdone.size_eq, List.range_eq_range']
        exact hread
  next => exact absurd hend (by simp)

end Linking

end Tetraglyph
