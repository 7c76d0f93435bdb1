/-
  Tetraglyph.Proofs.Program.Matching
  ──────────────────────────────────
  **WHICH PROGRAMS CAN BE LINKED, AND HOW THEY ARE.**

  The pass of the linker keeps the open braces on a list, and the LENGTH of
  this list is all that decides whether it can go on: it fails at a closing
  brace if the list is empty, and in the end if it is not.  So it gets through
  exactly if the kinds lead from no open brace back to none.

  Where it gets through, partners stand at their places in the program, with
  balanced kinds between them.

      LinkedUp   — what linking makes of a program, instruction by instruction

  Main results

      linkOne_level           — the level decides whether one more is linked
      link_of_balanced        — balanced kinds are linked
      partners_places         — partners stand in order, balanced in between
      link_accepts_balanced   — exactly the balanced programs are linked, and
                                each is linked up
-/
import Tetraglyph.Proofs.Program.Linking

namespace Tetraglyph

open Nesting

/-! ## §1. Braces among other kinds. -/

namespace Nesting

theorem level_filter (d e : Nat) (ks : List Kind) :
    Level d (ks.filter Kind.isBrace) e ↔ Level d ks e := by
  induction ks generalizing d with
  | nil => rfl
  | cons k ks ih =>
      cases hk : k.isBrace with
      | false =>
          rw [List.filter_cons_of_neg (by simp [hk]), level_plain hk]
          exact ih d
      | true =>
          rw [List.filter_cons_of_pos hk]
          cases k <;> simp only [Kind.isBrace, Bool.false_eq_true] at hk
          · rw [level_lbrace, level_lbrace]
            exact ih (d + 1)
          · cases d with
            | zero => simp only [not_level_zero_rbrace]
            | succ d =>
                rw [level_rbrace, level_rbrace]
                exact ih d

/-- Kinds are balanced if their braces are. -/
theorem balanced_filter (ks : List Kind) : Balanced (ks.filter Kind.isBrace) ↔ Balanced ks := by
  rw [balanced_iff_level, balanced_iff_level]
  exact level_filter 0 0 ks

end Nesting

namespace Linking

/-! ## §2. Balanced kinds are linked. -/

/-- **The level decides whether one more instruction is linked.** -/
theorem linkOne_level {st : Progress} {id : Nat} {ix : Instr} (hix : st.program[id]? = some ix)
    {ks : List Kind} {e : Nat} (h : Level st.openBraces.length (ix.kind :: ks) e) :
    ∃ st', linkOne st id = .ok st' ∧ Level st'.openBraces.length ks e := by
  unfold linkOne
  rw [hix]
  dsimp only
  split
  next hk =>
      rw [hk, level_lbrace] at h
      exact ⟨_, rfl, h⟩
  next hk =>
      rw [hk] at h
      split
      next hnone =>
          -- nothing is open, which no level allows
          rw [hnone] at h
          exact absurd h (not_level_zero_rbrace e ks)
      next l rest hos =>
          rw [hos, List.length_cons, level_rbrace] at h
          exact ⟨_, rfl, h⟩
  next hl hr =>
      have hplain : ix.kind.isBrace = false := by
        rcases kind_cases ix.kind with hk | hk | hk
        · exact absurd hk hl
        · exact absurd hk hr
        · exact hk
      rw [level_plain hplain] at h
      exact ⟨_, rfl, h⟩

/-- A pass gets through kinds that lead to some level, and arrives there. -/
theorem pass_level {ks : List Kind} {e : Nat} (k : Nat) :
    ∀ {i : Nat} {st : Progress}, Passed ks i st → i + k = ks.length →
      Level st.openBraces.length (ks.drop i) e →
      ∃ st', (List.range' i k).foldlM linkOne st = .ok st' ∧ st'.openBraces.length = e := by
  induction k with
  | zero =>
      intro i st _ hi hlevel
      rw [List.drop_eq_nil_of_le (by omega), level_nil] at hlevel
      exact ⟨st, rfl, hlevel⟩
  | succ k ih =>
      intro i st hp hi hlevel
      have hix := hp.instr_at (j := i) (by omega)
      have hdrop : ks.drop i = (st.program.instr i).kind :: ks.drop (i + 1) := by
        have hlen : i < ks.length := by omega
        have hk := (hp.entry i _ hix).1
        rw [List.getElem?_eq_getElem hlen, Option.some.injEq] at hk
        rw [List.drop_eq_getElem_cons hlen, hk]
      rw [hdrop] at hlevel
      obtain ⟨mid, hone, hrest⟩ := linkOne_level hix hlevel
      obtain ⟨st', hpass, hend⟩ := ih (passed_succ hp hix hone) (by omega) hrest
      exact ⟨st', pass_succ.2 ⟨mid, hone, hpass⟩, hend⟩

/-- **Balanced kinds are linked.** -/
theorem link_of_balanced {ks : List Kind} (h : Balanced ks) :
    ∃ q, link (Program.unlinked ks) = .ok q := by
  rw [balanced_iff_level] at h
  obtain ⟨st, hpass, hend⟩ := pass_level ks.length (passed_unlinked ks) (by omega) h
  refine ⟨st.program, ?_⟩
  unfold link
  rw [List.range_eq_range', Program.size_unlinked, hpass]
  dsimp only [bind, Except.bind]
  rw [List.length_eq_zero_iff.1 hend]
  rfl

end Linking

/-! ## §3. Where partners stand. -/

theorem Program.Linked.kinds_range {ks : List Kind} {p : Program} (h : p.Linked ks) :
    kinds p (List.range p.size) = ks := by
  apply List.ext_getElem?
  intro i
  unfold kinds
  rw [List.getElem?_map]
  by_cases hi : i < p.size
  · rw [List.getElem?_range hi, h.kind_eq i _ (Program.getElem?_instr hi)]
    rfl
  · rw [List.getElem?_eq_none (by simpa using hi), List.getElem?_eq_none (by
      rw [← h.size_eq]
      omega)]
    rfl

/-- **Partners stand in order**, with balanced kinds between their places. -/
theorem Nesting.partners_places {ks : List Kind} {p : Program} (h : p.Linked ks) {l r : Nat}
    (hp : Partners p (List.range p.size) l r) :
    l < r ∧ r < p.size ∧ Balanced ((ks.take r).drop (l + 1)) := by
  obtain ⟨front, inside, back, hpath, _, _, hin⟩ := hp
  -- on the path from the first instruction on, indexes are positions
  have hplace : ∀ {i j : Nat}, (front ++ l :: (inside ++ r :: back))[i]? = some j →
      j = i ∧ i < p.size := by
    intro i j hij
    rw [← hpath] at hij
    obtain ⟨hi, hj⟩ := List.getElem?_eq_some_iff.1 hij
    rw [List.getElem_range] at hj
    rw [List.length_range] at hi
    exact ⟨hj.symm, hi⟩
  have hsplit : front ++ l :: (inside ++ r :: back) = (front ++ l :: inside) ++ r :: back := by
    simp
  obtain ⟨hl, _⟩ := @hplace front.length l (by simp)
  obtain ⟨hr, hlt⟩ := @hplace (front ++ l :: inside).length r (by rw [hsplit]; simp)
  rw [List.length_append, List.length_cons] at hr hlt
  refine ⟨by omega, by omega, ?_⟩
  have hks : ks = (kinds p front ++ (p.instr l).kind :: kinds p inside) ++
      ((p.instr r).kind :: kinds p back) := by
    rw [← h.kinds_range, hpath, hsplit]
    simp [kinds]
  have htake : ks.take r = kinds p front ++ (p.instr l).kind :: kinds p inside := by
    rw [hks]
    apply List.take_left'
    simp [kinds]
    omega
  have hdrop : (ks.take r).drop (l + 1) = kinds p inside := by
    rw [htake, ← List.singleton_append, ← List.append_assoc]
    apply List.drop_left'
    simp [kinds]
    omega
  rw [hdrop]
  exact hin

/-! ## §4. What linking makes of a program. -/

/-- **The program `p`, whose kinds are `ks`, is linked up to `q`.** -/
structure Program.LinkedUp (ks : List Kind) (p q : Program) : Prop where
  /-- There are as many instructions as before. -/
  size_eq : q.size = p.size
  /-- Each has its kind, its index and its parent, as before. -/
  kept : ∀ (i : Nat) (ix : Instr), q[i]? = some ix →
    ∃ old, p[i]? = some old ∧ ks[i]? = some ix.kind ∧ ix.kind = old.kind ∧ ix.id = old.id ∧
      ix.parent = old.parent
  /-- Each leads to the one behind it, and the last to the end. -/
  next_eq : ∀ (i : Nat) (ix : Instr), q[i]? = some ix →
    ix.next = if i + 1 < q.size then ((i + 1 : Nat) : Int) else halt
  /-- What is no brace jumps where it leads. -/
  plain : ∀ (i : Nat) (ix : Instr), q[i]? = some ix → ix.kind.isBrace = false → ix.jump = ix.next
  /-- An opening brace jumps forward to a closing one, which jumps back to it,
  and what stands between the two is balanced. -/
  opening : ∀ (i : Nat) (ix : Instr), q[i]? = some ix → ix.kind = .lbrace →
    ∃ (j : Nat) (jx : Instr), ix.jump = (j : Int) ∧ q[j]? = some jx ∧ jx.kind = .rbrace ∧
      jx.jump = (i : Int) ∧ i < j ∧ Balanced ((ks.take j).drop (i + 1))
  /-- A closing brace jumps back to an opening one, which jumps to it. -/
  closing : ∀ (i : Nat) (ix : Instr), q[i]? = some ix → ix.kind = .rbrace →
    ∃ (j : Nat) (jx : Instr), ix.jump = (j : Int) ∧ q[j]? = some jx ∧ jx.kind = .lbrace ∧
      jx.jump = (i : Int) ∧ j < i

theorem Program.Linked.linkedUp {ks : List Kind} {q : Program} (h : q.Linked ks) :
    LinkedUp ks (Program.unlinked ks) q := by
  -- the two braces of partners, with their kinds and jumps
  have hpartners : ∀ {l r : Nat}, Partners q (List.range q.size) l r →
      q[l]? = some (q.instr l) ∧ q[r]? = some (q.instr r) ∧ (q.instr l).kind = .lbrace ∧
        (q.instr r).kind = .rbrace ∧ (q.instr l).jump = (r : Int) ∧
        (q.instr r).jump = (l : Int) ∧ l < r ∧ Balanced ((ks.take r).drop (l + 1)) := by
    intro l r hp
    obtain ⟨hlr, hr, hbalanced⟩ := partners_places h hp
    obtain ⟨hjl, hjr⟩ := partners_jump h.paired hp
    obtain ⟨_, _, _, _, hkl, hkr, _⟩ := hp
    exact ⟨Program.getElem?_instr (by omega), Program.getElem?_instr hr, hkl, hkr, hjl, hjr, hlr,
      hbalanced⟩
  have hmem : ∀ {i : Nat} {ix : Instr}, q[i]? = some ix → i ∈ List.range q.size := by
    intro i ix hi
    exact List.mem_range.2 (Array.getElem?_eq_some_iff.1 hi).1
  refine ⟨?_, ?_, h.next_eq, h.jump_eq, ?_, ?_⟩
  · rw [h.size_eq, Program.size_unlinked]
  · intro i ix hi
    have hk := h.kind_eq i ix hi
    refine ⟨Instr.unlinked ix.kind i, ?_, hk, rfl, h.id_eq i ix hi, h.parent_eq i ix hi⟩
    rw [Program.getElem?_unlinked, hk]
    rfl
  · intro i ix hi hk
    obtain rfl := Program.instr_of_getElem? hi
    obtain ⟨r, hjump, hp⟩ := paired_closing h.paired (hmem hi) hk
    obtain ⟨_, hr, _, hkr, _, hjr, hlr, hbalanced⟩ := hpartners hp
    exact ⟨r, _, hjump, hr, hkr, hjr, hlr, hbalanced⟩
  · intro i ix hi hk
    obtain rfl := Program.instr_of_getElem? hi
    obtain ⟨l, hjump, hp⟩ := paired_opening h.paired (hmem hi) hk
    obtain ⟨hl, _, hkl, _, hjl, _, hlr, _⟩ := hpartners hp
    exact ⟨l, _, hjump, hl, hkl, hjl, hlr⟩

/-- **Exactly the programs with balanced braces are linked**, and each of them
is linked up: every instruction leads to the one behind it, what is no brace
jumps where it leads, every brace jumps to its partner and back, forward from
the opening one, with balanced kinds in between; and nothing but the links of
an instruction is changed. -/
theorem Linking.link_accepts_balanced (ks : List Kind) :
    ((∃ q, link (Program.unlinked ks) = .ok q) ↔ Balanced (ks.filter Kind.isBrace)) ∧
      ∀ q, link (Program.unlinked ks) = .ok q → Program.LinkedUp ks (Program.unlinked ks) q := by
  refine ⟨?_, fun q hq => (link_linked hq).linkedUp⟩
  rw [balanced_filter]
  constructor
  · intro ⟨q, hq⟩
    have hlinked := link_linked hq
    rw [← hlinked.kinds_range]
    exact paired_balanced hlinked.paired
  · intro hbalanced
    exact link_of_balanced hbalanced

/-- A loop in a loop is linked: the outer opening brace jumps over the inner
loop to the last instruction.  Two braces the wrong way round are not. -/
theorem Linking.link_accepts_balanced_nested :
    let ks : List Kind := [.lbrace, .lbrace, .pop, .rbrace, .rbrace]
    (∃ q, link (Program.unlinked ks) = .ok q ∧ Program.LinkedUp ks (Program.unlinked ks) q ∧
      (q.instr 0).jump = 4) ∧
    ¬ ∃ q, link (Program.unlinked [.rbrace, .lbrace]) = .ok q := by
  intro ks
  have hq : link (Program.unlinked ks) = .ok #[⟨.lbrace, 0, 1, 4, 0⟩, ⟨.lbrace, 1, 2, 3, 1⟩,
      ⟨.pop, 2, 3, 3, 2⟩, ⟨.rbrace, 3, 4, 1, 3⟩, ⟨.rbrace, 4, halt, 0, 4⟩] := by cbv
  refine ⟨⟨_, hq, (link_accepts_balanced ks).2 _ hq, rfl⟩, ?_⟩
  rw [(link_accepts_balanced _).1]
  intro hbalanced
  have hfirst := hbalanced.1 [.rbrace] (List.prefix_append [Kind.rbrace] [.lbrace])
  exact absurd hfirst (by decide)

end Tetraglyph
