/-
  Tetraglyph.Proofs.Program.Unmatched
  ───────────────────────────────────
  **WHICH BRACE IS REPORTED.**

  Linking fails in one of two ways.  It is STUCK at a closing brace where
  nothing is open; then everything before this brace is balanced, so it is
  the first one that closes too much.  Or it gets to the end with braces
  still open; then everything behind the innermost of them is balanced, so
  this brace has no partner, and every opening brace behind it has one.

      Overclosed   — more braces are closed than opened
      Match        — two braces belong together
      Surplus      — the first closing brace that closes too much
      Innermost    — the last opening brace without a partner

  Main results

      match_of_balanced       — in balanced kinds every brace has a partner
      Match.not_balanced_drop — what is behind a brace with a partner is not
                                balanced
      pass_braces             — what the open braces of a pass say about the
                                kinds it has passed
      link_unbalanced         — the two ways to fail
      link_names_brace        — the brace that is reported is the right one
-/
import Mathlib.Data.List.Infix
import Tetraglyph.Proofs.Program.Matching

namespace Tetraglyph

/-! ## §1. Braces without partners. -/

namespace Nesting

/-- More braces are closed than opened. -/
def Overclosed (ks : List Kind) : Prop := ks.count .lbrace < ks.count .rbrace

/-- The braces at `l` and `r` belong together: one opens, the other closes,
and what stands between them is balanced. -/
structure Match (ks : List Kind) (l r : Nat) : Prop where
  lt : l < r
  opening : ks[l]? = some .lbrace
  closing : ks[r]? = some .rbrace
  between : Balanced ((ks.take r).drop (l + 1))

/-- The closing brace at `i` is the first at which more is closed than was
opened. -/
structure Surplus (ks : List Kind) (i : Nat) : Prop where
  closing : ks[i]? = some .rbrace
  overclosed : Overclosed (ks.take (i + 1))
  first : ∀ j ≤ i, ¬ Overclosed (ks.take j)

/-- The opening brace at `i` is the last one without a partner, and so the
last one behind which everything is balanced. -/
structure Innermost (ks : List Kind) (i : Nat) : Prop where
  opening : ks[i]? = some .lbrace
  alone : ¬ ∃ r, Match ks i r
  last : ∀ j, i < j → ks[j]? = some .lbrace → ∃ r, Match ks j r
  balanced : Balanced (ks.drop (i + 1))
  unbalanced : ∀ j, i < j → ks[j]? = some .lbrace → ¬ Balanced (ks.drop (j + 1))

/-- Where kinds lead to some level, no beginning closes too much. -/
theorem Level.not_overclosed {ks : List Kind} {e : Nat} (h : Level 0 ks e) {front : List Kind}
    (hfront : front <+: ks) : ¬ Overclosed front := by
  have := h.1 front hfront
  unfold Overclosed
  omega

/-- One closing brace behind balanced kinds closes too much. -/
theorem Level.overclosed_concat {ks : List Kind} (h : Level 0 ks 0) :
    Overclosed (ks ++ [.rbrace]) := by
  have hcount := h.2
  unfold Overclosed
  rw [List.count_append, List.count_append, List.count_singleton_self,
    List.count_singleton, if_neg (by decide)]
  omega

/-- **In balanced kinds every opening brace has a partner**: the one to which
linking makes it jump. -/
theorem match_of_balanced {ks : List Kind} (h : Balanced ks) {l : Nat}
    (hl : ks[l]? = some .lbrace) : ∃ r, Match ks l r := by
  obtain ⟨q, hq⟩ := Linking.link_of_balanced h
  have hlinked := Linking.link_linked hq
  have hlt : l < q.size := by
    rw [hlinked.size_eq]
    exact (List.getElem?_eq_some_iff.1 hl).1
  have hix := Program.getElem?_instr hlt
  have hkind : (q.instr l).kind = .lbrace := by
    have := hlinked.kind_eq l _ hix
    rw [hl, Option.some.injEq] at this
    exact this.symm
  obtain ⟨r, rx, _, hrx, hkr, _, hlr, hbetween⟩ := hlinked.linkedUp.opening l _ hix hkind
  exact ⟨r, hlr, hl, by rw [hlinked.kind_eq r rx hrx, hkr], hbetween⟩

/-- Partners in a part of the kinds are partners in all of them. -/
theorem Match.of_drop {ks : List Kind} {n l r : Nat} (h : Match (ks.drop n) l r) :
    Match ks (n + l) (n + r) := by
  refine ⟨by have := h.lt; omega, ?_, ?_, ?_⟩
  · rw [← List.getElem?_drop]
    exact h.opening
  · rw [← List.getElem?_drop]
    exact h.closing
  · have hbetween := h.between
    rw [List.take_drop, List.drop_drop, ← Nat.add_assoc] at hbetween
    exact hbetween

/-- **What is behind a brace with a partner is not balanced**: the partner
closes more than was opened behind the brace. -/
theorem Match.not_balanced_drop {ks : List Kind} {l r : Nat} (h : Match ks l r) :
    ¬ Balanced (ks.drop (l + 1)) := by
  intro hbalanced
  rw [balanced_iff_level] at hbalanced
  have hclosed := ((balanced_iff_level _).1 h.between).overclosed_concat
  have hsplit : (ks.take r).drop (l + 1) ++ [.rbrace] = (ks.take (r + 1)).drop (l + 1) := by
    have hlen := (List.getElem?_eq_some_iff.1 h.closing).1
    rw [List.take_add_one, h.closing, Option.toList_some, List.drop_append_of_le_length]
    rw [List.length_take]
    have := h.lt
    omega
  rw [hsplit] at hclosed
  exact hbalanced.not_overclosed (List.IsPrefix.drop (List.take_prefix (r + 1) ks) (l + 1)) hclosed

/-- An opening brace with balanced kinds behind it is the last one without a
partner. -/
theorem innermost_of_balanced {ks : List Kind} {i : Nat} (hi : ks[i]? = some .lbrace)
    (h : Balanced (ks.drop (i + 1))) : Innermost ks i := by
  have hlast : ∀ j, i < j → ks[j]? = some .lbrace → ∃ r, Match ks j r := by
    intro j hij hj
    obtain ⟨d, rfl⟩ := Nat.exists_eq_add_of_le (show i + 1 ≤ j from hij)
    rw [← List.getElem?_drop] at hj
    obtain ⟨r, hr⟩ := match_of_balanced h hj
    exact ⟨_, hr.of_drop⟩
  refine ⟨hi, ?_, hlast, h, ?_⟩
  · intro ⟨r, hr⟩
    exact hr.not_balanced_drop h
  · intro j hij hj
    obtain ⟨r, hr⟩ := hlast j hij hj
    exact hr.not_balanced_drop

/-- A closing brace behind balanced kinds is the first that closes too much. -/
theorem surplus_of_level {ks : List Kind} {i : Nat} (hi : ks[i]? = some .rbrace)
    (h : Level 0 (ks.take i) 0) : Surplus ks i := by
  refine ⟨hi, ?_, ?_⟩
  · rw [List.take_add_one, hi]
    exact h.overclosed_concat
  · intro j hj
    exact h.not_overclosed (List.take_prefix_take_left hj)

end Nesting

open Nesting

namespace Linking

/-! ## §2. Where the pass is stuck. -/

/-- One instruction is refused only if it is a closing brace and nothing is
open. -/
theorem linkOne_stuck {st : Progress} {id : Nat} {ix : Instr} {f : Failure}
    (hix : st.program[id]? = some ix) (h : linkOne st id = .error f) :
    ix.kind = .rbrace ∧ st.openBraces = [] ∧ f = .syntactic .openingBraceExpected id := by
  unfold linkOne at h
  rw [hix] at h
  dsimp only at h
  split at h
  next => exact absurd h (by simp)
  next hk =>
      split at h
      next hnone => exact ⟨hk, hnone, (Except.error.inj h).symm⟩
      next => exact absurd h (by simp)
  next => exact absurd h (by simp)

/-- A pass that fails gets to some instruction and is refused there. -/
theorem pass_stuck {k : Nat} {f : Failure} :
    ∀ {i : Nat} {st : Progress}, (List.range' i k).foldlM linkOne st = .error f →
      ∃ j st', j < k ∧ (List.range' i j).foldlM linkOne st = .ok st' ∧
        linkOne st' (i + j) = .error f := by
  induction k with
  | zero =>
      intro i st h
      exact absurd h (by simp [pure, Except.pure])
  | succ k ih =>
      intro i st h
      rw [List.range'_succ, List.foldlM_cons] at h
      cases hone : linkOne st i with
      | error g =>
          rw [hone] at h
          obtain rfl : g = f := Except.error.inj h
          exact ⟨0, st, Nat.zero_lt_succ k, rfl, hone⟩
      | ok mid =>
          rw [hone] at h
          obtain ⟨j, st', hj, hpass, hstuck⟩ := ih h
          refine ⟨j + 1, st', Nat.succ_lt_succ hj, pass_succ.2 ⟨mid, hone, hpass⟩, ?_⟩
          rw [← Nat.add_assoc, Nat.add_right_comm]
          exact hstuck

/-! ## §3. What the open braces say. -/

/-- A pass reads the kinds of the program from the first on. -/
theorem Passed.kinds_range' {ks : List Kind} {i n : Nat} {st : Progress} (h : Passed ks i st)
    (hn : n ≤ ks.length) : kinds st.program (List.range' 0 n) = ks.take n := by
  apply List.ext_getElem?
  intro j
  unfold kinds
  rw [List.getElem?_map]
  by_cases hj : j < n
  · rw [List.getElem?_range' hj, List.getElem?_take_of_lt hj, Nat.one_mul, Nat.zero_add]
    exact (h.entry j _ (h.instr_at (by omega))).1.symm
  · rw [List.getElem?_eq_none (by simpa using hj),
      List.getElem?_eq_none (by rw [List.length_take]; omega)]
    rfl

/-- **What the open braces of a pass say about the kinds it has passed**: their
number is the level, and behind the innermost everything is balanced. -/
theorem pass_braces {ks : List Kind} {n : Nat} (hn : n ≤ ks.length) {st : Progress}
    (h : (List.range' 0 n).foldlM linkOne ⟨Program.unlinked ks, []⟩ = .ok st) :
    Level 0 (ks.take n) st.openBraces.length ∧
      ∀ l rest, st.openBraces = l :: rest →
        ks[l]? = some .lbrace ∧ Balanced ((ks.take n).drop (l + 1)) := by
  have hstart := passed_unlinked ks
  have hpassed := pass_passed hstart (by omega) h
  have hread := pass_paired hstart (by omega) h
  have hkinds := hpassed.kinds_range' hn
  refine ⟨hkinds ▸ paired_level hread, ?_⟩
  intro l rest hopen
  rw [hopen] at hread
  obtain ⟨front, inside, hpath, hl, hlevel⟩ :=
    @paired_split_opening _ _ [] rest l hread
  -- on the way from the first instruction, indexes are positions
  have hplace : front.length = l := by
    have hget : (List.range' 0 n)[front.length]? = some l := by rw [hpath]; simp
    obtain ⟨hlt, hval⟩ := List.getElem?_eq_some_iff.1 hget
    rw [List.getElem_range'] at hval
    omega
  have hlt : l < n := by
    have := congrArg List.length hpath
    simp only [List.length_range', List.length_append, List.length_cons] at this
    omega
  constructor
  · rw [(hpassed.entry l _ (hpassed.instr_at (by omega))).1, hl]
  · have hdrop : (ks.take n).drop (l + 1) = kinds st.program inside := by
      rw [← hkinds, hpath, ← List.singleton_append, ← List.append_assoc, kinds_append]
      apply List.drop_left'
      simp [kinds, hplace]
    rw [hdrop, balanced_iff_level]
    exact hlevel

/-! ## §4. The brace that is reported. -/

/-- **The two ways to fail**: at the first brace that closes too much, or at
the innermost brace that is never closed. -/
theorem link_unbalanced {ks : List Kind} (h : ¬ Balanced ks) :
    (∃ i : Nat, link (Program.unlinked ks) = .error (.syntactic .openingBraceExpected i) ∧
      Surplus ks i) ∨
    (∃ i : Nat, link (Program.unlinked ks) = .error (.syntactic .closingBraceExpected i) ∧
      (∀ front, front <+: ks → ¬ Overclosed front) ∧ Innermost ks i) := by
  unfold link
  rw [List.range_eq_range', Program.size_unlinked]
  cases hpass : (List.range' 0 ks.length).foldlM linkOne ⟨Program.unlinked ks, []⟩ with
  | error f =>
      obtain ⟨i, st, hi, hbefore, hstuck⟩ := pass_stuck hpass
      have hpassed := pass_passed (passed_unlinked ks) (by omega) hbefore
      rw [Nat.zero_add] at hstuck
      obtain ⟨hk, hnone, rfl⟩ := linkOne_stuck (hpassed.instr_at hi) hstuck
      have hlevel := (pass_braces (by omega) hbefore).1
      rw [hnone] at hlevel
      refine .inl ⟨i, rfl, surplus_of_level ?_ hlevel⟩
      rw [(hpassed.entry i _ (hpassed.instr_at hi)).1, hk]
  | ok st =>
      obtain ⟨hlevel, hinner⟩ := pass_braces (Nat.le_refl _) hpass
      rw [List.take_length] at hlevel hinner
      cases hopen : st.openBraces with
      | nil =>
          -- nothing is open in the end, so all was balanced
          rw [hopen] at hlevel
          exact absurd ((balanced_iff_level ks).2 hlevel) h
      | cons l rest =>
          obtain ⟨hl, hbalanced⟩ := hinner l rest hopen
          refine .inr ⟨l, ?_, fun front hfront => hlevel.not_overclosed hfront,
            innermost_of_balanced hl hbalanced⟩
          dsimp only [bind, Except.bind]
          rw [hopen]

/-- **Linking reports the right brace.**  Kinds that are not balanced are
refused.  If some beginning of them closes more braces than it opens, linking
reports that an opening brace is missing, and names the first closing brace at
which that happens.  If none does, it reports that a closing brace is missing,
and names the last opening brace that has no partner, which is the last one
with nothing but balanced kinds behind it. -/
theorem link_names_brace {ks : List Kind} (h : ¬ Balanced ks) :
    ((∃ front, front <+: ks ∧ Overclosed front) →
      ∃ i : Nat, link (Program.unlinked ks) = .error (.syntactic .openingBraceExpected i) ∧
        Surplus ks i) ∧
    ((¬ ∃ front, front <+: ks ∧ Overclosed front) →
      ∃ i : Nat, link (Program.unlinked ks) = .error (.syntactic .closingBraceExpected i) ∧
        Innermost ks i) := by
  constructor
  · intro ⟨front, hfront, hover⟩
    rcases link_unbalanced h with hsurplus | ⟨_, _, hnone, _⟩
    · exact hsurplus
    · exact absurd hover (hnone front hfront)
  · intro hnone
    rcases link_unbalanced h with ⟨i, _, hsurplus⟩ | ⟨i, hlink, _, hinner⟩
    · exact absurd ⟨_, List.take_prefix (i + 1) ks, hsurplus.overclosed⟩ hnone
    · exact ⟨i, hlink, hinner⟩

/-- A loop that is closed twice, and two loops of which the outer one is
never closed. -/
theorem link_names_brace_twice :
    let twice : List Kind := [.lbrace, .rbrace, .rbrace, .lbrace]
    let never : List Kind := [.lbrace, .lbrace, .rbrace, .push]
    link (Program.unlinked twice) = .error (.syntactic .openingBraceExpected 2) ∧
      Surplus twice 2 ∧
      link (Program.unlinked never) = .error (.syntactic .closingBraceExpected 0) ∧
      Innermost never 0 := by
  intro twice never
  have hprefix : [Kind.lbrace, .rbrace, .rbrace] <+: twice := List.prefix_append _ [Kind.lbrace]
  have hover : Overclosed [.lbrace, .rbrace, .rbrace] := by unfold Overclosed; decide
  have htwice : ¬ Balanced twice := fun hb =>
    ((balanced_iff_level _).1 hb).not_overclosed hprefix hover
  have hnever : ¬ Balanced never := fun hb => absurd hb.2 (by decide)
  have hlevel : Level 0 never 1 := by
    rw [level_lbrace, level_lbrace, level_rbrace, level_plain rfl, level_nil]
  obtain ⟨i, hi, hsurplus⟩ := (link_names_brace htwice).1 ⟨_, hprefix, hover⟩
  obtain ⟨j, hj, hinner⟩ := (link_names_brace hnever).2 fun ⟨_, hfront, hfover⟩ =>
    hlevel.not_overclosed hfront hfover
  -- linking itself tells which braces these are
  have hi' : link (Program.unlinked twice) = .error (.syntactic .openingBraceExpected 2) := by cbv
  have hj' : link (Program.unlinked never) = .error (.syntactic .closingBraceExpected 0) := by cbv
  obtain rfl : i = 2 := by
    have : (i : Int) = 2 := by simpa using hi.symm.trans hi'
    omega
  obtain rfl : j = 0 := by
    have : (j : Int) = 0 := by simpa using hj.symm.trans hj'
    omega
  exact ⟨hi', hsurplus, hj', hinner⟩

end Linking

end Tetraglyph
