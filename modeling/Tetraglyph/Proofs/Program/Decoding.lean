/-
  Tetraglyph.Proofs.Program.Decoding
  ──────────────────────────────────
  **WHAT THE WORKERS LEAVE BEHIND.**

  The places of the workers follow one another without a gap, so all their
  writes together are one write for each place, in order.  The program they
  leave is `Program.unlinked` of the kinds of the codes, whatever the number
  of workers was.

  Main results

      flatMap_writesOf     — the writes of the first workers, place by place
      decode_eq_unlinked   — decoding gives the unlinked program of the kinds
-/
import Tetraglyph.Program.Decoding

namespace Tetraglyph

/-- The program of some kinds, one instruction for each, not linked. -/
def Program.unlinked (ks : List Kind) : Program :=
  (ks.mapIdx fun i k => Instr.unlinked k i).toArray

theorem Program.size_unlinked (ks : List Kind) : (Program.unlinked ks).size = ks.length := by
  simp [Program.unlinked]

theorem Program.getElem?_unlinked (ks : List Kind) (i : Nat) :
    (Program.unlinked ks)[i]? = (ks[i]?).map fun k => Instr.unlinked k i := by
  simp [Program.unlinked, List.getElem?_mapIdx]

namespace Decoding

/-! ## §1. The places of the workers. -/

theorem firstPlace_zero (n workers : Nat) : firstPlace n workers 0 = 0 := by
  simp [firstPlace]

theorem firstPlace_workers (n : Nat) {workers : Nat} (h : 0 < workers) :
    firstPlace n workers workers = n := by
  unfold firstPlace
  exact Nat.mul_div_cancel_left n h

theorem firstPlace_le_succ (n workers w : Nat) :
    firstPlace n workers w ≤ firstPlace n workers (w + 1) := by
  unfold firstPlace
  exact Nat.div_le_div_right (Nat.mul_le_mul_right n (Nat.le_succ w))

theorem workerCount_pos (processors : Nat) (requested : Int) (n : Nat) :
    0 < workerCount processors requested n := by
  unfold workerCount
  omega

/-- **The writes of the first workers** are one for each place up to where
the next worker starts. -/
theorem flatMap_writesOf (codes : Array Code) (workers w : Nat) :
    (List.range w).flatMap (writesOf codes workers)
      = (List.range (firstPlace codes.size workers w)).map (decoded codes) := by
  induction w with
  | zero => simp [firstPlace_zero]
  | succ w ih =>
      have hle := firstPlace_le_succ codes.size workers w
      rw [List.range_succ, List.flatMap_append, ih, List.flatMap_singleton]
      show _ ++ (List.range' (firstPlace codes.size workers w)
          (firstPlace codes.size workers (w + 1) - firstPlace codes.size workers w)).map _ = _
      -- the places of the next worker start where those of the others end
      rw [← List.map_append, List.range_eq_range', List.range_eq_range']
      congr 1
      have happ := @List.range'_append_1 0 (firstPlace codes.size workers w)
        (firstPlace codes.size workers (w + 1) - firstPlace codes.size workers w)
      rw [Nat.zero_add] at happ
      rw [happ]
      congr 1
      omega

/-! ## §2. The program they write. -/

theorem size_foldl_apply (ws : List Write) (p : Program) :
    (ws.foldl Write.apply p).size = p.size := by
  induction ws generalizing p with
  | nil => rfl
  | cons w ws ih =>
      rw [List.foldl_cons, ih]
      exact Array.size_setIfInBounds

/-- After a write for each of the first `k` places these hold what was
written, and the others what they held before. -/
theorem getElem?_foldl_apply (codes : Array Code) (p : Program) (k i : Nat) (hi : i < p.size) :
    (((List.range k).map (decoded codes)).foldl Write.apply p)[i]?
      = if i < k then some (decoded codes i).instr else p[i]? := by
  induction k with
  | zero => simp
  | succ k ih =>
      rw [List.range_succ, List.map_append, List.foldl_append]
      simp only [List.map_cons, List.map_nil, List.foldl_cons, List.foldl_nil]
      show (Array.setIfInBounds _ k (decoded codes k).instr)[i]? = _
      rw [Array.getElem?_setIfInBounds, ih, size_foldl_apply]
      by_cases hk : k = i
      · -- the last write is the one for this place
        subst hk
        rw [if_pos rfl, if_pos hi, if_pos (Nat.lt_succ_self k)]
      · rw [if_neg hk]
        by_cases hlt : i < k
        · rw [if_pos hlt, if_pos (by omega)]
        · rw [if_neg hlt, if_neg (by omega)]

/-- **Decoding gives the unlinked program of the kinds**, by any number of
workers. -/
theorem decode_eq_unlinked (processors : Nat) (codes : Array Code) (requested : Int) :
    decode processors codes requested none
      = .ok (Program.unlinked (codes.toList.map Code.kind)) := by
  show Except.ok _ = Except.ok _
  congr 1
  rw [flatMap_writesOf, firstPlace_workers codes.size (workerCount_pos processors requested _)]
  apply Array.ext_getElem?
  intro i
  by_cases hi : i < codes.size
  · rw [getElem?_foldl_apply codes _ _ _ (by simpa [blank] using hi), if_pos hi,
      Program.getElem?_unlinked]
    simp [decoded, hi]
  · rw [Array.getElem?_eq_none (by simpa [size_foldl_apply, blank] using hi),
      Array.getElem?_eq_none (by simpa [Program.size_unlinked] using hi)]

/-- No program comes of decoding that was called off. -/
theorem decode_done (processors : Nat) (codes : Array Code) (requested : Int) (f : Failure) :
    decode processors codes requested (some f) = .error f := rfl

end Decoding

end Tetraglyph
