/-
  Tetraglyph.Proofs.Stack.Rotation
  ────────────────────────────────
  **ROTATIONS OF A STACK.**

  A rotation takes a value at one end of the ring buffer and puts it back at
  the other.  Seen from the values, the list from bottom to top turns in a
  circle.  Seen from the slots, the window moves by one place and the head
  goes round and round.  The pop comes before the push, so there is always
  room for the push: a full buffer does not grow either.

  A TURN by `d` places is a rotation of the list to the left by `d`.  A
  reverse rotation turns by 1, a rotation by one less than there are values,
  and turns add up.

      Ring.Fits     — any layout: a head, and no more values than slots
      Ring.Turned   — as many slots, with the values turned
      Turns         — an operation that turns

  Main results

      turned_backToFront, turned_frontToBack   — one turn, place by place
      Turned.trans                             — turns add up
      Turns.foldlM                             — any number of turns one way
      Turns.foldlM_back                        — and as many back
      rotations_turn                           — the laws of rotations
-/
import Mathlib.Data.List.Rotate
import Tetraglyph.Proofs.Stack

namespace Tetraglyph

/-! ## §1. Turning a ring buffer. -/

namespace Ring

variable {α : Type} [Inhabited α]

/-- The values lie inside the slots, wherever the head is and however many
slots are free, whatever is in these. -/
def Fits (r : Ring α) : Prop := r.count ≤ r.slots.size ∧ r.head < r.slots.size

/-- A buffer with as many slots and the same values, turned to the left by
`d` places. -/
structure Turned (d : Nat) (r r' : Ring α) : Prop where
  /-- The values lie inside the slots. -/
  fits : r'.Fits
  /-- The values are turned. -/
  toList_eq : r'.toList = r.toList.rotate d
  /-- There are as many slots. -/
  capacity_eq : r'.capacity = r.capacity

theorem Turned.count_eq {d : Nat} {r r' : Ring α} (h : Turned d r r') : r'.count = r.count := by
  rw [← length_toList, h.toList_eq, List.length_rotate, length_toList]

theorem turned_refl {r : Ring α} (h : r.Fits) : Turned 0 r r :=
  ⟨h, (List.rotate_zero _).symm, rfl⟩

/-- **Turns add up.** -/
theorem Turned.trans {d e : Nat} {r r' r'' : Ring α} (h : Turned d r r') (h' : Turned e r' r'') :
    Turned (d + e) r r'' := by
  refine ⟨h'.fits, ?_, h'.capacity_eq.trans h.capacity_eq⟩
  rw [h'.toList_eq, h.toList_eq, List.rotate_rotate]

/-- Only the sum of the turns around the circle counts. -/
theorem Turned.toList_of_mod {d e : Nat} {r r' : Ring α} (h : Turned d r r')
    (hmod : d ≡ e [MOD r.count]) : r'.toList = r.toList.rotate e := by
  have hmod : d % r.toList.length = e % r.toList.length := by
    rw [length_toList]
    exact hmod
  rw [h.toList_eq, ← List.rotate_mod, hmod, List.rotate_mod]

/-- The values are turned if every place holds what was `d` places after it. -/
theorem toList_turned {d : Nat} {r r' : Ring α} (hcount : r'.count = r.count)
    (hpeek : ∀ j, j < r.count → r'.peek j = r.peek ((j + d) % r.count)) :
    r'.toList = r.toList.rotate d := by
  apply List.ext_getElem?
  intro j
  by_cases hj : j < r.count
  · have hmod : (j + d) % r.count < r.count := Nat.mod_lt _ (by omega)
    rw [getElem?_toList, if_pos (by omega), hpeek j hj,
      List.getElem?_rotate (by rw [length_toList]; exact hj), length_toList, getElem?_toList,
      if_pos hmod]
  · rw [List.getElem?_eq_none (by rw [length_toList]; omega),
      List.getElem?_eq_none (by rw [List.length_rotate, length_toList]; omega)]

section

variable {r : Ring α} (h : r.Fits) (hcount : 0 < r.count)

include h hcount

/-- **The value at the back goes to the front.** -/
theorem turned_backToFront :
    Turned (r.count - 1) r (r.withoutBack.pushFront (r.peek (r.count - 1))) := by
  obtain ⟨hle, hhead⟩ := h
  -- the place which the pop leaves is room for the push
  have hsize := r.size_withoutBack
  have hroom : r.withoutBack.count < r.withoutBack.slots.size := by
    show r.count - 1 < _
    omega
  have hslots : (r.withoutBack.pushFront (r.peek (r.count - 1))).slots.size = r.slots.size := by
    rw [size_pushFront, grow_of_room hroom, hsize]
  have hkeeps : (r.withoutBack.pushFront (r.peek (r.count - 1))).count = r.count := by
    rw [count_pushFront]
    show r.count - 1 + 1 = r.count
    omega
  refine ⟨⟨by omega, ?_⟩, toList_turned hkeeps ?_, hslots⟩
  · rw [hslots, pushFront_of_room hroom, ← hsize]
    exact slot_lt _ (by omega)
  · intro j hj
    rw [peek_pushFront hroom _ (by omega)]
    by_cases hj0 : j = 0
    · rw [if_pos hj0, hj0, Nat.zero_add, Nat.mod_eq_of_lt (by omega)]
    · rw [if_neg hj0, peek_withoutBack hcount hle (by omega), if_neg (by omega),
        show j + (r.count - 1) = j - 1 + r.count by omega, Nat.add_mod_right,
        Nat.mod_eq_of_lt (by omega)]

/-- **The value at the front goes to the back.** -/
theorem turned_frontToBack : Turned 1 r (r.withoutFront.pushBack (r.peek 0)) := by
  obtain ⟨hle, hhead⟩ := h
  have hsize := r.size_withoutFront
  have hroom : r.withoutFront.count < r.withoutFront.slots.size := by
    show r.count - 1 < _
    omega
  have hslots : (r.withoutFront.pushBack (r.peek 0)).slots.size = r.slots.size := by
    rw [size_pushBack, grow_of_room hroom, hsize]
  have hkeeps : (r.withoutFront.pushBack (r.peek 0)).count = r.count := by
    rw [count_pushBack]
    show r.count - 1 + 1 = r.count
    omega
  refine ⟨⟨by omega, ?_⟩, toList_turned hkeeps ?_, hslots⟩
  · rw [hslots, pushBack_of_room hroom]
    exact slot_lt 1 (by omega)
  · intro j hj
    rw [peek_pushBack hroom _ (by omega)]
    show (if j = r.count - 1 then _ else _) = _
    by_cases hlast : j = r.count - 1
    · rw [if_pos hlast, show j + 1 = r.count by omega, Nat.mod_self]
    · rw [if_neg hlast, peek_withoutFront (by omega), if_neg (by omega),
        Nat.mod_eq_of_lt (by omega)]

end

end Ring

namespace Stack

/-! ## §2. Rotations of a stack. -/

/-- An operation which turns every stack that holds `n` values, with `n` not
0, by `d n` places. -/
def Turns (op : Stack → Int → Except Failure Stack) (d : Nat → Nat) : Prop :=
  ∀ s : Stack, s.ring.Fits → 0 < s.size → ∀ id,
    ∃ s', op s id = .ok s' ∧ Ring.Turned (d s.size) s.ring s'.ring

/-- **A rotation** turns by one less than there are values. -/
theorem rotate_turns : Turns rotate fun n => n - 1 := by
  intro s h hsize id
  refine ⟨⟨s.ring.withoutBack.pushFront (s.ring.peek (s.ring.count - 1))⟩, ?_,
    Ring.turned_backToFront h hsize⟩
  unfold rotate take
  rw [Ring.popBack?_eq hsize]
  rfl

/-- **A reverse rotation** turns by one. -/
theorem reverseRotate_turns : Turns reverseRotate fun _ => 1 := by
  intro s h hsize id
  refine ⟨⟨s.ring.withoutFront.pushBack (s.ring.peek 0)⟩, ?_, Ring.turned_frontToBack h hsize⟩
  unfold reverseRotate
  rw [Ring.popFront?_eq hsize h.2]

section

variable {op back : Stack → Int → Except Failure Stack} {d e : Nat → Nat}

/-- **Any number of turns one way**, asked for by the instructions with these
ids. -/
theorem Turns.foldlM (hop : Turns op d) (ids : List Int) {s : Stack} (h : s.ring.Fits)
    (hsize : 0 < s.size) :
    ∃ s', ids.foldlM op s = .ok s' ∧ Ring.Turned (ids.length * d s.size) s.ring s'.ring := by
  induction ids generalizing s with
  | nil =>
      rw [List.length_nil, Nat.zero_mul]
      exact ⟨s, rfl, Ring.turned_refl h⟩
  | cons id ids ih =>
      obtain ⟨s₁, hs₁, hturn₁⟩ := hop s h hsize id
      have hkeeps : s₁.size = s.size := hturn₁.count_eq
      obtain ⟨s₂, hs₂, hturn₂⟩ := ih hturn₁.fits (by omega)
      refine ⟨s₂, ?_, ?_⟩
      · rw [List.foldlM_cons, hs₁]
        exact hs₂
      · rw [List.length_cons, Nat.succ_mul, Nat.add_comm]
        rw [hkeeps] at hturn₂
        exact hturn₁.trans hturn₂

/-- **As many turns back**, if one there and one back go round the circle. -/
theorem Turns.foldlM_back (hop : Turns op d) (hback : Turns back e)
    (hround : ∀ n, 0 < n → d n + e n = n) (ids : List Int) {ids' : List Int}
    (hlen : ids'.length = ids.length) {s : Stack} (h : s.ring.Fits) (hsize : 0 < s.size) :
    ∃ s' s'', ids.foldlM op s = .ok s' ∧
      Ring.Turned (ids.length * d s.size) s.ring s'.ring ∧
      ids'.foldlM back s' = .ok s'' ∧ s''.values = s.values ∧
      s''.ring.capacity = s.ring.capacity := by
  obtain ⟨s₁, hs₁, hturn₁⟩ := hop.foldlM ids h hsize
  have hkeeps : s₁.size = s.size := hturn₁.count_eq
  obtain ⟨s₂, hs₂, hturn₂⟩ := hback.foldlM ids' hturn₁.fits (by omega)
  rw [hlen, hkeeps] at hturn₂
  have hturn := hturn₁.trans hturn₂
  refine ⟨s₁, s₂, hs₁, hturn₁, hs₂, ?_, hturn.capacity_eq⟩
  -- so many times around the circle is nowhere
  have hcircle : ids.length * d s.size + ids.length * e s.size ≡ 0 [MOD s.ring.count] := by
    rw [← Nat.mul_add, hround s.size hsize]
    exact Nat.modEq_zero_iff_dvd.2 (Nat.dvd_mul_left s.size _)
  exact (hturn.toList_of_mod hcircle).trans (List.rotate_zero _)

end

/-! ## §3. The laws. -/

/-- So many rotations are a turn to the right. -/
theorem turns_right {n : Nat} (hn : 0 < n) (k : Nat) : k * (n - 1) ≡ n - k % n [MOD n] := by
  apply Nat.ModEq.add_right_cancel' k
  have hlt := Nat.mod_lt k hn
  calc k * (n - 1) + k = k * n := by
        rw [← Nat.mul_succ, Nat.succ_eq_add_one, Nat.sub_add_cancel hn]
    _ ≡ 0 [MOD n] := Nat.modEq_zero_iff_dvd.2 (Nat.dvd_mul_left n k)
    _ ≡ n - k % n + k % n [MOD n] := by
        rw [Nat.sub_add_cancel hlt.le]
        exact (Nat.modEq_zero_iff_dvd.2 (Nat.dvd_refl n)).symm
    _ ≡ n - k % n + k [MOD n] := Nat.ModEq.add_left _ (Nat.mod_modEq k n)

/-- **The laws of rotations.**  Take a stack that holds some values, in a
buffer with its head anywhere and full or not.  Rotated any number `k` of
times it holds the values turned to the right by `k` modulo their number, and
reverse rotated so often, turned to the left by that.  As many reverse
rotations behind the rotations, or the other way round, bring the values back,
and so do as many rotations as there are values.  Behind all of these the
buffer has as many slots as before. -/
theorem rotations_turn {s : Stack} (hs : s.ring.Fits) (hne : s.values ≠ []) (ids ids' : List Int)
    (hlen : ids'.length = ids.length) :
    let n := s.values.length
    let k := ids.length
    (∃ s' s'', ids.foldlM rotate s = .ok s' ∧
      s'.values = s.values.drop (n - k % n) ++ s.values.take (n - k % n) ∧
      (k = n → s'.values = s.values) ∧ s'.ring.capacity = s.ring.capacity ∧
      ids'.foldlM reverseRotate s' = .ok s'' ∧ s''.values = s.values ∧
      s''.ring.capacity = s.ring.capacity) ∧
    (∃ s' s'', ids.foldlM reverseRotate s = .ok s' ∧
      s'.values = s.values.drop (k % n) ++ s.values.take (k % n) ∧
      s'.ring.capacity = s.ring.capacity ∧
      ids'.foldlM rotate s' = .ok s'' ∧ s''.values = s.values ∧
      s''.ring.capacity = s.ring.capacity) := by
  intro n k
  have hn : 0 < n := List.length_pos_iff.2 hne
  have hcount : s.ring.count = n := (Ring.length_toList s.ring).symm
  have hsize : 0 < s.size := by
    show 0 < s.ring.count
    omega
  constructor
  · obtain ⟨s', s'', hs', hturn, hs'', hvalues, hcapacity⟩ :=
      rotate_turns.foldlM_back reverseRotate_turns (fun n hn => Nat.sub_add_cancel hn) ids hlen hs
        hsize
    have hright : s'.values = s.values.rotate (n - k % n) := by
      refine hturn.toList_of_mod ?_
      rw [hcount]
      show k * (s.ring.count - 1) ≡ _ [MOD n]
      rw [hcount]
      exact turns_right hn k
    refine ⟨s', s'', hs', ?_, fun hk => ?_, hturn.capacity_eq, hs'', hvalues, hcapacity⟩
    · rw [hright, List.rotate_eq_drop_append_take (Nat.sub_le _ _)]
    · rw [hright, hk, Nat.mod_self]
      exact List.rotate_length _
  · obtain ⟨s', s'', hs', hturn, hs'', hvalues, hcapacity⟩ :=
      reverseRotate_turns.foldlM_back rotate_turns (fun n hn => Nat.add_sub_cancel' hn) ids hlen hs
        hsize
    refine ⟨s', s'', hs', ?_, hturn.capacity_eq, hs'', hvalues, hcapacity⟩
    rw [← List.rotate_eq_drop_append_take (Nat.mod_lt k hn).le]
    refine hturn.toList_of_mod ?_
    rw [hcount, Nat.mul_one]
    exact (Nat.mod_modEq k n).symm

/-- Three values in three slots, the first of them in the last slot: four
rotations bring the topmost value down, and four reverse rotations bring it
back up. -/
theorem rotations_turn_full :
    let a := Numeral.zero
    let b := Numeral.one
    let c := Numeral.one.negate
    let s : Stack := ⟨⟨#[b, c, a], 2, 3⟩⟩
    s.ring.Fits ∧ s.ring.count = s.ring.capacity ∧ s.values = [a, b, c] ∧
      ∃ s' s'', [4, 4, 4, 4].foldlM rotate s = .ok s' ∧ s'.values = [c, a, b] ∧
        s'.ring.capacity = 3 ∧ [5, 5, 5, 5].foldlM reverseRotate s' = .ok s'' ∧
        s''.values = [a, b, c] ∧ s''.ring.capacity = 3 := by
  intro a b c s
  have hfits : s.ring.Fits := ⟨by decide, by decide⟩
  have hvalues : s.values = [a, b, c] := by decide +kernel
  obtain ⟨⟨s', s'', hs', hdown, _, hcap', hs'', hup, hcap''⟩, _⟩ :=
    rotations_turn hfits (by rw [hvalues]; simp) [4, 4, 4, 4] [5, 5, 5, 5] rfl
  rw [hvalues] at hdown hup
  simp only [List.length_cons, List.length_nil] at hdown
  exact ⟨hfits, rfl, hvalues, s', s'', hs', hdown, hcap', hs'', hup, hcap''⟩

end Stack

end Tetraglyph
