/-
  Tetraglyph.Proofs.Ring
  ──────────────────────
  **A RING BUFFER IS A QUEUE WITH TWO ENDS.**

  The window of a buffer may start at any slot and wrap around the end.  All
  there is to know about that is that different places of the window are
  different slots, and that the place `k + i` of a buffer is the place `i`
  of the buffer whose head is moved by `k`.  Everything else is said about
  places: a write changes one place, a move of the head renumbers them.

  Main results

      peek_store                       — a write changes one place
      slot_moved                       — a move of the head renumbers
      grow_spec                        — growing makes room and changes nothing
      peek_pushBack, peek_pushFront    — a push where there is room, place by place
      peek_withoutBack, peek_withoutFront
                                       — what a pop leaves, place by place
      pushBack_spec, pushFront_spec    — a push adds at its end
      popBack?_spec, popFront?_spec    — a pop takes from its end
      store_spec                       — a write replaces a value
-/
import Mathlib.Data.Nat.ModEq
import Mathlib.Data.List.Basic
import Tetraglyph.Ring

namespace Tetraglyph

namespace Ring

variable {α : Type}

/-! ## §1. Places and slots. -/

/-- The buffer with another value `i` places after the front. -/
def store (r : Ring α) (i : Nat) (v : α) : Ring α :=
  { r with slots := r.slots.setIfInBounds (r.slot i) v }

theorem slot_lt {r : Ring α} (i : Nat) (h : 0 < r.slots.size) : r.slot i < r.slots.size :=
  Nat.mod_lt _ h

/-- Different places are different slots. -/
theorem slot_inj {r : Ring α} {i j : Nat} (hi : i < r.slots.size) (hj : j < r.slots.size) :
    r.slot i = r.slot j ↔ i = j := by
  constructor
  · intro h
    have hmod : r.head + i ≡ r.head + j [MOD r.slots.size] := h
    exact (Nat.ModEq.add_left_cancel' r.head hmod).eq_of_lt_of_lt hi hj
  · intro h
    rw [h]

/-- **A move of the head renumbers the places.** -/
theorem slot_moved (r : Ring α) {slots : Array α} (hsize : slots.size = r.slots.size)
    (k count j : Nat) : (⟨slots, r.slot k, count⟩ : Ring α).slot j = r.slot (k + j) := by
  show ((r.head + k) % r.slots.size + j) % slots.size = (r.head + (k + j)) % r.slots.size
  rw [hsize, Nat.mod_add_mod, Nat.add_assoc]

/-- Places repeat after one round. -/
theorem slot_round (r : Ring α) (j : Nat) : r.slot (j + r.slots.size) = r.slot j := by
  show (r.head + (j + r.slots.size)) % r.slots.size = (r.head + j) % r.slots.size
  rw [← Nat.add_assoc, Nat.add_mod_right]

variable [Inhabited α]

/-- **A write changes one place.** -/
theorem peek_store {r : Ring α} {i j : Nat} (v : α) (hi : i < r.slots.size)
    (hj : j < r.slots.size) :
    (r.store i v).peek j = if j = i then v else r.peek j := by
  have hsize : (r.store i v).slots.size = r.slots.size := Array.size_setIfInBounds
  have hslot : (r.store i v).slot j = r.slot j := by
    unfold slot
    rw [hsize]
    rfl
  unfold peek
  rw [hslot, Array.getD_eq_getD_getElem?, Array.getD_eq_getD_getElem?]
  show ((r.slots.setIfInBounds (r.slot i) v)[r.slot j]?).getD default = _
  rw [Array.getElem?_setIfInBounds]
  by_cases h : j = i
  · subst h
    rw [if_pos rfl, if_pos (slot_lt j (by omega)), if_pos rfl]
    rfl
  · have hne : r.slot i ≠ r.slot j := fun hs => h ((slot_inj hi hj).1 hs).symm
    rw [if_neg hne, if_neg h]

theorem peek_moved (r : Ring α) (k count j : Nat) :
    (⟨r.slots, r.slot k, count⟩ : Ring α).peek j = r.peek (k + j) := by
  unfold peek
  rw [slot_moved r rfl]

theorem peek_round (r : Ring α) (j : Nat) : r.peek (j + r.slots.size) = r.peek j := by
  unfold peek
  rw [slot_round]

/-! ## §2. The view. -/

theorem length_toList (r : Ring α) : r.toList.length = r.count := by simp [toList]

theorem getElem?_toList (r : Ring α) (i : Nat) :
    r.toList[i]? = if i < r.count then some (r.peek i) else none := by
  unfold toList
  rw [List.getElem?_map]
  split
  next h => rw [List.getElem?_range h]; rfl
  next h => rw [List.getElem?_eq_none (by rw [List.length_range]; omega)]; rfl

/-- Two buffers with the same values in the same places. -/
theorem toList_congr {r r' : Ring α} (hcount : r.count = r'.count)
    (hpeek : ∀ i, i < r.count → r.peek i = r'.peek i) : r.toList = r'.toList := by
  unfold toList
  rw [← hcount]
  exact List.map_congr_left fun i hi => hpeek i (List.mem_range.1 hi)

theorem toList_eq_nil_iff (r : Ring α) : r.toList = [] ↔ r.count = 0 := by
  rw [← List.length_eq_zero_iff, length_toList]

theorem valid_withSlots (n : Nat) : (withSlots n : Ring α).Valid := by
  refine ⟨Nat.zero_le _, ?_, ?_⟩
  · show 0 < (Array.replicate n (default : α)).size ∨
      (Array.replicate n (default : α)).size = 0 ∧ 0 = 0
    omega
  · intro i _ _
    unfold peek withSlots
    rw [Array.getD_eq_getD_getElem?, Array.getElem?_replicate]
    split <;> rfl

theorem Valid.head_lt {r : Ring α} (h : r.Valid) (hpos : 0 < r.slots.size) :
    r.head < r.slots.size := by
  rcases h.2.1 with hlt | ⟨h0, _⟩
  · exact hlt
  · omega

/-! ## §3. Pushing. -/

theorem size_grown (f : Nat → α) (m n : Nat) :
    ((Array.range m).map f ++ Array.replicate n default).size = m + n := by
  rw [Array.size_append, Array.size_map, Array.size_range, Array.size_replicate]

/-- The slots of a buffer that has grown: the values, then free slots. -/
theorem peek_grown (f : Nat → α) (m n j : Nat) :
    (⟨(Array.range m).map f ++ Array.replicate n default, 0, m⟩ : Ring α).peek j
      = if j % (m + n) < m then f (j % (m + n)) else default := by
  unfold peek slot
  dsimp only
  rw [size_grown, Nat.zero_add, Array.getD_eq_getD_getElem?, Array.getElem?_append, Array.size_map,
    Array.size_range]
  split
  next h =>
      rw [Array.getElem?_map, Array.getElem?_range, if_pos h]
      rfl
  next =>
      rw [Array.getElem?_replicate]
      split <;> rfl

/-- **Growing makes room and changes nothing.** -/
theorem grow_spec {r : Ring α} (h : r.Valid) :
    r.grow.Valid ∧ r.grow.toList = r.toList ∧ r.grow.count = r.count ∧
      r.grow.count < r.grow.slots.size := by
  unfold grow
  split
  next hroom => exact ⟨h, rfl, rfl, hroom⟩
  next hfull =>
      -- a full buffer: the values go to the front of a larger one, all behind is free
      dsimp only
      have hcount : r.count = r.slots.size := by
        have := h.1
        omega
      generalize hn : (if r.slots.size = 0 then 8 else 2 * r.slots.size) - r.count = n
      have hpos : 0 < n := by
        split at hn <;> omega
      have hsize := size_grown r.peek r.count n
      refine ⟨⟨?_, ?_, ?_⟩, ?_, rfl, ?_⟩
      · show r.count ≤ ((Array.range r.count).map r.peek ++ Array.replicate n default).size
        omega
      · show 0 < ((Array.range r.count).map r.peek ++ Array.replicate n default).size ∨ _
        omega
      · intro i hi hlt
        have hlt : i < r.count + n := by
          rw [← hsize]
          exact hlt
        rw [peek_grown, Nat.mod_eq_of_lt hlt, if_neg (Nat.not_lt.2 hi)]
      · apply toList_congr
        · rfl
        · intro i hi
          have hi : i < r.count := hi
          rw [peek_grown, Nat.mod_eq_of_lt (by omega), if_pos hi]
      · show r.count < ((Array.range r.count).map r.peek ++ Array.replicate n default).size
        omega

theorem grow_of_room {r : Ring α} (hroom : r.count < r.slots.size) : r.grow = r := by
  unfold grow
  rw [if_pos hroom]

theorem count_grow (r : Ring α) : r.grow.count = r.count := by
  unfold grow
  split <;> rfl

theorem count_pushBack (r : Ring α) (v : α) : (r.pushBack v).count = r.count + 1 :=
  congrArg (· + 1) r.count_grow

theorem count_pushFront (r : Ring α) (v : α) : (r.pushFront v).count = r.count + 1 :=
  congrArg (· + 1) r.count_grow

theorem size_pushBack (r : Ring α) (v : α) : (r.pushBack v).slots.size = r.grow.slots.size :=
  Array.size_setIfInBounds

theorem size_pushFront (r : Ring α) (v : α) : (r.pushFront v).slots.size = r.grow.slots.size :=
  Array.size_setIfInBounds

/-- Where there is room, a push at the back writes the first free place. -/
theorem pushBack_of_room {r : Ring α} (hroom : r.count < r.slots.size) (v : α) :
    r.pushBack v = { r.store r.count v with count := r.count + 1 } := by
  unfold pushBack
  rw [grow_of_room hroom]
  rfl

theorem peek_pushBack {r : Ring α} (hroom : r.count < r.slots.size) (v : α) {j : Nat}
    (hj : j < r.slots.size) :
    (r.pushBack v).peek j = if j = r.count then v else r.peek j := by
  rw [pushBack_of_room hroom]
  exact peek_store v hroom hj

/-- Where there is room, a push at the front moves the head back by one and
writes the new first place. -/
theorem pushFront_of_room {r : Ring α} (hroom : r.count < r.slots.size) (v : α) :
    r.pushFront v
      = (⟨r.slots, r.slot (r.slots.size - 1), r.count + 1⟩ : Ring α).store 0 v := by
  unfold pushFront store
  rw [grow_of_room hroom, slot_moved r rfl]
  rfl

theorem peek_pushFront {r : Ring α} (hroom : r.count < r.slots.size) (v : α) {j : Nat}
    (hj : j < r.slots.size) :
    (r.pushFront v).peek j = if j = 0 then v else r.peek (j - 1) := by
  have hpos : 0 < r.slots.size := by omega
  rw [pushFront_of_room hroom,
    peek_store (r := ⟨r.slots, r.slot (r.slots.size - 1), r.count + 1⟩) v hpos hj]
  by_cases h : j = 0
  · rw [if_pos h, if_pos h]
  · rw [if_neg h, if_neg h, peek_moved,
      show r.slots.size - 1 + j = j - 1 + r.slots.size by omega, peek_round]

/-- **A push at the back.** -/
theorem pushBack_spec {r : Ring α} (h : r.Valid) (v : α) :
    (r.pushBack v).Valid ∧ (r.pushBack v).toList = r.toList ++ [v] := by
  obtain ⟨hg, hlist, _, hroom⟩ := grow_spec h
  have hgrown : r.pushBack v = r.grow.pushBack v := by
    unfold pushBack
    rw [grow_of_room hroom]
  rw [← hlist, hgrown]
  generalize r.grow = g at hg hroom
  have hcount := g.count_pushBack v
  have hhead : (g.pushBack v).head = g.head := by
    rw [pushBack_of_room hroom]
    rfl
  have hsize : (g.pushBack v).slots.size = g.slots.size := by
    rw [size_pushBack, grow_of_room hroom]
  refine ⟨⟨?_, ?_, ?_⟩, ?_⟩
  · omega
  · rw [hhead, hsize]
    exact .inl (hg.head_lt (by omega))
  · intro i hi hlt
    rw [hcount] at hi
    rw [hsize] at hlt
    rw [peek_pushBack hroom v hlt, if_neg (by omega)]
    exact hg.2.2 i (by omega) hlt
  · unfold toList
    rw [hcount, List.range_succ, List.map_append, List.map_singleton,
      peek_pushBack hroom v hroom, if_pos rfl]
    congr 1
    refine List.map_congr_left fun i hi => ?_
    have hi := List.mem_range.1 hi
    rw [peek_pushBack hroom v (by omega), if_neg (by omega)]

/-- **A push at the front.** -/
theorem pushFront_spec {r : Ring α} (h : r.Valid) (v : α) :
    (r.pushFront v).Valid ∧ (r.pushFront v).toList = v :: r.toList := by
  obtain ⟨hg, hlist, _, hroom⟩ := grow_spec h
  have hgrown : r.pushFront v = r.grow.pushFront v := by
    unfold pushFront
    rw [grow_of_room hroom]
  rw [← hlist, hgrown]
  generalize r.grow = g at hg hroom
  have hcount := g.count_pushFront v
  have hhead : (g.pushFront v).head = g.slot (g.slots.size - 1) := by
    rw [pushFront_of_room hroom]
    rfl
  have hsize : (g.pushFront v).slots.size = g.slots.size := by
    rw [size_pushFront, grow_of_room hroom]
  refine ⟨⟨?_, ?_, ?_⟩, ?_⟩
  · omega
  · rw [hhead, hsize]
    exact .inl (slot_lt _ (by omega))
  · intro i hi hlt
    rw [hcount] at hi
    rw [hsize] at hlt
    rw [peek_pushFront hroom v hlt, if_neg (by omega)]
    exact hg.2.2 (i - 1) (by omega) (by omega)
  · unfold toList
    rw [hcount, List.range_succ_eq_map, List.map_cons, peek_pushFront hroom v (by omega),
      if_pos rfl, List.map_map]
    congr 1
    refine List.map_congr_left fun i hi => ?_
    have hi := List.mem_range.1 hi
    show (g.pushFront v).peek (i + 1) = g.peek i
    rw [peek_pushFront hroom v (by omega), if_neg (by omega)]
    rfl

/-! ## §4. Popping and replacing. -/

theorem popBack?_nil {r : Ring α} (h : r.toList = []) : ∃ e, r.popBack? = .error e := by
  have hcount := (toList_eq_nil_iff r).1 h
  unfold popBack? at?
  rw [hcount]
  exact ⟨_, rfl⟩

/-- What is left by a pop at the back: the last place is cleared, and is free
from now on. -/
def withoutBack (r : Ring α) : Ring α :=
  { r.store (r.count - 1) default with count := r.count - 1 }

theorem popBack?_eq {r : Ring α} (hcount : 0 < r.count) :
    r.popBack? = .ok (r.peek (r.count - 1), r.withoutBack) := by
  have hat : r.at? ((r.count : Int) - 1) = .ok (r.peek (r.count - 1)) := by
    unfold at?
    rw [if_neg (by omega), show ((r.count : Int) - 1).toNat = r.count - 1 by omega]
  unfold popBack?
  rw [hat]
  rfl

theorem size_withoutBack (r : Ring α) : r.withoutBack.slots.size = r.slots.size :=
  Array.size_setIfInBounds

theorem peek_withoutBack {r : Ring α} (hcount : 0 < r.count) (hle : r.count ≤ r.slots.size)
    {j : Nat} (hj : j < r.slots.size) :
    r.withoutBack.peek j = if j = r.count - 1 then default else r.peek j :=
  peek_store default (show r.count - 1 < r.slots.size by omega) hj

/-- **A pop at the back.** -/
theorem popBack?_spec {r : Ring α} (h : r.Valid) (hne : r.toList ≠ []) :
    ∃ v r', r.popBack? = .ok (v, r') ∧ r'.Valid ∧ r.toList = r'.toList ++ [v] := by
  have hcount : 0 < r.count := Nat.pos_of_ne_zero fun h0 => hne ((toList_eq_nil_iff r).2 h0)
  have hle := h.1
  have hsize := r.size_withoutBack
  refine ⟨r.peek (r.count - 1), r.withoutBack, popBack?_eq hcount, ⟨?_, ?_, ?_⟩, ?_⟩
  · show r.count - 1 ≤ r.withoutBack.slots.size
    omega
  · show r.head < r.withoutBack.slots.size ∨ _
    rw [hsize]
    exact .inl (h.head_lt (by omega))
  · intro i hi hlt
    have hi : r.count - 1 ≤ i := hi
    rw [hsize] at hlt
    rw [peek_withoutBack hcount hle hlt]
    split
    next => rfl
    next => exact h.2.2 i (by omega) hlt
  · show (List.range r.count).map r.peek
      = (List.range (r.count - 1)).map r.withoutBack.peek ++ _
    obtain ⟨n, hn⟩ : ∃ n, r.count = n + 1 := ⟨r.count - 1, by omega⟩
    rw [hn, List.range_succ, List.map_append, List.map_singleton]
    congr 1
    refine List.map_congr_left fun i hi => ?_
    have hi := List.mem_range.1 hi
    rw [peek_withoutBack hcount hle (by omega), if_neg (by omega)]

theorem popFront?_nil {r : Ring α} (h : r.toList = []) : ∃ e, r.popFront? = .error e := by
  have hcount := (toList_eq_nil_iff r).1 h
  unfold popFront? at?
  rw [hcount]
  exact ⟨_, rfl⟩

/-- What is left by a pop at the front: the head moves on, and the place that
it leaves, which is cleared, is the last one now. -/
def withoutFront (r : Ring α) : Ring α :=
  (⟨r.slots, r.slot 1, r.count - 1⟩ : Ring α).store (r.slots.size - 1) default

theorem popFront?_eq {r : Ring α} (hcount : 0 < r.count) (hhead : r.head < r.slots.size) :
    r.popFront? = .ok (r.peek 0, r.withoutFront) := by
  have hat : r.at? 0 = .ok (r.peek 0) := by
    unfold at?
    rw [if_neg (by omega)]
    rfl
  have hleft : (⟨r.slots.setIfInBounds r.head default, r.slot 1, r.count - 1⟩ : Ring α)
      = r.withoutFront := by
    unfold withoutFront store
    rw [slot_moved r rfl, show 1 + (r.slots.size - 1) = 0 + r.slots.size by omega, slot_round]
    show (⟨_, _, _⟩ : Ring α) = ⟨r.slots.setIfInBounds (r.head % r.slots.size) default, _, _⟩
    rw [Nat.mod_eq_of_lt hhead]
  unfold popFront?
  rw [hat, ← hleft]

theorem size_withoutFront (r : Ring α) : r.withoutFront.slots.size = r.slots.size :=
  Array.size_setIfInBounds

theorem peek_withoutFront {r : Ring α} {j : Nat} (hj : j < r.slots.size) :
    r.withoutFront.peek j = if j = r.slots.size - 1 then default else r.peek (j + 1) := by
  have hlast : r.slots.size - 1 < r.slots.size := by omega
  unfold withoutFront
  rw [peek_store (r := ⟨r.slots, r.slot 1, r.count - 1⟩) default hlast hj, peek_moved,
    Nat.add_comm]

/-- **A pop at the front.** -/
theorem popFront?_spec {r : Ring α} (h : r.Valid) (hne : r.toList ≠ []) :
    ∃ v r', r.popFront? = .ok (v, r') ∧ r'.Valid ∧ r.toList = v :: r'.toList := by
  have hcount : 0 < r.count := Nat.pos_of_ne_zero fun h0 => hne ((toList_eq_nil_iff r).2 h0)
  have hle := h.1
  have hsize := r.size_withoutFront
  refine ⟨r.peek 0, r.withoutFront, popFront?_eq hcount (h.head_lt (by omega)), ⟨?_, ?_, ?_⟩, ?_⟩
  · show r.count - 1 ≤ r.withoutFront.slots.size
    omega
  · left
    rw [hsize]
    exact slot_lt 1 (by omega)
  · intro i hi hlt
    have hi : r.count - 1 ≤ i := hi
    rw [hsize] at hlt
    rw [peek_withoutFront hlt]
    split
    next => rfl
    next => exact h.2.2 (i + 1) (by omega) (by omega)
  · show (List.range r.count).map r.peek
      = _ :: (List.range (r.count - 1)).map r.withoutFront.peek
    obtain ⟨n, hn⟩ : ∃ n, r.count = n + 1 := ⟨r.count - 1, by omega⟩
    rw [hn, List.range_succ_eq_map, List.map_cons, List.map_map]
    congr 1
    refine List.map_congr_left fun i hi => ?_
    have hi := List.mem_range.1 hi
    show r.peek (i + 1) = r.withoutFront.peek i
    rw [peek_withoutFront (by omega), if_neg (by omega)]

/-- **A write replaces a value.** -/
theorem store_spec {r : Ring α} (h : r.Valid) {i : Nat} (hi : i < r.count) (v : α) :
    (r.store i v).Valid ∧ (r.store i v).toList = r.toList.set i v := by
  have hle := h.1
  have hsize : (r.store i v).slots.size = r.slots.size := Array.size_setIfInBounds
  have hpeek : ∀ j, j < r.slots.size → (r.store i v).peek j = if j = i then v else r.peek j :=
    fun j hj => peek_store v (by omega) hj
  refine ⟨⟨?_, ?_, ?_⟩, ?_⟩
  · rw [hsize]
    exact hle
  · rw [hsize]
    exact h.2.1
  · intro j hj hlt
    have hj : r.count ≤ j := hj
    rw [hsize] at hlt
    rw [hpeek j hlt, if_neg (by omega)]
    exact h.2.2 j hj hlt
  · apply List.ext_getElem?
    intro j
    rw [getElem?_toList, List.getElem?_set, getElem?_toList, length_toList]
    show (if j < r.count then some ((r.store i v).peek j) else none) = _
    by_cases hj : j < r.count
    · rw [if_pos hj, hpeek j (by omega)]
      by_cases hji : j = i
      · rw [if_pos hji, if_pos hji.symm, if_pos hi]
      · rw [if_neg hji, if_neg fun h => hji h.symm, if_pos hj]
    · rw [if_neg hj, if_neg (by omega), if_neg hj]

end Ring

end Tetraglyph
