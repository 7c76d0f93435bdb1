/-
  Tetraglyph.Proofs.Ring.Guarded
  ──────────────────────────────
  **NOTHING BREAKS DOWN HALF WAY.**

  The operations of a ring buffer wrap around the number of slots and write
  to slots, and both are total: without slots there is nothing to wrap
  around, and a write to a slot that is not there is lost.  Here they are
  done once more, one statement after the other, and GUARDED: to wrap around
  no slots breaks the work down, and so does a slot that is not there.  What
  was done before a breakdown stays done.

  On a valid buffer no guard is ever hit.  The guarded operations do what
  the operations do, and the only breakdown is the refusal of a place that
  holds no value, before anything was changed.

  Main results

      run_grow                            — growing copies every value
      run_pushBack, run_pushFront         — a push does not break down
      run_valueAt, run_replace            — nor does a place with a value
      run_popBack, run_popFront           — nor a pop, if there is a value
-/
import Tetraglyph.Proofs.Ring

namespace Tetraglyph

namespace Ring.Guarded

variable {α : Type}

/-! ## §1. Statements that can break down. -/

/-- Work on a buffer that can break down half way and then leaves the buffer
as it is at that moment. -/
abbrev Work (α β : Type) := EStateM Misuse (Ring α) β

/-- The slot of a place: there have to be slots to wrap around. -/
def slotOf (i : Nat) : Work α Nat := do
  let r ← get
  if r.slots.size = 0 then throw .outOfRange else return r.slot i

/-- What is in a slot, which has to be there. -/
def load (j : Nat) : Work α α := do
  let r ← get
  match r.slots[j]? with
  | some v => return v
  | none => throw .outOfRange

/-- Writes to a slot, which has to be there. -/
def store (j : Nat) (v : α) : Work α Unit := do
  let r ← get
  if j < r.slots.size then set { r with slots := r.slots.setIfInBounds j v }
  else throw .outOfRange

/-- Refuses a place that holds no value. -/
def check (i : Int) : Work α Unit := do
  let r ← get
  if i < 0 ∨ (r.count : Int) ≤ i then throw (.index i) else return ()

section

variable {r : Ring α}

theorem run_slotOf (h : 0 < r.slots.size) (i : Nat) :
    (slotOf i).run r = .ok (r.slot i) r := by
  unfold slotOf
  rw [EStateM.run_bind, EStateM.run_get]
  dsimp only
  rw [if_neg (Nat.ne_of_gt h)]
  rfl

theorem run_store {j : Nat} (h : j < r.slots.size) (v : α) :
    (store j v).run r = .ok () { r with slots := r.slots.setIfInBounds j v } := by
  simp [store, h]

theorem run_check_of_lt {i : Int} (h : 0 ≤ i ∧ i < r.count) : (check i).run r = .ok () r := by
  simp [check, show ¬ (i < 0 ∨ (r.count : Int) ≤ i) by omega]

theorem run_check_of_not {i : Int} (h : ¬ (0 ≤ i ∧ i < r.count)) :
    (check i).run r = .error (.index i) r := by
  simp [check, show i < 0 ∨ (r.count : Int) ≤ i by omega]

end

variable [Inhabited α]

/-- Reading the slot of a place. -/
theorem run_load_slot {r : Ring α} (h : 0 < r.slots.size) (i : Nat) :
    (load (r.slot i)).run r = .ok (r.peek i) r := by
  have hslot := slot_lt i h
  simp [load, peek, Array.getD, hslot]

/-! ## §2. Operations, one statement after the other. -/

/-- Copies the values at the next `k` places, from place `i` on, to the same
places of new slots. -/
def copy : Nat → Nat → Array α → Work α (Array α)
  | 0, _, slots => return slots
  | k + 1, i, slots => do
    let j ← slotOf i
    let v ← load j
    if i < slots.size then copy k (i + 1) (slots.setIfInBounds i v) else throw .outOfRange

/-- Makes room for one more value. -/
def grow : Work α Unit := do
  let r ← get
  if r.count < r.slots.size then return ()
  else do
    let size := if r.slots.size = 0 then 8 else 2 * r.slots.size
    let slots ← copy r.count 0 (Array.replicate size default)
    modify fun r => { r with slots }
    modify fun r => { r with head := 0 }

/-- Adds a value at the back. -/
def pushBack (v : α) : Work α Unit := do
  grow
  let j ← slotOf (← get).count
  store j v
  modify fun r => { r with count := r.count + 1 }

/-- Adds a value at the front. -/
def pushFront (v : α) : Work α Unit := do
  grow
  let j ← slotOf ((← get).slots.size - 1)
  modify fun r => { r with head := j }
  store j v
  modify fun r => { r with count := r.count + 1 }

/-- The value `i` places after the front. -/
def valueAt (i : Int) : Work α α := do
  check i
  let j ← slotOf i.toNat
  load j

/-- Replaces the value `i` places after the front. -/
def replace (i : Int) (v : α) : Work α Unit := do
  check i
  let j ← slotOf i.toNat
  store j v

/-- Takes the value at the front. -/
def popFront : Work α α := do
  let v ← valueAt 0
  store (← get).head default
  let j ← slotOf 1
  modify fun r => { r with head := j }
  modify fun r => { r with count := r.count - 1 }
  return v

/-- Takes the value at the back. -/
def popBack : Work α α := do
  let v ← valueAt ((← get).count - 1)
  let j ← slotOf ((← get).count - 1)
  store j default
  modify fun r => { r with count := r.count - 1 }
  return v

/-! ## §3. Growing and pushing. -/

/-- Copying reads from places and writes to new slots that are all there. -/
theorem run_copy {r : Ring α} (hr : r.count ≤ r.slots.size) (k : Nat) :
    ∀ (i : Nat) (slots : Array α), i + k ≤ r.count → i + k ≤ slots.size →
      ∃ slots', (copy k i slots).run r = .ok slots' r ∧
        ∀ j, slots'[j]? = if i ≤ j ∧ j < i + k then some (r.peek j) else slots[j]? := by
  induction k with
  | zero =>
      intro i slots _ _
      refine ⟨slots, rfl, fun j => ?_⟩
      rw [if_neg (by omega)]
  | succ k ih =>
      intro i slots hcount hsize
      have hpos : 0 < r.slots.size := by omega
      obtain ⟨slots', hrun, hslots'⟩ := ih (i + 1) (slots.setIfInBounds i (r.peek i)) (by omega)
        (by rw [Array.size_setIfInBounds]; omega)
      refine ⟨slots', ?_, fun j => ?_⟩
      · rw [copy]
        simp only [EStateM.run_bind, run_slotOf hpos, run_load_slot hpos]
        rw [if_pos (by omega)]
        exact hrun
      · -- place `i` was written, and the others by the rest of the copying
        rw [hslots' j, Array.getElem?_setIfInBounds]
        by_cases hj : i = j
        · rw [if_neg (by omega), if_pos hj, if_pos (by omega), if_pos (by omega), hj]
        · by_cases hrest : i + 1 ≤ j ∧ j < i + 1 + k
          · rw [if_pos hrest, if_pos (by omega)]
          · rw [if_neg hrest, if_neg hj, if_neg (by omega)]

/-- **Growing copies every value**, and does not break down. -/
theorem run_grow {r : Ring α} (h : r.Valid) : grow.run r = .ok () r.grow := by
  unfold grow Ring.grow
  rw [EStateM.run_bind, EStateM.run_get]
  dsimp only
  split
  next => rfl
  next hfull =>
      have hle := h.1
      generalize hsize : (if r.slots.size = 0 then 8 else 2 * r.slots.size) = size
      have hroom : r.count ≤ size := by
        split at hsize <;> omega
      obtain ⟨slots, hrun, hslots⟩ := run_copy hle r.count 0 (Array.replicate size default)
        (by omega) (by rw [Array.size_replicate]; omega)
      have hcopy : slots
          = (Array.range r.count).map r.peek ++ Array.replicate (size - r.count) default := by
        apply Array.ext_getElem?
        intro j
        rw [hslots j, Array.getElem?_append, Array.size_map, Array.size_range]
        by_cases hj : j < r.count
        · rw [if_pos (by omega), if_pos hj, Array.getElem?_map, Array.getElem?_range, if_pos hj]
          rfl
        · rw [if_neg (by omega), if_neg hj, Array.getElem?_replicate, Array.getElem?_replicate]
          by_cases hjs : j < size
          · rw [if_pos hjs, if_pos (by omega)]
          · rw [if_neg hjs, if_neg (by omega)]
      rw [EStateM.run_bind, hrun, hcopy]
      rfl

/-- **A push at the back** does not break down. -/
theorem run_pushBack {r : Ring α} (h : r.Valid) (v : α) :
    (pushBack v).run r = .ok () (r.pushBack v) := by
  obtain ⟨_, _, _, hroom⟩ := grow_spec h
  have hpos : 0 < r.grow.slots.size := by omega
  unfold pushBack
  simp only [EStateM.run_bind, run_grow h, EStateM.run_get, run_slotOf hpos,
    run_store (slot_lt _ hpos)]
  rfl

/-- **A push at the front** does not break down. -/
theorem run_pushFront {r : Ring α} (h : r.Valid) (v : α) :
    (pushFront v).run r = .ok () (r.pushFront v) := by
  obtain ⟨_, _, _, hroom⟩ := grow_spec h
  have hpos : 0 < r.grow.slots.size := by omega
  unfold pushFront Ring.pushFront
  rw [EStateM.run_bind, run_grow h]
  -- the head has moved to the slot by the time that it is written
  generalize r.grow = g at hpos
  have hslot := slot_lt (g.slots.size - 1) hpos
  generalize hj : g.slot (g.slots.size - 1) = j at hslot
  simp only [EStateM.run_bind, EStateM.run_get, run_slotOf hpos, EStateM.run_modify, hj]
  rw [run_store (r := ⟨g.slots, j, g.count⟩) hslot]

/-! ## §4. Reading, replacing and popping. -/

/-- How an operation that changes nothing or everything comes out of the
guarded one. -/
def outcome {β : Type} (r : Ring α) : Except Misuse (β × Ring α) → EStateM.Result Misuse (Ring α) β
  | .ok (b, r') => .ok b r'
  | .error e => .error e r

theorem run_valueAt {r : Ring α} (h : r.Valid) (i : Int) :
    (valueAt i).run r = outcome r ((r.at? i).map (·, r)) := by
  have hle := h.1
  unfold valueAt at?
  by_cases hi : 0 ≤ i ∧ i < r.count
  · have hpos : 0 < r.slots.size := by omega
    rw [if_neg (by omega)]
    simp only [EStateM.run_bind, run_check_of_lt hi, run_slotOf hpos, run_load_slot hpos]
    rfl
  · rw [if_pos (by omega)]
    simp only [EStateM.run_bind, run_check_of_not hi]
    rfl

theorem run_replace {r : Ring α} (h : r.Valid) (i : Int) (v : α) :
    (replace i v).run r = outcome r ((r.set? i v).map ((), ·)) := by
  have hle := h.1
  unfold replace set?
  by_cases hi : 0 ≤ i ∧ i < r.count
  · have hpos : 0 < r.slots.size := by omega
    rw [if_neg (by omega)]
    simp only [EStateM.run_bind, run_check_of_lt hi, run_slotOf hpos,
      run_store (slot_lt _ hpos)]
    rfl
  · rw [if_pos (by omega)]
    simp only [EStateM.run_bind, run_check_of_not hi]
    rfl

/-- **A pop at the front** is refused before anything is changed, or does not
break down. -/
theorem run_popFront {r : Ring α} (h : r.Valid) : popFront.run r = outcome r r.popFront? := by
  have hle := h.1
  unfold popFront popFront?
  rw [EStateM.run_bind, run_valueAt h]
  by_cases hi : 0 < r.count
  · have hpos : 0 < r.slots.size := by omega
    have hat : r.at? 0 = .ok (r.peek 0) := by
      unfold at?
      rw [if_neg (by omega)]
      rfl
    rw [hat]
    simp only [Except.map, outcome, EStateM.run_bind, EStateM.run_get, run_store (h.head_lt hpos)]
    rw [run_slotOf (by rw [Array.size_setIfInBounds]; exact hpos)]
    simp only [slot, Array.size_setIfInBounds]
    rfl
  · have hat : r.at? 0 = .error (.index 0) := by
      unfold at?
      rw [if_pos (by omega)]
    rw [hat]
    rfl

/-- **A pop at the back** is refused before anything is changed, or does not
break down. -/
theorem run_popBack {r : Ring α} (h : r.Valid) : popBack.run r = outcome r r.popBack? := by
  have hle := h.1
  unfold popBack popBack?
  rw [EStateM.run_bind, EStateM.run_get]
  dsimp only
  rw [EStateM.run_bind, run_valueAt h]
  by_cases hi : 0 < r.count
  · have hpos : 0 < r.slots.size := by omega
    have hat : r.at? ((r.count : Int) - 1) = .ok (r.peek (r.count - 1)) := by
      unfold at?
      rw [if_neg (by omega), show ((r.count : Int) - 1).toNat = r.count - 1 by omega]
    rw [hat]
    simp only [Except.map, outcome, EStateM.run_bind, EStateM.run_get, run_slotOf hpos,
      run_store (slot_lt _ hpos)]
    rfl
  · have hat : r.at? ((r.count : Int) - 1) = .error (.index ((r.count : Int) - 1)) := by
      unfold at?
      rw [if_pos (by omega)]
    rw [hat]
    rfl

end Ring.Guarded

end Tetraglyph
