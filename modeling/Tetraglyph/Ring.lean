/-
  Tetraglyph.Ring
  ───────────────
  **RING BUFFERS.**

  A double ended queue in a row of slots: the values start at `head` and
  wrap around the end.  A push into a full buffer doubles the slots (none
  becomes eight) and moves the values to the start.  Slots without a value
  hold the default value of the type.

  `toList` is the queue from front to back; `Valid` says that the window of
  values lies inside the slots.
-/
import Tetraglyph.Misuse

namespace Tetraglyph

/-! ## §1. The buffer and its view. -/

/-- A double ended queue in a row of slots. -/
structure Ring (α : Type) where
  /-- The slots. -/
  slots : Array α
  /-- The slot of the first value. -/
  head : Nat
  /-- The number of values. -/
  count : Nat
  deriving Repr, DecidableEq

namespace Ring

variable {α : Type} [Inhabited α]

/-- A buffer without slots. -/
def empty : Ring α := ⟨#[], 0, 0⟩

instance : Inhabited (Ring α) := ⟨empty⟩

/-- A buffer with `n` free slots. -/
def withSlots (n : Nat) : Ring α := ⟨Array.replicate n default, 0, 0⟩

/-- The greatest number of slots: that many words fill an address space of
48 bits. -/
def maxSlots : Nat := 0x200000000000

/-- A buffer with a number of slots that may be negative or too large, and
so none. -/
def new (n : Int) : Except Misuse (Ring α) :=
  if n < 0 ∨ (maxSlots : Int) < n then .error .outOfRange else .ok (withSlots n.toNat)

/-- The number of slots. -/
def capacity (r : Ring α) : Nat := r.slots.size

/-- The slot of the value `i` places after the front. -/
def slot (r : Ring α) (i : Nat) : Nat := (r.head + i) % r.slots.size

/-- What is in the slot of the value `i` places after the front. -/
def peek (r : Ring α) (i : Nat) : α := r.slots.getD (r.slot i) default

/-- The values from front to back. -/
def toList (r : Ring α) : List α := (List.range r.count).map r.peek

/-- The values lie inside the slots, and all other slots are cleared. -/
def Valid (r : Ring α) : Prop :=
  r.count ≤ r.slots.size ∧ (r.head < r.slots.size ∨ r.slots.size = 0 ∧ r.head = 0) ∧
    ∀ i, r.count ≤ i → i < r.slots.size → r.peek i = default

/-! ## §2. Pushing. -/

/-- Makes room for one more value. -/
def grow (r : Ring α) : Ring α :=
  if r.count < r.slots.size then r
  else
    let size := if r.slots.size = 0 then 8 else 2 * r.slots.size
    let kept := (Array.range r.count).map r.peek
    ⟨kept ++ Array.replicate (size - r.count) default, 0, r.count⟩

/-- Adds a value at the back. -/
def pushBack (r : Ring α) (v : α) : Ring α :=
  let r := r.grow
  { r with slots := r.slots.setIfInBounds (r.slot r.count) v, count := r.count + 1 }

/-- Adds a value at the front. -/
def pushFront (r : Ring α) (v : α) : Ring α :=
  let r := r.grow
  let head := r.slot (r.slots.size - 1)
  ⟨r.slots.setIfInBounds head v, head, r.count + 1⟩

/-! ## §3. Reading, replacing and popping. -/

/-- The value `i` places after the front. -/
def at? (r : Ring α) (i : Int) : Except Misuse α :=
  if i < 0 ∨ (r.count : Int) ≤ i then .error (.index i) else .ok (r.peek i.toNat)

/-- Replaces the value `i` places after the front. -/
def set? (r : Ring α) (i : Int) (v : α) : Except Misuse (Ring α) :=
  if i < 0 ∨ (r.count : Int) ≤ i then .error (.index i)
  else .ok { r with slots := r.slots.setIfInBounds (r.slot i.toNat) v }

/-- Takes the value at the front. -/
def popFront? (r : Ring α) : Except Misuse (α × Ring α) :=
  match r.at? 0 with
  | .error e => .error e
  | .ok v =>
    .ok (v, ⟨r.slots.setIfInBounds r.head default, r.slot 1, r.count - 1⟩)

/-- Takes the value at the back. -/
def popBack? (r : Ring α) : Except Misuse (α × Ring α) :=
  match r.at? ((r.count : Int) - 1) with
  | .error e => .error e
  | .ok v =>
    .ok (v, { r with
      slots := r.slots.setIfInBounds (r.slot (r.count - 1)) default
      count := r.count - 1 })

end Ring

end Tetraglyph
