/-
  Tetraglyph.Stack
  ────────────────
  **THE STACK OF A PROGRAM.**

  The values of a running program, in a ring buffer with the top at its
  back, so that a rotation moves one value from one end to the other.  An
  operation which finds too few values changes nothing and is a fault of the
  instruction `id` that asked for it: an operation on one value reports an
  empty stack, one on more reports that there are not enough.
-/
import Tetraglyph.Ring
import Tetraglyph.Numeral.Base

namespace Tetraglyph

/-- A stack of numbers, the top at the back. -/
structure Stack where
  /-- The values from bottom to top. -/
  ring : Ring Numeral
  deriving Repr, DecidableEq

namespace Stack

/-! ## §1. The stack and its view. -/

/-- The stack a program starts with. -/
def new : Stack := ⟨Ring.withSlots 16⟩

/-- The number of values. -/
def size (s : Stack) : Nat := s.ring.count

/-- The values from bottom to top. -/
def values (s : Stack) : List Numeral := s.ring.toList

/-- The texts of the values in a base, from bottom to top. -/
def texts (s : Stack) (base : Int) : Except Misuse (List String) :=
  s.values.mapM (Numeral.formatIn base)

/-- The fault of an operation that needs `n` values and has fewer. -/
def shortage (id : Int) (n : Nat) : Failure :=
  if n = 1 then .fault .emptyStack id else .fault .insufficientStackSize id

/-! ## §2. One value. -/

/-- Pushes a value. -/
def push (s : Stack) (v : Numeral) : Stack := ⟨s.ring.pushBack v⟩

/-- Pushes 1. -/
def pushOne (s : Stack) : Stack := s.push Numeral.one

/-- Takes the top. -/
def take (s : Stack) (id : Int) : Except Failure (Numeral × Stack) :=
  match s.ring.popBack? with
  | .ok (v, ring) => .ok (v, ⟨ring⟩)
  | .error _ => .error (shortage id 1)

/-- Drops the top. -/
def pop (s : Stack) (id : Int) : Except Failure Stack := (s.take id).map Prod.snd

/-- The top, which stays. -/
def top (s : Stack) (id : Int) : Except Failure Numeral :=
  if s.size = 0 then .error (shortage id 1) else .ok (s.ring.peek (s.size - 1))

/-- Pushes the top once more. -/
def dup (s : Stack) (id : Int) : Except Failure Stack := (s.top id).map s.push

/-- Replaces the value `i` places above the bottom. -/
def put (s : Stack) (i : Nat) (v : Numeral) : Stack :=
  ⟨{ s.ring with slots := s.ring.slots.setIfInBounds (s.ring.slot i) v }⟩

/-- Changes the sign of the top. -/
def negate (s : Stack) (id : Int) : Except Failure Stack :=
  (s.top id).map fun v => s.put (s.size - 1) v.negate

/-- Moves the top to the bottom. -/
def rotate (s : Stack) (id : Int) : Except Failure Stack :=
  (s.take id).map fun (v, s) => ⟨s.ring.pushFront v⟩

/-- Moves the bottom to the top. -/
def reverseRotate (s : Stack) (id : Int) : Except Failure Stack :=
  match s.ring.popFront? with
  | .ok (v, ring) => .ok ⟨ring.pushBack v⟩
  | .error _ => .error (shortage id 1)

/-! ## §3. Several values. -/

/-- Exchanges the two topmost values. -/
def swap (s : Stack) (id : Int) : Except Failure Stack :=
  if s.size < 2 then .error (shortage id 2)
  else
    let a := s.ring.peek (s.size - 1)
    let b := s.ring.peek (s.size - 2)
    .ok ((s.put (s.size - 1) b).put (s.size - 2) a)

/-- Replaces the top `a` and the value `b` below it by `f a b`. -/
def combine (s : Stack) (id : Int) (f : Numeral → Numeral → Numeral) : Except Failure Stack :=
  if s.size < 2 then .error (shortage id 2)
  else do
    let (a, s) ← s.take id
    let (b, s) ← s.take id
    return s.push (f a b)

/-- Replaces the two topmost values by their sum. -/
def add (s : Stack) (id : Int) : Except Failure Stack := s.combine id Numeral.add

/-- Replaces the two topmost values by their product. -/
def multiply (s : Stack) (id : Int) : Except Failure Stack := s.combine id Numeral.mul

/-- Takes values one after another, the top first. -/
def takeEach (id : Int) : Nat → Stack → Except Failure (List Numeral × Stack)
  | 0, s => .ok ([], s)
  | k + 1, s => do
    let (v, s) ← s.take id
    let (vs, s) ← takeEach id k s
    return (v :: vs, s)

/-- Takes `k` values at once, the top first. -/
def takeMany (s : Stack) (id : Int) (k : Nat) : Except Failure (List Numeral × Stack) :=
  if s.size < k then .error (.fault .insufficientStackSize id) else takeEach id k s

/-- Takes a number of values that may be negative, and so out of range. -/
def takeCount (s : Stack) (id k : Int) : Except Misuse (Except Failure (List Numeral × Stack)) :=
  if k < 0 then .error .outOfRange else .ok (s.takeMany id k.toNat)

end Stack

end Tetraglyph
