/-
  Tetraglyph.Cache
  ────────────────
  **A CACHE OF WHAT WAS USED LAST.**

  Entries stand under keys, in the order of their last use.  A look at an
  entry is a use of it, and so is adding one.  There is room for so many, and
  the one whose use is longest ago is forgotten for another.
-/

namespace Tetraglyph

/-- What was used last, by key. -/
structure Cache (κ : Type) (ν : Type) where
  /-- How many entries it keeps. -/
  capacity : Nat
  /-- The entries, the one used last first. -/
  entries : List (κ × ν)
  deriving Repr

namespace Cache

variable {κ ν : Type} [DecidableEq κ]

/-- A cache without entries. -/
def new (capacity : Nat) : Cache κ ν := ⟨capacity, []⟩

/-- The entries with another key. -/
def others (c : Cache κ ν) (k : κ) : List (κ × ν) := c.entries.filter fun e => e.1 ≠ k

/-- Looks a key up, which is a use of it. -/
def get? (c : Cache κ ν) (k : κ) : Option (ν × Cache κ ν) :=
  match c.entries.find? fun e => e.1 = k with
  | some (_, v) => some (v, { c with entries := (k, v) :: c.others k })
  | none => none

/-- Adds an entry, which is a use of its key, and forgets the one whose use
is longest ago if there are too many. -/
def add (c : Cache κ ν) (k : κ) (v : ν) : Cache κ ν :=
  { c with entries := ((k, v) :: c.others k).take c.capacity }

/-- The number of entries. -/
def size (c : Cache κ ν) : Nat := c.entries.length

end Cache

end Tetraglyph
