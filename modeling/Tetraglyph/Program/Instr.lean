/-
  Tetraglyph.Program.Instr
  ────────────────────────
  **INSTRUCTIONS AND PROGRAMS.**

  A program is an array of instructions, and instructions name each other by
  their index in it.  `halt` stands where there is no next instruction.  An
  instruction that was made while the program ran names as its parent the
  loaded instruction it descends from; a loaded one is its own parent.
-/
import Tetraglyph.Kind

namespace Tetraglyph

/-- The index that stands for the end of a program. -/
def halt : Int := -1

/-- An instruction of a program. -/
structure Instr where
  /-- What it does. -/
  kind : Kind
  /-- Its own index. -/
  id : Nat
  /-- The instruction that follows it. -/
  next : Int
  /-- The other brace of a loop; for all other kinds the same as `next`. -/
  jump : Int
  /-- The loaded instruction it descends from. -/
  parent : Int
  deriving Repr, DecidableEq

instance : Inhabited Instr := ⟨⟨.nop, 0, halt, halt, 0⟩⟩

/-- A program. -/
abbrev Program := Array Instr

namespace Instr

/-- An instruction which is not linked to others. -/
def unlinked (kind : Kind) (id : Nat) : Instr := ⟨kind, id, halt, halt, id⟩

/-- Whether it was made while the program ran. -/
def isSynthesized (i : Instr) : Bool := i.parent != i.id

/-- An index in a listing. -/
def target (i : Int) : String := if i = halt then "halt" else toString i

/-- The line of an instruction in a listing. -/
def listing (i : Instr) : String :=
  s!"{i.id} {i.kind.name} next={target i.next} jump={target i.jump}"

end Instr

/-- The instruction at an index, if there is one. -/
def Program.fetch? (p : Program) (i : Int) : Option Instr :=
  if i < 0 then none else p[i.toNat]?

end Tetraglyph
