/-
  Tetraglyph.Misuse
  ─────────────────
  **CALLS THAT BREAK THEIR CONTRACT.**

  A few operations have preconditions which their callers promise: a base
  that exists, an index inside a buffer, a program whose instructions refer
  to each other.  A call that breaks one is a MISUSE.  It is kept apart from
  the failures of programs and of the command line (`Tetraglyph.Failure`),
  which are ordinary answers.
-/

namespace Tetraglyph

/-- Why a call was refused. -/
inductive Misuse where
  /-- Numbers cannot be written in this base. -/
  | unsupportedBase (base : Int)
  /-- A machine cannot read and write numbers in this base. -/
  | machineBase (base : Int)
  /-- A text that had to be a decimal literal is none. -/
  | notDecimal
  /-- An index outside a ring buffer. -/
  | index (i : Int)
  /-- A kind of instruction which has no spelling, by its name. -/
  | noSpelling (name : String)
  /-- An instruction of no known kind was executed, given as in a listing. -/
  | unknownInstruction (listing : String)
  /-- The help could not be written, and why. -/
  | helpUnwritten (reason : String)
  /-- A position or a size outside the memory that was there. -/
  | outOfRange
  deriving Repr, DecidableEq

/-- The wording of a refusal; a range error has none. -/
def Misuse.message? : Misuse → Option String
  | .unsupportedBase b => some s!"glyint: unsupported base {b}"
  | .machineBase b => some s!"gvm1: invalid base {b}"
  | .notDecimal => some "glyint: not a decimal integer literal"
  | .index i => some (toString i)
  | .noSpelling name => some name
  | .unknownInstruction listing => some listing
  | .helpUnwritten reason => some reason
  | .outOfRange => none

end Tetraglyph
