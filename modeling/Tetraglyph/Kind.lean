/-
  Tetraglyph.Kind
  ───────────────
  **KINDS OF INSTRUCTIONS.**

  The fifteen operations a machine knows.  A hand-made program may carry any
  number in place of a kind; a number above 14 is kept as `unknown` and can
  be listed and linked, but not executed.
-/

namespace Tetraglyph

/-- What an instruction does. -/
inductive Kind where
  /-- Nothing. -/
  | nop
  /-- Reads a number from the input and pushes it. -/
  | input
  /-- Moves the top to the bottom. -/
  | rot
  /-- Exchanges the two topmost values. -/
  | swap
  /-- Pushes 1. -/
  | push
  /-- Moves the bottom to the top. -/
  | rrot
  /-- Pushes the top once more. -/
  | dup
  /-- Adds the two topmost values. -/
  | add
  /-- Opens a loop, which is skipped if the top is 0. -/
  | lbrace
  /-- Takes the top and writes it to the output. -/
  | output
  /-- Multiplies the two topmost values. -/
  | multiply
  /-- Takes four values and runs the instruction they spell. -/
  | execute
  /-- Changes the sign of the top. -/
  | negate
  /-- Drops the top. -/
  | pop
  /-- Closes a loop, which is repeated unless the top is 0. -/
  | rbrace
  /-- A number without a meaning. -/
  | unknown (code : UInt8)
  deriving Repr, DecidableEq

namespace Kind

/-- The fifteen kinds with a meaning, by their number. -/
def all : List Kind :=
  [.nop, .input, .rot, .swap, .push, .rrot, .dup, .add, .lbrace, .output, .multiply, .execute,
   .negate, .pop, .rbrace]

/-- The kind with the given number. -/
def ofCode (code : UInt8) : Kind := (all[code.toNat]?).getD (.unknown code)

/-- The name of a kind. -/
def name : Kind → String
  | .nop => "NOP"
  | .input => "Input"
  | .rot => "Rot"
  | .swap => "Swap"
  | .push => "Push"
  | .rrot => "RRot"
  | .dup => "Dup"
  | .add => "Add"
  | .lbrace => "L-brace"
  | .output => "Output"
  | .multiply => "Multiply"
  | .execute => "Execute"
  | .negate => "Negate"
  | .pop => "Pop"
  | .rbrace => "R-brace"
  | .unknown code => s!"Kind({code})"

/-- Whether it opens or closes a loop. -/
def isBrace : Kind → Bool
  | .lbrace | .rbrace => true
  | _ => false

end Kind

end Tetraglyph
