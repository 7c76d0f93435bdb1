/-
  Tetraglyph.Program.Decoding
  ───────────────────────────
  **DECODING BY SEVERAL WORKERS.**

  Codes are decoded by a number of workers.  Worker `w` of `W` fills the
  places from `w·n/W` up to `(w+1)·n/W` of the program, one after another,
  and each place depends on its own code only.  `decode` runs the workers
  one after the other; what they write does not depend on the order.
-/
import Tetraglyph.Failure
import Tetraglyph.Pattern
import Tetraglyph.Program.Instr

namespace Tetraglyph.Decoding

/-- How many workers decode `n` codes: as many as asked for, or one for each
of the processors if that is less than one, but no more than there are codes
and at least one. -/
def workerCount (processors : Nat) (requested : Int) (n : Nat) : Nat :=
  max 1 (min (if requested < 1 then processors else requested.toNat) n)

/-- The first place of worker `w` of `workers` on `n` codes, which is also
the end of the places of the worker before it. -/
def firstPlace (n workers w : Nat) : Nat := w * n / workers

/-- A place of the program and what is written there. -/
structure Write where
  /-- The place. -/
  place : Nat
  /-- The instruction. -/
  instr : Instr
  deriving Repr, DecidableEq

/-- What is written at a place. -/
def decoded (codes : Array Code) (place : Nat) : Write :=
  ⟨place, Instr.unlinked (((codes[place]?).map Code.kind).getD .nop) place⟩

/-- The writes of one worker, in order. -/
def writesOf (codes : Array Code) (workers w : Nat) : List Write :=
  let first := firstPlace codes.size workers w
  let last := firstPlace codes.size workers (w + 1)
  (List.range' first (last - first)).map (decoded codes)

/-- Carries out one write. -/
def Write.apply (p : Program) (w : Write) : Program := p.setIfInBounds w.place w.instr

/-- The program before anything was written. -/
def blank (n : Nat) : Program := Array.replicate n default

/-- The unlinked program of a list of codes.  A worker looks whether the
work was called off when it has written all, and there is always one worker:
`done` is the error that the work was called off with, if it was. -/
def decode (processors : Nat) (codes : Array Code) (requested : Int) (done : Option Failure) :
    Except Failure Program :=
  let workers := workerCount processors requested codes.size
  let writes := (List.range workers).flatMap (writesOf codes workers)
  match done with
  | some f => .error f
  | none => .ok (writes.foldl Write.apply (blank codes.size))

end Tetraglyph.Decoding
