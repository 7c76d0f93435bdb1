/-
  Tetraglyph.Sink
  ───────────────
  **WHERE OUTPUT GOES.**

  A sink takes texts, one write after another, until it is full.  How much
  it takes is part of the sink: anything, a number of writes, or a number of
  bytes, each write as a whole.  A write to a full sink fails with the
  sink's own failure and leaves it as it was.  One sink keeps nothing.
-/
import Tetraglyph.Failure

namespace Tetraglyph

/-- How much a sink still takes. -/
inductive Room where
  /-- Anything. -/
  | unlimited
  /-- A number of writes. -/
  | writes (n : Nat)
  /-- A number of bytes. -/
  | bytes (n : Nat)
  deriving Repr, DecidableEq

/-- The room that is left after a text, if it fits. -/
def Room.take? (r : Room) (text : String) : Option Room :=
  match r with
  | .unlimited => some .unlimited
  | .writes 0 => none
  | .writes (n + 1) => some (.writes n)
  | .bytes n => if text.utf8ByteSize ≤ n then some (.bytes (n - text.utf8ByteSize)) else none

/-- A destination of output. -/
structure Sink where
  /-- The texts written so far, the latest first. -/
  written : List String
  /-- How much it still takes. -/
  room : Room
  /-- Why a write fails when it is full. -/
  failure : Failure
  /-- Whether the texts are kept. -/
  keeps : Bool
  deriving Repr, DecidableEq

namespace Sink

/-- A sink without limit. -/
def unlimited : Sink := ⟨[], .unlimited, .plain "", true⟩

/-- A sink that takes everything and keeps nothing. -/
def discard : Sink := ⟨[], .unlimited, .plain "", false⟩

/-- A sink with some room, and what it says when it is full. -/
def limited (room : Room) (failure : Failure) : Sink := ⟨[], room, failure, true⟩

/-- Writes a text. -/
def write (s : Sink) (text : String) : Except Failure Sink :=
  match s.room.take? text with
  | some room =>
    .ok { s with written := if s.keeps then text :: s.written else s.written, room }
  | none => .error s.failure

/-- Everything written so far. -/
def text (s : Sink) : String := String.join s.written.reverse

end Sink

end Tetraglyph
