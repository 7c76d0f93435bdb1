/-
  Tetraglyph.Level
  ────────────────
  **LOG LEVELS.**

  How much is logged.  Levels are named in lower case and read in any case.
-/
import Tetraglyph.Failure
import Tetraglyph.Text.Quoted

namespace Tetraglyph

/-- How much is logged. -/
inductive Level where
  | debug
  | info
  | warn
  | error
  | dpanic
  | panic
  | fatal
  deriving Repr, DecidableEq

namespace Level

/-- The levels, the one that logs most first. -/
def all : List Level := [.debug, .info, .warn, .error, .dpanic, .panic, .fatal]

/-- The name of a level. -/
def name : Level → String
  | .debug => "debug"
  | .info => "info"
  | .warn => "warn"
  | .error => "error"
  | .dpanic => "dpanic"
  | .panic => "panic"
  | .fatal => "fatal"

/-- The lower case of a character, as far as it can occur in a name: the
ASCII letters, and the dotted capital I. -/
def lower (c : Char) : Char := if c.toNat = 0x130 then 'i' else c.toLower

/-- The level with a name in any case. -/
def ofName? (s : String) : Option Level :=
  let wanted := s.toList.map lower
  if wanted.isEmpty then some .info else all.find? fun l => l.name.toList == wanted

/-- Reads a level. -/
def parse (s : String) : Except Failure Level :=
  match ofName? s with
  | some l => .ok l
  | none => .error (.plain s!"unrecognized level: {Text.quote s}")

end Level

end Tetraglyph
