/-
  Tetraglyph.Source
  ─────────────────
  **SOURCE TEXT.**

  A source is a sequence of symbols between white space, four for each
  instruction.  A source which is valid UTF-8 has a symbol for each code
  point; any other source has one for each byte, so that distinct invalid
  bytes stay distinct symbols, and only ASCII bytes can be white space.
-/
import Tetraglyph.Failure
import Tetraglyph.Pattern
import Tetraglyph.Text.Utf8
import Tetraglyph.Text.Blank

namespace Tetraglyph.Source

/-- The symbols of a source. -/
def symbols (src : Bytes) : List Symbol :=
  match Text.decode? src with
  | some cs => (cs.filter fun c => !Text.isBlank c).map fun c => (c.toNat : Int)
  | none => (src.filter fun b => !Text.isBlankByte b).map fun b => (b.toNat : Int)

/-- Groups symbols by four behind the codes already found; `none` if some
are left over. -/
def group : List Symbol → Array Code → Option (Array Code)
  | [], done => some done
  | a :: b :: c :: d :: rest, done => group rest (done.push ⟨a, b, c, d⟩)
  | _, _ => none

/-- The codes of a source. -/
def codes (src : Bytes) : Except Failure (Array Code) :=
  match group (symbols src) #[] with
  | some cs => .ok cs
  | none => .error (.syntactic .codeLengthInvalid (-1))

/-- The codes of a source that is read from a stream, which may fail. -/
def read (src : Bytes) (failure : Option Failure) : Except Failure (Array Code) :=
  match failure with
  | some f => .error (.within "reading source: " f "")
  | none => codes src

end Tetraglyph.Source
