/-
  Tetraglyph.Text.Blank
  ─────────────────────
  **WHITE SPACE.**

  Which code points separate: the Unicode property White_Space.  Sources
  drop these and input streams are split at them.
-/

namespace Tetraglyph.Text

/-- The code points with the property White_Space, as closed ranges. -/
def blankRanges : List (Nat × Nat) :=
  [(0x09, 0x0D), (0x20, 0x20), (0x85, 0x85), (0xA0, 0xA0), (0x1680, 0x1680), (0x2000, 0x200A),
   (0x2028, 0x2029), (0x202F, 0x202F), (0x205F, 0x205F), (0x3000, 0x3000)]

/-- Whether a code point is white space. -/
def isBlank (c : Char) : Bool :=
  blankRanges.any fun (lo, hi) => lo ≤ c.toNat && c.toNat ≤ hi

/-- Whether a byte is ASCII white space. -/
def isBlankByte (b : UInt8) : Bool := b < 0x80 && isBlank (Char.ofNat b.toNat)

end Tetraglyph.Text
