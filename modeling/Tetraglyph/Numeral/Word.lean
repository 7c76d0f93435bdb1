/-
  Tetraglyph.Numeral.Word
  ───────────────────────
  **MACHINE INTEGERS.**

  Conversions between numerals and 64-bit integers, and the text of machine
  integers of any width in bases 2 to 36.  A machine integer enters as its
  64-bit pattern, sign-extended; the magnitude of a negative one is the
  two's complement of that pattern, so the most negative value needs no
  special case.
-/
import Tetraglyph.Numeral.Base

namespace Tetraglyph

/-! ## §1. Numerals and 64-bit integers. -/

namespace Numeral

/-- The decimal digits of a word, none for 0. -/
def wordDigits (w : UInt64) : Digits :=
  if _h : w = 0 then [] else (w % 10).toUInt8 :: wordDigits (w / 10)
termination_by w.toNat
decreasing_by
  have hpos : 0 < w.toNat :=
    Nat.pos_of_ne_zero fun hz => _h (UInt64.toNat_inj.1 (by simpa using hz))
  simpa using Nat.div_lt_self hpos (by decide)

/-- The magnitude of a signed word: its two's complement if it is negative. -/
def wordMagnitude (neg : Bool) (w : UInt64) : UInt64 := if neg then 0 - w else w

/-- The numeral of a 64-bit integer. -/
def ofInt64 (v : Int64) : Numeral :=
  let neg := decide (v < 0)
  ofDigits neg (wordDigits (wordMagnitude neg v.toUInt64))

/-- The word which decimal digits denote. -/
def wordValue : Digits → UInt64
  | [] => 0
  | d :: ds => wordValue ds * 10 + d.toUInt64

/-- The number as a 64-bit integer, if it fits. -/
def toInt64? (x : Numeral) : Option Int64 :=
  let ds := x.mag
  if 19 < ds.length then none
  else
    let w := wordValue ds
    if x.neg && w ≤ 0x8000000000000000 then some (0 - w).toInt64
    else if !x.neg && w < 0x8000000000000000 then some w.toInt64
    else none

end Numeral

/-! ## §2. Machine integers of any width. -/

/-- A type of machine integers. -/
structure WordType where
  /-- Whether there are negative values. -/
  signed : Bool
  /-- The number of bits. -/
  bits : Nat
  deriving Repr, DecidableEq

/-- The value which an integer has after conversion to a machine type. -/
def WordType.wrap (t : WordType) (v : Int) : Int :=
  if t.signed then v.bmod (1 <<< t.bits) else v % (1 <<< t.bits : Nat)

/-- The digits of a word in base `b`, the most significant first, in front
of `tail`. -/
def Base.wordText (b : Base) (w : UInt64) (tail : List Char) : List Char :=
  if _h : w = 0 then tail
  else b.wordText (w / b.size.toUInt64) (Base.digitChar (w % b.size.toUInt64).toNat :: tail)
termination_by w.toNat
decreasing_by
  have hpos : 0 < w.toNat :=
    Nat.pos_of_ne_zero fun hz => _h (UInt64.toNat_inj.1 (by simpa using hz))
  have hb : b.size.toUInt64.toNat = b.size := by
    have := b.le_max
    simp [Nat.toUInt64]
    omega
  have htwo := b.two_le
  simp only [UInt64.toNat_div, hb]
  exact Nat.div_lt_self hpos (by omega)

/-- The text of a machine integer in base `b`. -/
def Base.machineText (b : Base) (v : Int) : String :=
  let neg := decide (v < 0)
  let w := Numeral.wordMagnitude neg (UInt64.ofInt v)
  if w = 0 then "0"
  else
    let body := b.wordText w []
    String.ofList (if neg then '-' :: body else body)

/-- The text of a machine integer in a base which may be none. -/
def machineTextIn (b : Int) (v : Int) : Except Misuse String :=
  match Base.ofInt? b with
  | some b => .ok (b.machineText v)
  | none => .error (.unsupportedBase b)

end Tetraglyph
