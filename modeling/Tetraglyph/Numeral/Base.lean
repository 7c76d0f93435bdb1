/-
  Tetraglyph.Numeral.Base
  ───────────────────────
  **NUMBERS WRITTEN IN BASES 2 TO 36.**

  The digits are 0 to 9 and A to Z, a minus sign stands in front of negative
  numbers, and letters are read in either case.  Writing divides the decimal
  digits by the base until nothing is left; reading multiplies and adds.
-/
import Tetraglyph.Text.Quoted
import Tetraglyph.Numeral.Basic

namespace Tetraglyph

/-! ## §1. Bases. -/

/-- A base in which numbers can be written. -/
structure Base where
  /-- The number of digits. -/
  size : Nat
  /-- One digit is not enough. -/
  two_le : 2 ≤ size := by omega
  /-- There are 36 digit characters. -/
  le_max : size ≤ 36 := by omega
  deriving DecidableEq

namespace Base

/-- Base 10. -/
def ten : Base := { size := 10 }

/-- The base of a number, if it is one. -/
def ofInt? (b : Int) : Option Base :=
  if h : 2 ≤ b ∧ b ≤ 36 then some ⟨b.toNat, by omega, by omega⟩ else none

/-- Whether a number is a base. -/
def isValid (b : Int) : Bool := (ofInt? b).isSome

/-- The character for a digit below 36. -/
def digitChar (d : Nat) : Char :=
  if d < 10 then Char.ofNat (48 + d) else Char.ofNat (55 + d)

/-- The value of a digit character, given as a byte. -/
def digitValue? (c : UInt8) : Option Nat :=
  if 48 ≤ c && c ≤ 57 then some (c.toNat - 48)
  else if 65 ≤ c && c ≤ 90 then some (c.toNat - 55)
  else if 97 ≤ c && c ≤ 122 then some (c.toNat - 87)
  else none

/-- The value of a digit character of this base. -/
def digit? (b : Base) (c : UInt8) : Option Nat :=
  match digitValue? c with
  | some d => if d < b.size then some d else none
  | none => none

end Base

namespace Numeral

/-! ## §2. Writing. -/

/-- The digits of a magnitude in another base, the most significant first,
in front of `tail`. -/
def baseDigits (b : Base) (ds : Digits) (tail : List Char) : List Char :=
  if _h : ds.isZero then tail
  else
    baseDigits b (ds.quoRemSmall b.size).1
      (Base.digitChar (ds.quoRemSmall b.size).2 :: tail)
termination_by ds.value
decreasing_by
  have hpos : 0 < ds.value := Digits.value_pos_of_isZero_eq_false (by simpa using _h)
  have hle := Digits.value_quoRemSmall_le ds b.size
  have htwo := Nat.mul_le_mul_right (Digits.value (ds.quoRemSmall b.size).1) b.two_le
  omega

/-- The text of a number in base `b`. -/
def format (b : Base) (x : Numeral) : String :=
  if b.size = 10 then x.text
  else if x.mag.isZero then "0"
  else
    let body := baseDigits b x.mag []
    String.ofList (if x.sign < 0 then '-' :: body else body)

/-- The text of a number in a base which may be none. -/
def formatIn (b : Int) (x : Numeral) : Except Misuse String :=
  match Base.ofInt? b with
  | some b => .ok (x.format b)
  | none => .error (.unsupportedBase b)

/-! ## §3. Reading. -/

/-- Reads digits from left to right, starting from a magnitude. -/
def readDigits (b : Base) : Bytes → Digits → Option Digits
  | [], mag => some mag
  | c :: cs, mag =>
    match b.digit? c with
    | some d => readDigits b cs (mag.mulSmallAdd b.size d)
    | none => none

/-- Reads a number written in base `b`. -/
def ofText (b : Base) (text : Bytes) : Except Failure Numeral :=
  let (neg, body) := splitSign text
  if body.isEmpty then .error (.known .invalidDigits)
  else
    match readDigits b body Digits.zero with
    | some mag => .ok (ofDigits neg mag)
    | none =>
      .error (.within "" (.known .invalidDigits) s!": {Text.quoteBytes text} in base {b.size}")

/-- Reads a number written in a base which may be none. -/
def ofTextIn (b : Int) (text : Bytes) : Except Failure Numeral :=
  match Base.ofInt? b with
  | some b => ofText b text
  | none => .error (.plain s!"glyint: unsupported base {b}")

end Numeral

end Tetraglyph
