/-
  Tetraglyph.Numeral.Basic
  ────────────────────────
  **SIGNED WHOLE NUMBERS OF ANY SIZE.**

  A numeral is a sign and a magnitude (`Tetraglyph.Numeral.Digits`).  The
  canonical numerals have no leading zeros and no sign on zero; every
  operation answers with a canonical one.  The EMPTY numeral, without any
  digit, is what a slot holds before anything was stored in it; it denotes 0
  and is accepted everywhere.

  Sums of numbers with different signs and quotients rest on subtractions
  which cannot run out of digits.  `add?` and `quoRem` say so when one
  would.

      toInt      — the integer a numeral denotes
      Canonical  — one numeral for each integer
      WellFormed — canonical, or empty
-/
import Tetraglyph.Failure
import Tetraglyph.Misuse
import Tetraglyph.Text.Utf8
import Tetraglyph.Numeral.Digits

namespace Tetraglyph

/-! ## §1. Numerals and the integers they denote. -/

/-- A sign and decimal digits, the least significant first. -/
structure Numeral where
  /-- Whether the number is negative. -/
  neg : Bool
  /-- The digits of the magnitude. -/
  digits : Digits
  deriving Repr, DecidableEq

namespace Numeral

/-- The numeral without digits. -/
def empty : Numeral := ⟨false, []⟩

instance : Inhabited Numeral := ⟨empty⟩

/-- The number 0. -/
def zero : Numeral := ⟨false, Digits.zero⟩

/-- The number 1. -/
def one : Numeral := ⟨false, [1]⟩

/-- The digits, one 0 for the empty numeral. -/
def mag (x : Numeral) : Digits :=
  match x.digits with
  | [] => Digits.zero
  | d :: ds => d :: ds

/-- The integer which a numeral denotes. -/
def toInt (x : Numeral) : Int :=
  if x.neg then -(Digits.value x.digits : Int) else Digits.value x.digits

/-- Decimal digits only, no leading zeros, no sign on zero. -/
def Canonical (x : Numeral) : Prop :=
  (∀ d ∈ x.digits, d < 10) ∧ x.digits ≠ [] ∧
    (x.digits.getLast? = some 0 → x.digits = Digits.zero ∧ x.neg = false)

/-- Canonical, or the empty numeral. -/
def WellFormed (x : Numeral) : Prop := x = empty ∨ x.Canonical

/-- The canonical numeral of a sign and digits. -/
def ofDigits (neg : Bool) (ds : Digits) : Numeral :=
  let ds := ds.trim
  if ds.isZero then zero else ⟨neg, ds⟩

/-! ## §2. Sign and order. -/

/-- Whether the number is 0. -/
def isZero (x : Numeral) : Bool := x.mag.isZero

/-- The sign: -1, 0 or 1. -/
def sign (x : Numeral) : Int :=
  if x.isZero then 0 else if x.neg then -1 else 1

/-- The order of two numbers: signs first, then magnitudes. -/
def cmp (x y : Numeral) : Ordering :=
  if x.sign < y.sign then .lt
  else if y.sign < x.sign then .gt
  else if x.sign = 0 then .eq
  else
    let c := Digits.cmp x.mag y.mag
    if x.sign < 0 then c.swap else c

/-- Equality of numbers. -/
def equal (x y : Numeral) : Bool := x.cmp y == .eq

/-- Strictly less. -/
def less (x y : Numeral) : Bool := x.cmp y == .lt

/-- Less or equal. -/
def lessEq (x y : Numeral) : Bool := x.cmp y != .gt

/-- Strictly greater. -/
def greater (x y : Numeral) : Bool := x.cmp y == .gt

/-- Greater or equal. -/
def greaterEq (x y : Numeral) : Bool := x.cmp y != .lt

/-! ## §3. Arithmetic. -/

/-- The absolute value. -/
def abs (x : Numeral) : Numeral := ⟨false, x.mag⟩

/-- The number with the other sign. -/
def negate (x : Numeral) : Numeral :=
  if x.isZero then zero else ⟨!x.neg, x.mag⟩

/-- The sum.  With different signs the smaller magnitude is taken from the
larger; `none` if that left a borrow. -/
def add? (x y : Numeral) : Option Numeral :=
  if x.neg == y.neg then some (ofDigits x.neg (x.mag.add y.mag))
  else if Digits.cmp x.mag y.mag != .lt then (x.mag.sub? y.mag).map (ofDigits x.neg)
  else (y.mag.sub? x.mag).map (ofDigits y.neg)

/-- The sum. -/
def add (x y : Numeral) : Numeral := (x.add? y).getD zero

/-- The difference. -/
def sub (x y : Numeral) : Numeral := x.add y.negate

/-- The product. -/
def mul (x y : Numeral) : Numeral := ofDigits (x.neg != y.neg) (x.mag.mul y.mag)

/-- One more. -/
def inc (x : Numeral) : Numeral := x.add one

/-- One less. -/
def dec (x : Numeral) : Numeral := x.sub one

/-- Quotient and remainder, the quotient truncated toward zero and the
remainder with the sign of the dividend. -/
def quoRem (x y : Numeral) : Except Failure (Numeral × Numeral) :=
  if y.isZero then .error (.known .divisionByZero)
  else
    match x.mag.quoRem? y.mag with
    | some (q, r) => .ok (ofDigits (x.neg != y.neg) q, ofDigits x.neg r)
    | none => .error (.known .divisionByZero)

/-- The quotient truncated toward zero. -/
def quo (x y : Numeral) : Except Failure Numeral := (x.quoRem y).map Prod.fst

/-- The remainder, with the sign of the dividend. -/
def rem (x y : Numeral) : Except Failure Numeral := (x.quoRem y).map Prod.snd

/-! ## §4. Decimal text. -/

/-- Whether the byte is a decimal digit. -/
def isDecimalByte (b : UInt8) : Bool := 48 ≤ b && b ≤ 57

/-- Takes one minus sign off the front of a text. -/
def splitSign : Bytes → Bool × Bytes
  | 45 :: body => (true, body)
  | body => (false, body)

/-- Reads a decimal literal: one minus sign at most, then one digit or
more. -/
def parse (s : Bytes) : Except Failure Numeral :=
  let (neg, body) := splitSign s
  if body.isEmpty || !body.all isDecimalByte then .error (.known .notDecimal)
  else .ok (ofDigits neg (body.reverse.map (· - 48)))

/-- Reads a text that its caller promises to be a decimal literal. -/
def mustParse (s : Bytes) : Except Misuse Numeral :=
  match parse s with
  | .ok x => .ok x
  | .error _ => .error .notDecimal

/-- The character of a decimal digit. -/
def decimalChar (d : UInt8) : Char := Char.ofNat (48 + d.toNat)

/-- The decimal text of a number; 0 has no sign. -/
def text (x : Numeral) : String :=
  let body := x.mag.reverse.map decimalChar
  String.ofList (if x.sign < 0 then '-' :: body else body)

end Numeral

end Tetraglyph
