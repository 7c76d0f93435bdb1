/-
  Tetraglyph.Numeral.Digits
  ─────────────────────────
  **MAGNITUDES AS DECIMAL DIGITS.**

  A magnitude is a list of decimal digits, the least significant first, each
  digit in one byte.  The algorithms are the schoolbook ones, digit by digit:

      add          — one pass with a carry of 0 or 1
      sub?         — one pass with a borrow; `none` if a borrow is left over
      mul          — column sums, then one pass of carries
      mulSmallAdd  — times a small factor plus a small summand
      quoRemSmall  — by a small divisor, from the most significant digit
      quoRem?      — long division; each quotient digit by repeated subtraction

  All of them strip leading zeros from their result but keep one digit, so
  zero is the list with the single digit 0.  `value` is the number a list of
  digits denotes.

  Main results

      value_trim              — stripping leading zeros keeps the value
      value_quoRemSmall_le    — a short quotient is at most the true one,
                                whatever the digits are; digit loops end by it
-/

namespace Tetraglyph

/-- Decimal digits, the least significant first. -/
abbrev Digits := List UInt8

namespace Digits

/-! ## §1. The number denoted, and its normal form. -/

/-- The number which the digits denote. -/
def value : Digits → Nat
  | [] => 0
  | d :: ds => d.toNat + 10 * value ds

/-- The single digit 0. -/
def zero : Digits := [0]

/-- The digits without leading zeros, and so without any digit for zero. -/
def strip : Digits → Digits
  | [] => []
  | d :: ds =>
    match strip ds with
    | [] => if d == 0 then [] else [d]
    | e :: es => d :: e :: es

/-- The digits without leading zeros, at least one digit.  Where the most
significant digit is not 0 there is nothing to do. -/
def trim (ds : Digits) : Digits :=
  if ds.getLastD 0 != 0 then ds
  else
    match strip ds with
    | [] => zero
    | d :: ds => d :: ds

/-- Whether every digit is 0. -/
def isZero (ds : Digits) : Bool := ds.all (· == 0)

theorem value_strip (ds : Digits) : value (strip ds) = value ds := by
  induction ds with
  | nil => rfl
  | cons d ds ih =>
    unfold strip
    split
    · next h =>
      rw [h] at ih
      by_cases hd : d = 0
      · subst hd; simp [value] at ih ⊢; omega
      · simp [hd, value] at ih ⊢; omega
    · next h =>
      rw [h] at ih
      simp only [value] at ih ⊢
      omega

/-- Stripping leading zeros keeps the value. -/
theorem value_trim (ds : Digits) : value (trim ds) = value ds := by
  unfold trim
  split
  · rfl
  · have hs := value_strip ds
    split
    · next h =>
      rw [h] at hs
      simp [zero, value] at hs ⊢
      exact hs
    · next h =>
      rw [h] at hs
      exact hs

/-- Digits which are not all 0 denote a positive number. -/
theorem value_pos_of_isZero_eq_false {ds : Digits} (h : isZero ds = false) : 0 < value ds := by
  induction ds with
  | nil => simp [isZero] at h
  | cons d ds ih =>
    simp only [value]
    by_cases hd : d = 0
    · have ht : isZero ds = false := by simpa [isZero, hd] using h
      have := ih ht
      omega
    · have hn : d.toNat ≠ 0 := fun hz => hd (UInt8.toNat_inj.1 (by simpa using hz))
      omega

/-! ## §2. Order. -/

/-- The order of two magnitudes whose lower digits compare as `lower`: the
most significant difference decides.  Missing digits count as 0. -/
def cmpAbove : Ordering → Digits → Digits → Ordering
  | lower, [], [] => lower
  | lower, a :: as, [] => cmpAbove ((compare a 0).then lower) as []
  | lower, [], b :: bs => cmpAbove ((compare 0 b).then lower) [] bs
  | lower, a :: as, b :: bs => cmpAbove ((compare a b).then lower) as bs

/-- The order of two magnitudes. -/
def cmp (a b : Digits) : Ordering := cmpAbove .eq a b

/-! ## §3. Addition and subtraction. -/

/-- Adds digit by digit, and the final carry as one more digit. -/
def addCarry : Digits → Digits → UInt8 → Digits
  | [], [], carry => [carry]
  | a :: as, [], carry =>
    let s := a + carry
    s % 10 :: addCarry as [] (s / 10)
  | [], b :: bs, carry =>
    let s := b + carry
    s % 10 :: addCarry [] bs (s / 10)
  | a :: as, b :: bs, carry =>
    let s := a + carry + b
    s % 10 :: addCarry as bs (s / 10)

/-- The sum of two magnitudes. -/
def add (a b : Digits) : Digits := trim (addCarry a b 0)

/-- One digit of a difference, with ten more where that is needed. -/
def subDigit (a s : UInt8) : UInt8 := if a < s then a + 10 - s else a - s

/-- Subtracts digit by digit along the first list, and gives the borrow which
is left over, 0 or 1. -/
def subBorrow : Digits → Digits → UInt8 → Digits × UInt8
  | [], _, borrow => ([], borrow)
  | a :: as, [], borrow =>
    let (ds, left) := subBorrow as [] (if a < borrow then 1 else 0)
    (subDigit a borrow :: ds, left)
  | a :: as, b :: bs, borrow =>
    let s := b + borrow
    let (ds, left) := subBorrow as bs (if a < s then 1 else 0)
    (subDigit a s :: ds, left)

/-- The difference of two magnitudes, `none` if the second is the larger. -/
def sub? (a b : Digits) : Option Digits :=
  let (ds, left) := subBorrow a b 0
  if left == 0 then some (trim ds) else none

/-! ## §4. Multiplication. -/

/-- Adds the products of a digit with others to column sums. -/
def addRow (a : UInt8) : Digits → List Nat → List Nat
  | [], cs => cs
  | b :: bs, [] => a.toNat * b.toNat :: addRow a bs []
  | b :: bs, s :: cs => (s + a.toNat * b.toNat) :: addRow a bs cs

/-- The sums of the products of digits, column by column.  A digit 0 adds
nothing. -/
def columns : Digits → Digits → List Nat
  | [], bs => List.replicate bs.length 0
  | a :: as, bs => if a == 0 then 0 :: columns as bs else addRow a bs (0 :: columns as bs)

/-- Turns column sums into digits from the least significant one on, and
gives the carry which is left over. -/
def carryColumns : List Nat → Nat → Digits × Nat
  | [], carry => ([], carry)
  | v :: vs, carry =>
    let w := v + carry
    let (ds, left) := carryColumns vs (w / 10)
    (UInt8.ofNat (w % 10) :: ds, left)

/-- The product of two magnitudes. -/
def mul (a b : Digits) : Digits :=
  if isZero a || isZero b then zero else trim (carryColumns (columns a b) 0).1

/-- The digits of a number, none for 0. -/
def ofNat (n : Nat) : Digits :=
  if n = 0 then [] else UInt8.ofNat (n % 10) :: ofNat (n / 10)

/-- Multiplies digit by digit and ends with the digits of the last carry.
The digits already made come last first in `done`. -/
def mulCarry (m : Nat) (done : Digits) : Digits → Nat → Digits
  | [], carry => done.reverseAux (ofNat carry)
  | d :: ds, carry =>
    let v := d.toNat * m + carry
    mulCarry m (UInt8.ofNat (v % 10) :: done) ds (v / 10)

/-- The magnitude times `m` plus `add`. -/
def mulSmallAdd (a : Digits) (m add : Nat) : Digits := trim (mulCarry m [] a add)

/-! ## §5. Division. -/

/-- Divides one more digit, below the quotient digits and the remainder so
far. -/
def divStep (d : Nat) (qr : Digits × Nat) (a : UInt8) : Digits × Nat :=
  let cur := qr.2 * 10 + a.toNat
  (UInt8.ofNat (cur / d) :: qr.1, cur % d)

/-- Divides from the most significant digit on: quotient digits and
remainder. -/
def divSmall (d : Nat) (a : Digits) : Digits × Nat := a.reverse.foldl (divStep d) ([], 0)

theorem divSmall_nil (d : Nat) : divSmall d [] = ([], 0) := rfl

/-- The least significant digit is divided last. -/
theorem divSmall_cons (d : Nat) (a : UInt8) (as : Digits) :
    divSmall d (a :: as) = divStep d (divSmall d as) a := by
  simp only [divSmall, List.foldl_reverse, List.foldr_cons]

/-- Quotient and remainder by a small divisor. -/
def quoRemSmall (a : Digits) (d : Nat) : Digits × Nat :=
  let (q, r) := divSmall d a
  (trim q, r)

/-- The digits and the remainder of a short division never denote more than
the dividend, even where a quotient digit does not fit its byte. -/
theorem value_divSmall_le (d : Nat) (a : Digits) :
    d * value (divSmall d a).1 + (divSmall d a).2 ≤ value a := by
  induction a with
  | nil => simp [divSmall_nil, value]
  | cons x xs ih =>
    rw [divSmall_cons]
    simp only [divStep, value]
    generalize hq : (divSmall d xs).1 = q at ih
    generalize hr : (divSmall d xs).2 = r at ih
    have hb : (UInt8.ofNat ((r * 10 + x.toNat) / d)).toNat ≤ (r * 10 + x.toNat) / d := by
      simpa using Nat.mod_le _ _
    have hm := Nat.div_add_mod (r * 10 + x.toNat) d
    have hmul := Nat.mul_le_mul_left d hb
    have hexp : d * ((UInt8.ofNat ((r * 10 + x.toNat) / d)).toNat + 10 * value q)
        = d * (UInt8.ofNat ((r * 10 + x.toNat) / d)).toNat + 10 * (d * value q) := by
      rw [Nat.mul_add, Nat.mul_left_comm]
    rw [hexp]
    omega

/-- A short quotient is at most the true quotient. -/
theorem value_quoRemSmall_le (a : Digits) (d : Nat) :
    d * value (quoRemSmall a d).1 ≤ value a := by
  simp only [quoRemSmall, value_trim]
  have := value_divSmall_le d a
  omega

/-- Subtracts `b` from `r` as often as it goes, counting in `count`.  Gives
up after `limit` comparisons, or if a subtraction leaves a borrow. -/
def takeOut (b : Digits) : Nat → Digits → UInt8 → Option (UInt8 × Digits)
  | 0, _, _ => none
  | limit + 1, r, count =>
    if cmp r b == .lt then some (count, r)
    else
      match sub? r b with
      | some r => takeOut b limit r (count + 1)
      | none => none

/-- The remainder so far with one more digit brought down. -/
def bringDown (d : UInt8) (r : Digits) : Digits := trim (d :: r)

/-- Long division from the most significant digit on: quotient digits and
remainder.  A positive `b` goes into a number of `n` digits fewer than
`10 ^ n` times, which limits the subtractions for each digit. -/
def longDivision? (b : Digits) : Digits → Option (Digits × Digits)
  | [] => some ([], zero)
  | a :: as =>
    match longDivision? b as with
    | none => none
    | some (q, r) =>
      let r := bringDown a r
      match takeOut b (Nat.pow 10 r.length) r 0 with
      | none => none
      | some (d, r) => some (d :: q, r)

/-- Quotient and remainder of two magnitudes, `none` for division by zero. -/
def quoRem? (a b : Digits) : Option (Digits × Digits) :=
  (longDivision? (trim b) a).map fun (q, r) => (trim q, trim r)

end Digits

end Tetraglyph
