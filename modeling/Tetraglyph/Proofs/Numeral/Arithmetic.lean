/-
  Tetraglyph.Proofs.Numeral.Arithmetic
  ────────────────────────────────────
  **ARITHMETIC ON NUMERALS IS ARITHMETIC ON INTEGERS.**

  A well-formed numeral denotes the integer `toInt`, and its sign flag says
  whether that is negative.  Every operation answers with a canonical
  numeral of the right integer; the empty numeral is a second 0 for all of
  them.

  Main results

      toInt_ofDigits            — a sign and digits, brought to normal form
      toInt_add, toInt_mul,
      toInt_negate              — sums, products and the other sign
      cmp_eq_compare            — the order is the order of integers
-/
import Tetraglyph.Numeral.Basic
import Tetraglyph.Proofs.Numeral.Digits

namespace Tetraglyph

namespace Numeral

open Digits

/-! ## §1. Sign and magnitude. -/

/-- The integer of a sign and a magnitude. -/
def signed (neg : Bool) (n : Nat) : Int := if neg then -(n : Int) else n

theorem natAbs_signed (neg : Bool) (n : Nat) : (signed neg n).natAbs = n := by
  unfold signed
  split <;> omega

theorem value_mag (x : Numeral) : value x.mag = value x.digits := by
  unfold mag
  split
  next h =>
      rw [h]
      rfl
  next h => rw [h]

theorem toInt_eq_signed (x : Numeral) : x.toInt = signed x.neg (value x.mag) := by
  rw [value_mag]
  rfl

theorem natAbs_toInt (x : Numeral) : x.toInt.natAbs = value x.mag := by
  rw [toInt_eq_signed, natAbs_signed]

theorem WellFormed.decimal_mag {x : Numeral} (h : x.WellFormed) : Decimal x.mag := by
  rcases h with rfl | ⟨hdec, _, _⟩
  · exact decimal_zero
  · unfold mag
    split
    next => exact decimal_zero
    next hds =>
        rw [← hds]
        exact hdec

theorem WellFormed.trimmed_mag {x : Numeral} (h : x.WellFormed) : Trimmed x.mag := by
  rcases h with rfl | ⟨_, hne, htop⟩
  · exact ⟨by simp [mag, empty, Digits.zero], fun _ => rfl⟩
  · unfold mag
    split
    next hds => exact absurd hds hne
    next hds =>
        rw [← hds]
        exact ⟨hne, fun h0 => (htop h0).1⟩

/-- Zero has no sign. -/
theorem WellFormed.neg_eq_false {x : Numeral} (h : x.WellFormed) (hz : value x.mag = 0) :
    x.neg = false := by
  rcases h with rfl | ⟨_, hne, htop⟩
  · rfl
  · rw [value_mag] at hz
    have hzero : x.digits = Digits.zero := Trimmed.eq_zero ⟨hne, fun h0 => (htop h0).1⟩ hz
    exact (htop (by rw [hzero]; rfl)).2

/-- **The sign flag tells the negative integers.** -/
theorem WellFormed.neg_eq {x : Numeral} (h : x.WellFormed) : x.neg = decide (x.toInt < 0) := by
  rw [toInt_eq_signed]
  unfold signed
  cases hn : x.neg with
  | false => simp
  | true =>
      have hne : value x.mag ≠ 0 := by
        intro hz
        rw [h.neg_eq_false hz] at hn
        exact absurd hn (by decide)
      simp only [if_true]
      exact (decide_eq_true (by omega)).symm

theorem isZero_iff (x : Numeral) : x.isZero = true ↔ x.toInt = 0 := by
  unfold isZero
  rw [Digits.isZero_iff, ← natAbs_toInt]
  exact Int.natAbs_eq_zero

theorem isZero_eq (x : Numeral) : x.isZero = decide (x.toInt = 0) := by
  rw [Bool.eq_iff_iff, isZero_iff, decide_eq_true_iff]

/-! ## §2. Normal forms. -/

theorem Canonical.wellFormed {x : Numeral} (h : x.Canonical) : x.WellFormed := .inr h

theorem canonical_zero : zero.Canonical := by
  refine ⟨decimal_zero, by decide, fun _ => ⟨rfl, rfl⟩⟩

/-- A leading digit other than 0 makes a numeral canonical. -/
theorem canonical_of_getLast? {neg : Bool} {ds : Digits} (h : Decimal ds) {d : UInt8}
    (hlast : ds.getLast? = some d) (hd : d ≠ 0) : Canonical ⟨neg, ds⟩ := by
  refine ⟨h, fun hnil => ?_, fun h0 => ?_⟩
  · have hnil : ds = [] := hnil
    rw [hnil] at hlast
    exact absurd hlast (by simp)
  · have h0 : ds.getLast? = some 0 := h0
    rw [hlast, Option.some.injEq] at h0
    exact absurd h0 hd

theorem canonical_one : one.Canonical :=
  canonical_of_getLast? (by simp) (show [1].getLast? = some 1 from rfl) (by decide)

/-- **A sign and digits, brought to normal form.** -/
theorem toInt_ofDigits (neg : Bool) {ds : Digits} (h : Decimal ds) :
    (ofDigits neg ds).toInt = signed neg (value ds) ∧ (ofDigits neg ds).Canonical := by
  unfold ofDigits
  dsimp only
  split
  next hz =>
      rw [Digits.isZero_iff, value_trim] at hz
      refine ⟨?_, canonical_zero⟩
      rw [hz]
      cases neg <;> rfl
  next hz =>
      rw [Bool.not_eq_true] at hz
      refine ⟨?_, decimal_trim h, (trimmed_trim ds).1, fun h0 => ?_⟩
      · show signed neg (value ds.trim) = _
        rw [value_trim]
      · -- a leading 0 means the number 0, which was excluded
        have hzero : ds.trim = Digits.zero := (trimmed_trim ds).2 h0
        rw [hzero] at hz
        exact absurd hz (by decide)

/-! ## §3. Arithmetic. -/

theorem toInt_negate {x : Numeral} (h : x.WellFormed) :
    x.negate.toInt = -x.toInt ∧ x.negate.Canonical := by
  unfold negate
  split
  next hz =>
      rw [isZero_iff] at hz
      rw [hz]
      exact ⟨rfl, canonical_zero⟩
  next hz =>
      refine ⟨?_, h.decimal_mag, h.trimmed_mag.1, fun h0 => ?_⟩
      · rw [toInt_eq_signed x]
        show signed (!x.neg) (value x.mag) = _
        unfold signed
        cases x.neg with
        | false => rfl
        | true => exact (Int.neg_neg _).symm
      · -- a leading 0 would make the number 0
        rw [isZero_iff, ← Int.natAbs_eq_zero, natAbs_toInt, h.trimmed_mag.2 h0] at hz
        exact absurd rfl hz

/-- The larger magnitude less the smaller one, with the sign of the larger. -/
theorem toInt_difference {x y : Numeral} (hx : x.WellFormed) (hy : y.WellFormed)
    (hneg : x.neg ≠ y.neg) (hle : value y.mag ≤ value x.mag) :
    ∃ r, (x.mag.sub? y.mag).map (ofDigits x.neg) = some r ∧ r.toInt = x.toInt + y.toInt ∧
      r.Canonical := by
  obtain ⟨ds, hsub, hval, hdec⟩ := sub?_exact hx.decimal_mag hy.decimal_mag hle
  obtain ⟨hint, hcan⟩ := toInt_ofDigits x.neg hdec
  refine ⟨ofDigits x.neg ds, by rw [hsub]; rfl, ?_, hcan⟩
  rw [hint, toInt_eq_signed x, toInt_eq_signed y, ← hval]
  unfold signed
  cases hxn : x.neg <;> cases hyn : y.neg <;> rw [hxn, hyn] at hneg <;> simp at hneg ⊢

/-- **Sums are exact**, and no borrow is ever left over. -/
theorem add?_exact {x y : Numeral} (hx : x.WellFormed) (hy : y.WellFormed) :
    ∃ r, x.add? y = some r ∧ r.toInt = x.toInt + y.toInt ∧ r.Canonical := by
  unfold add?
  split
  next hneg =>
      -- with the same sign the magnitudes add up
      rw [beq_iff_eq] at hneg
      obtain ⟨hint, hcan⟩ := toInt_ofDigits x.neg (decimal_add hx.decimal_mag hy.decimal_mag)
      refine ⟨_, rfl, ?_, hcan⟩
      rw [hint, value_add hx.decimal_mag hy.decimal_mag, toInt_eq_signed x, toInt_eq_signed y,
        ← hneg]
      unfold signed
      split <;> omega
  next hneg =>
      -- with different signs the larger magnitude decides
      rw [beq_iff_eq] at hneg
      rw [Digits.cmp_eq hx.decimal_mag hy.decimal_mag]
      split
      next hge =>
          rw [bne_iff_ne, ne_eq, Nat.compare_eq_lt, Nat.not_lt] at hge
          exact toInt_difference hx hy hneg hge
      next hlt =>
          rw [bne_iff_ne, ne_eq, Decidable.not_not, Nat.compare_eq_lt] at hlt
          obtain ⟨r, hr, hint, hcan⟩ :=
            toInt_difference hy hx (fun h => hneg h.symm) (Nat.le_of_lt hlt)
          exact ⟨r, hr, by rw [hint, Int.add_comm], hcan⟩

theorem toInt_add {x y : Numeral} (hx : x.WellFormed) (hy : y.WellFormed) :
    (x.add y).toInt = x.toInt + y.toInt ∧ (x.add y).Canonical := by
  obtain ⟨r, hr, hint, hcan⟩ := add?_exact hx hy
  unfold add
  rw [hr]
  exact ⟨hint, hcan⟩

theorem toInt_mul {x y : Numeral} (hx : x.WellFormed) (hy : y.WellFormed) :
    (x.mul y).toInt = x.toInt * y.toInt ∧ (x.mul y).Canonical := by
  obtain ⟨hint, hcan⟩ := toInt_ofDigits (x.neg != y.neg) (decimal_mul x.mag y.mag)
  refine ⟨?_, hcan⟩
  show (ofDigits (x.neg != y.neg) (x.mag.mul y.mag)).toInt = _
  rw [hint, value_mul hx.decimal_mag hy.decimal_mag, toInt_eq_signed x, toInt_eq_signed y]
  unfold signed
  cases x.neg <;> cases y.neg <;> simp

/-! ## §4. Order. -/

theorem sign_eq {x : Numeral} (h : x.WellFormed) : x.sign = x.toInt.sign := by
  unfold sign
  rw [isZero_eq, h.neg_eq]
  rcases Int.lt_trichotomy x.toInt 0 with hlt | hz | hgt
  · rw [Int.sign_eq_neg_one_of_neg hlt, decide_eq_false (by omega), decide_eq_true hlt]
    rfl
  · rw [hz]
    rfl
  · rw [Int.sign_eq_one_of_pos hgt, decide_eq_false (by omega), decide_eq_false (by omega)]
    rfl

theorem sign_neg_iff {x : Numeral} (h : x.WellFormed) : x.sign < 0 ↔ x.toInt < 0 := by
  rw [sign_eq h, Int.sign_neg_iff]

theorem lt_of_sign_lt {i j : Int} (h : i.sign < j.sign) : i < j := by
  have hi := Int.sign_trichotomy i
  have hj := Int.sign_trichotomy j
  have hneg := @Int.sign_neg_iff i
  have hneg' := @Int.sign_neg_iff j
  have hpos := @Int.sign_pos_iff i
  have hpos' := @Int.sign_pos_iff j
  omega

/-- Numbers that lie in the same order compare the same. -/
theorem compare_of_lt_iff {a b : Nat} {i j : Int} (hlt : a < b ↔ i < j) (hgt : b < a ↔ j < i) :
    compare a b = compare i j := by
  rcases Int.lt_trichotomy i j with h | h | h
  · rw [Int.compare_eq_lt.2 h, Nat.compare_eq_lt.2 (hlt.2 h)]
  · rw [Int.compare_eq_eq.2 h, Nat.compare_eq_eq.2 (by omega)]
  · rw [Int.compare_eq_gt.2 h, Nat.compare_eq_gt.2 (hgt.2 h)]

/-- The sign that is written is that of the integer. -/
theorem signed_body {x : Numeral} (h : x.WellFormed) (body : List Char) :
    (if x.sign < 0 then '-' :: body else body) = if x.toInt < 0 then '-' :: body else body := by
  simp only [sign_neg_iff h]

/-- **The order of numerals is the order of integers.** -/
theorem cmp_eq_compare {x y : Numeral} (hx : x.WellFormed) (hy : y.WellFormed) :
    x.cmp y = compare x.toInt y.toInt := by
  have hmag := Digits.cmp_eq hx.decimal_mag hy.decimal_mag
  rw [← natAbs_toInt, ← natAbs_toInt] at hmag
  unfold cmp
  rw [sign_eq hx, sign_eq hy, hmag]
  generalize x.toInt = i
  generalize y.toInt = j
  split
  next hlt => exact (Int.compare_eq_lt.2 (lt_of_sign_lt hlt)).symm
  next hge =>
      split
      next hgt => exact (Int.compare_eq_gt.2 (lt_of_sign_lt hgt)).symm
      next hle =>
          have hsign : i.sign = j.sign := by omega
          have hneg := @Int.sign_neg_iff i
          have hneg' := @Int.sign_neg_iff j
          split
          next hz =>
              have hi := Int.sign_eq_zero_iff_zero.1 hz
              have hj := Int.sign_eq_zero_iff_zero.1 (hsign.symm.trans hz)
              rw [hi, hj]
              rfl
          next =>
              dsimp only
              split
              next =>
                  -- of two negative numbers the larger magnitude is the smaller number
                  rw [Nat.compare_swap]
                  exact compare_of_lt_iff (by omega) (by omega)
              next => exact compare_of_lt_iff (by omega) (by omega)

theorem equal_eq {x y : Numeral} (hx : x.WellFormed) (hy : y.WellFormed) :
    x.equal y = decide (x.toInt = y.toInt) := by
  unfold equal
  rw [cmp_eq_compare hx hy, Bool.eq_iff_iff, beq_iff_eq, Int.compare_eq_eq, decide_eq_true_iff]

end Numeral

end Tetraglyph
