/-
  Tetraglyph.Proofs.Numeral.Division
  ──────────────────────────────────
  **LONG DIVISION IS EXACT.**

  Long division goes through the dividend from its most significant digit.
  What is left over from the digits above is BELOW THE DIVISOR; with one more
  digit brought down it is below ten times the divisor, so the divisor can be
  taken out at most nine times.  This one bound carries everything: the count
  fits a digit, the subtractions never run out of digits, and they end long
  before their limit.

  Main results

      takeOut_exact        — repeated subtraction divides with remainder
      longDivision?_exact  — the whole pass, one quotient digit for each digit
      quoRem?_exact        — quotient and remainder of two magnitudes
      quoRem_exact         — division of numerals, truncated toward zero
-/
import Tetraglyph.Proofs.Numeral.Arithmetic

namespace Tetraglyph

namespace Digits

/-! ## §1. Repeated subtraction. -/

/-- **Repeated subtraction divides with remainder**, as long as the limit and
the counter are large enough for the quotient. -/
theorem takeOut_exact {b : Digits} (hb : Decimal b) (hpos : 0 < value b) :
    ∀ (limit : Nat) (count : UInt8) {r : Digits}, Decimal r → value r / value b < limit →
      count.toNat + value r / value b < 256 →
      ∃ d r', takeOut b limit r count = some (d, r') ∧
        d.toNat = count.toNat + value r / value b ∧ value r' = value r % value b ∧
        Decimal r' := by
  -- each subtraction takes one off the quotient and keeps the remainder
  intro limit
  induction limit with
  | zero =>
      intro count r _ hlimit _
      exact absurd hlimit (Nat.not_lt_zero _)
  | succ limit ih =>
      intro count r hr hlimit hcount
      unfold takeOut
      rw [cmp_eq hr hb]
      by_cases hlt : value r < value b
      · rw [Nat.compare_eq_lt.2 hlt]
        rw [Nat.div_eq_of_lt hlt] at hcount ⊢
        refine ⟨count, r, rfl, by omega, ?_, hr⟩
        exact (Nat.mod_eq_of_lt hlt).symm
      · have hle : value b ≤ value r := Nat.le_of_not_lt hlt
        have hstop : (compare (value r) (value b) == .lt) = false := by
          rw [beq_eq_false_iff_ne, ne_eq, Nat.compare_eq_lt]
          exact hlt
        obtain ⟨s, hs, hval, hdec⟩ := sub?_exact hr hb hle
        rw [hstop, hs]
        have hdiv : value r / value b = value s / value b + 1 := by
          rw [← hval, Nat.add_div_right _ hpos]
        have hmod : value r % value b = value s % value b := by
          rw [← hval, Nat.add_mod_right]
        have hsum : count.toNat + 1 < 256 := by
          have := Nat.zero_le (value s / value b)
          omega
        have hnext : (count + 1).toNat = count.toNat + 1 := by
          rw [UInt8.toNat_add]
          exact Nat.mod_eq_of_lt hsum
        obtain ⟨d, r', htake, hd, hr', hdec'⟩ := ih (count + 1) hdec (by omega) (by omega)
        exact ⟨d, r', htake, by omega, by omega, hdec'⟩

/-! ## §2. Long division. -/

theorem value_bringDown (d : UInt8) (r : Digits) :
    value (bringDown d r) = d.toNat + 10 * value r := by
  unfold bringDown
  rw [value_trim, value_cons]

theorem decimal_bringDown {d : UInt8} {r : Digits} (hd : d.toNat < 10) (hr : Decimal r) :
    Decimal (bringDown d r) := decimal_trim (decimal_cons.2 ⟨hd, hr⟩)

/-- **Long division is exact**: every digit of the dividend gives one digit of
the quotient, and what is left over is below the divisor. -/
theorem longDivision?_exact {b : Digits} (hb : Decimal b) (hpos : 0 < value b) {as : Digits}
    (ha : Decimal as) :
    ∃ q r, longDivision? b as = some (q, r) ∧ value as = value b * value q + value r ∧
      value r < value b ∧ Decimal q ∧ Decimal r ∧ q.length = as.length := by
  induction as with
  | nil =>
      refine ⟨[], zero, rfl, ?_, hpos, decimal_nil, decimal_zero, rfl⟩
      rw [value_nil, Nat.mul_zero]
      rfl
  | cons a as ih =>
      obtain ⟨hda, has⟩ := decimal_cons.1 ha
      obtain ⟨q, r, hdivide, hval, hlt, hq, hr, hlen⟩ := ih has
      have hdown := value_bringDown a r
      have hdec := decimal_bringDown hda hr
      -- less than ten times the divisor is left, so the next digit is below 10
      have hdigit : value (bringDown a r) / value b < 10 := by
        apply Nat.div_lt_of_lt_mul
        omega
      have hlimit : value (bringDown a r) / value b < Nat.pow 10 (bringDown a r).length :=
        Nat.lt_of_le_of_lt (Nat.div_le_self _ _) (value_lt hdec)
      obtain ⟨d, s, htake, hd, hs, hsdec⟩ :=
        takeOut_exact hb hpos _ 0 hdec hlimit (by show 0 + _ < 256; omega)
      have hd : d.toNat = value (bringDown a r) / value b := by
        rw [hd]
        exact Nat.zero_add _
      refine ⟨d :: q, s, ?_, ?_, ?_, decimal_cons.2 ⟨by omega, hq⟩, hsdec, by simp [hlen]⟩
      · unfold longDivision?
        rw [hdivide]
        dsimp only
        rw [htake]
      · have hsplit := Nat.div_add_mod (value (bringDown a r)) (value b)
        rw [value_cons, value_cons, hs, hd, Nat.mul_add, Nat.mul_left_comm]
        omega
      · rw [hs]
        exact Nat.mod_lt _ hpos

/-- **Quotient and remainder of two magnitudes.** -/
theorem quoRem?_exact {as bs : Digits} (ha : Decimal as) (hb : Decimal bs)
    (hpos : 0 < value bs) :
    ∃ q r, quoRem? as bs = some (q, r) ∧ value q = value as / value bs ∧
      value r = value as % value bs ∧ Decimal q ∧ Decimal r := by
  have htrim := value_trim bs
  obtain ⟨q, r, hdivide, hval, hlt, hq, hr, _⟩ :=
    longDivision?_exact (decimal_trim hb) (by omega) ha
  rw [htrim] at hval hlt
  refine ⟨trim q, trim r, ?_, ?_, ?_, decimal_trim hq, decimal_trim hr⟩
  · unfold quoRem?
    rw [hdivide]
    rfl
  · rw [value_trim, hval, Nat.mul_add_div hpos, Nat.div_eq_of_lt hlt, Nat.add_zero]
  · rw [value_trim, hval, Nat.mul_add_mod, Nat.mod_eq_of_lt hlt]

end Digits

namespace Numeral

open Digits

/-! ## §3. Division of numerals. -/

theorem tdiv_signed (a b : Bool) (m n : Nat) :
    (signed a m).tdiv (signed b n) = signed (a != b) (m / n) := by
  have hnat : Int.tdiv m n = ((m / n : Nat) : Int) := rfl
  unfold signed
  cases a <;> cases b <;> simp [hnat]

theorem tmod_signed (a b : Bool) (m n : Nat) :
    (signed a m).tmod (signed b n) = signed a (m % n) := by
  have hnat : Int.tmod m n = ((m % n : Nat) : Int) := rfl
  unfold signed
  cases a <;> cases b <;> simp [hnat]

theorem quoRem_zero {x y : Numeral} (hz : y.toInt = 0) :
    x.quoRem y = .error (.known .divisionByZero) := by
  unfold quoRem
  rw [if_pos ((isZero_iff y).2 hz)]

/-- **Division of numerals is truncated toward zero**, and the remainder has
the sign of the dividend. -/
theorem quoRem_exact {x y : Numeral} (hx : x.WellFormed) (hy : y.WellFormed)
    (hne : y.toInt ≠ 0) :
    ∃ q r, x.quoRem y = .ok (q, r) ∧ q.toInt = x.toInt.tdiv y.toInt ∧
      r.toInt = x.toInt.tmod y.toInt ∧ q.Canonical ∧ r.Canonical := by
  have hpos : 0 < value y.mag := by
    rw [← natAbs_toInt]
    omega
  obtain ⟨q, r, hdivide, hquo, hrem, hq, hr⟩ := quoRem?_exact hx.decimal_mag hy.decimal_mag hpos
  obtain ⟨hqi, hqc⟩ := toInt_ofDigits (x.neg != y.neg) hq
  obtain ⟨hri, hrc⟩ := toInt_ofDigits x.neg hr
  refine ⟨ofDigits (x.neg != y.neg) q, ofDigits x.neg r, ?_, ?_, ?_, hqc, hrc⟩
  · unfold quoRem
    rw [if_neg (by rw [isZero_iff]; exact hne), hdivide]
  · rw [hqi, hquo, toInt_eq_signed x, toInt_eq_signed y, tdiv_signed]
  · rw [hri, hrem, toInt_eq_signed x, toInt_eq_signed y, tmod_signed]

end Numeral

end Tetraglyph
