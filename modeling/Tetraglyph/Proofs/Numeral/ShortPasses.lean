/-
  Tetraglyph.Proofs.Numeral.ShortPasses
  ─────────────────────────────────────
  **SHORT MULTIPLICATION AND SHORT DIVISION UNDO EACH OTHER.**

  A short multiplication goes UP the digits with a carry that may be larger
  than a digit, and ends by writing out the last carry.  A short division
  goes DOWN the digits with a remainder, which stays below the divisor and
  so keeps every quotient a digit.

  Beside each pass stands the same pass over UNBOUNDED numbers, which knows
  no bytes: the bytes that a pass writes hold these very numbers.

      productDigits, quotientDigits   — the passes over unbounded numbers

  That the passes undo each other is then a matter of values, because digits
  without leading zeros are told by their value.

  Main results

      map_mulCarry, map_divSmall      — no byte loses anything
      quoRemSmall_mulSmallAdd         — dividing undoes multiplying
      mulSmallAdd_quoRemSmall         — multiplying undoes dividing
      short_passes_inverse            — both passes, digit by digit
-/
import Tetraglyph.Proofs.Numeral.Digits

namespace Tetraglyph

namespace Digits

/-! ## §1. The passes over unbounded numbers. -/

/-- What a short multiplication by `m` writes: the last digit of each column,
the carry into it included, and the digits of the last carry. -/
def productDigits (m : Nat) : List Nat → Nat → List Nat
  | [], carry => Nat.digits 10 carry
  | a :: as, carry => (a * m + carry) % 10 :: productDigits m as ((a * m + carry) / 10)

/-- What a short division by `d` writes, and the remainder: each digit is
divided behind the remainder of the digits above it. -/
def quotientDigits (d : Nat) : List Nat → List Nat × Nat
  | [] => ([], 0)
  | a :: as =>
    let above := quotientDigits d as
    let cur := above.2 * 10 + a
    (cur / d :: above.1, cur % d)

/-! ## §2. Bytes lose nothing. -/

theorem map_ofNat (n : Nat) : (ofNat n).map UInt8.toNat = Nat.digits 10 n := by
  fun_induction ofNat n with
  | case1 => simp
  | case2 n hn ih =>
      rw [List.map_cons, ih, toNat_ofNat_mod,
        Nat.digits_def' (by decide) (Nat.pos_of_ne_zero hn)]

/-- **Multiplying in bytes is multiplying without bound.** -/
theorem map_mulCarry (m : Nat) (done ds : Digits) (c : Nat) :
    (mulCarry m done ds c).map UInt8.toNat
      = done.reverse.map UInt8.toNat ++ productDigits m (ds.map UInt8.toNat) c := by
  fun_induction mulCarry m done ds c with
  | case1 done c =>
      rw [List.reverseAux_eq, List.map_append, map_ofNat]
      rfl
  | case2 done d ds c v ih =>
      -- the digit just made is the next one of the unbounded pass
      rw [ih, List.reverse_cons, List.map_append, List.append_assoc, List.map_singleton,
        toNat_ofNat_mod]
      rfl

/-- **Dividing in bytes is dividing without bound**: no quotient outgrows its
byte. -/
theorem map_divSmall {d : Nat} (hd : 0 < d) {ds : Digits} (h : Decimal ds) :
    ((divSmall d ds).1.map UInt8.toNat, (divSmall d ds).2)
      = quotientDigits d (ds.map UInt8.toNat) := by
  induction ds with
  | nil => rfl
  | cons a as ih =>
      obtain ⟨hda, has⟩ := decimal_cons.1 h
      -- what the digits above leave over is below `d`
      obtain ⟨_, hrem, _⟩ := divSmall_exact hd has
      have hdig := quotient_lt_ten hrem hda
      rw [divSmall_cons, List.map_cons, quotientDigits, ← ih has]
      simp only [divStep, List.map_cons, toNat_ofNat_digit hdig]

/-! ## §3. The passes undo each other. -/

theorem trimmed_mulSmallAdd (ds : Digits) (m c : Nat) : Trimmed (mulSmallAdd ds m c) :=
  trimmed_trim _

theorem trimmed_quoRemSmall (ds : Digits) (d : Nat) : Trimmed (quoRemSmall ds d).1 :=
  trimmed_trim _

/-- **Dividing undoes multiplying.** -/
theorem quoRemSmall_mulSmallAdd {ds : Digits} (h : Decimal ds) {m c : Nat} (hc : c < m) :
    quoRemSmall (mulSmallAdd ds m c) m = (trim ds, c) := by
  have hm : 0 < m := by omega
  -- the summand is below `m`, so it is the remainder and adds nothing to the quotient
  obtain ⟨hquo, hrem, hdec⟩ := quoRemSmall_exact hm (decimal_mulSmallAdd ds m c)
  rw [value_mulSmallAdd, Nat.mul_comm] at hquo hrem
  apply Prod.ext
  · apply Trimmed.eq_of_value_eq (trimmed_quoRemSmall _ _) (trimmed_trim ds) hdec (decimal_trim h)
    rw [hquo, value_trim, Nat.mul_add_div hm, Nat.div_eq_of_lt hc, Nat.add_zero]
  · show (quoRemSmall (mulSmallAdd ds m c) m).2 = c
    rw [hrem, Nat.mul_add_mod, Nat.mod_eq_of_lt hc]

/-- **Multiplying undoes dividing.** -/
theorem mulSmallAdd_quoRemSmall {ds : Digits} (h : Decimal ds) {d : Nat} (hd : 0 < d) :
    mulSmallAdd (quoRemSmall ds d).1 d (quoRemSmall ds d).2 = trim ds := by
  obtain ⟨hquo, hrem, _⟩ := quoRemSmall_exact hd h
  apply Trimmed.eq_of_value_eq (trimmed_mulSmallAdd _ _ _) (trimmed_trim ds)
    (decimal_mulSmallAdd _ _ _) (decimal_trim h)
  rw [value_mulSmallAdd, value_trim, hquo, hrem, Nat.div_add_mod']

/-- **Short multiplication and short division are exact, and inverse to each
other.**  What they give are decimal digits without leading zeros; they
denote the product with the summand, and the quotient next to the remainder;
every byte holds the number that was put into it; and each of the two passes
takes back what the other did, up to leading zeros. -/
theorem short_passes_inverse {ds : Digits} (h : Decimal ds) :
    (∀ m c, Decimal (mulSmallAdd ds m c) ∧ Trimmed (mulSmallAdd ds m c) ∧
      value (mulSmallAdd ds m c) = m * value ds + c ∧
      (mulCarry m [] ds c).map UInt8.toNat = productDigits m (ds.map UInt8.toNat) c) ∧
    (∀ d, 0 < d → Decimal (quoRemSmall ds d).1 ∧ Trimmed (quoRemSmall ds d).1 ∧
      value (quoRemSmall ds d).1 = value ds / d ∧ (quoRemSmall ds d).2 = value ds % d ∧
      ((divSmall d ds).1.map UInt8.toNat, (divSmall d ds).2)
        = quotientDigits d (ds.map UInt8.toNat)) ∧
    (∀ m c, c < m → quoRemSmall (mulSmallAdd ds m c) m = (trim ds, c)) ∧
    ∀ d, 0 < d → mulSmallAdd (quoRemSmall ds d).1 d (quoRemSmall ds d).2 = trim ds := by
  refine ⟨?_, ?_, ?_, ?_⟩
  · intro m c
    refine ⟨decimal_mulSmallAdd ds m c, trimmed_mulSmallAdd ds m c, ?_, map_mulCarry m [] ds c⟩
    rw [value_mulSmallAdd, Nat.mul_comm]
  · intro d hd
    obtain ⟨hquo, hrem, hdec⟩ := quoRemSmall_exact hd h
    exact ⟨hdec, trimmed_quoRemSmall ds d, hquo, hrem, map_divSmall hd h⟩
  · intro m c hc
    exact quoRemSmall_mulSmallAdd h hc
  · intro d hd
    exact mulSmallAdd_quoRemSmall h hd

/-- The number 99 with a leading zero, times 36 plus 35 and back: every carry
but the last has two digits. -/
theorem short_passes_inverse_carries :
    let ds : Digits := [9, 9, 0]
    Decimal ds ∧ 35 < 36 ∧ mulSmallAdd ds 36 35 = [9, 9, 5, 3] ∧
      value [9, 9, 5, 3] = 36 * value ds + 35 ∧ quoRemSmall [9, 9, 5, 3] 36 = ([9, 9], 35) ∧
      productDigits 36 (ds.map UInt8.toNat) 35 = [9, 9, 5, 3] ∧
      quotientDigits 7 (ds.map UInt8.toNat) = ([4, 1, 0], 1) := by
  intro ds
  have hds : Decimal ds := by simp [ds]
  have hproduct : mulSmallAdd ds 36 35 = [9, 9, 5, 3] := by cbv
  obtain ⟨hmul, hdiv, hundo, _⟩ := short_passes_inverse hds
  obtain ⟨_, _, hvalue, hbytes⟩ := hmul 36 35
  obtain ⟨_, _, _, _, hquotients⟩ := hdiv 7 (by decide)
  have hback := hundo 36 35 (by decide)
  rw [hproduct] at hvalue hback
  exact ⟨hds, by decide, hproduct, hvalue, hback, hbytes.symm.trans (by cbv),
    hquotients.symm.trans (by decide)⟩

end Digits

end Tetraglyph
