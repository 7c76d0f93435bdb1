/-
  Tetraglyph.Proofs.Numeral.Order
  ───────────────────────────────
  **NUMERALS ARE ORDERED AS THE INTEGERS ARE.**

  Digits can be compared without any arithmetic: the number with more digits
  is the larger one, and of two with equally many digits the MOST SIGNIFICANT
  DIFFERENCE decides.  The first rule holds because no digit is wasted on a
  leading zero, the second because the digits below a place never make up
  for one more in it.  With the signs in front of the magnitudes this is the
  order of integers, and so the sign of the difference.

      Digits.byCount   — the number of digits first, then digit by digit
      orderSign        — an order as the number -1, 0 or 1

  Main results

      Trimmed.pow_le    — a number is as large as its count of digits says
      compare_reverse   — equally many digits are compared like words
      byCount_eq        — counting digits first finds the order of values
      order_exact       — comparing numerals is comparing integers
-/
import Tetraglyph.Proofs.Numeral.Expressions

namespace Tetraglyph

namespace Digits

/-! ## §1. Digits compared by their number, and then one by one. -/

/-- **The order of two magnitudes by counting**: without leading zeros the
longer one is larger; of two that are equally long the first difference
decides, from the most significant digit on. -/
def byCount (as bs : Digits) : Ordering :=
  (compare as.trim.length bs.trim.length).then (compare as.trim.reverse bs.trim.reverse)

/-- A number of more than one digit is as large as its count of digits says. -/
theorem Trimmed.pow_le {ds : Digits} (ht : Trimmed ds) (hlen : 1 < ds.length) :
    10 ^ (ds.length - 1) ≤ value ds := by
  rcases List.eq_nil_or_concat' ds with hnil | ⟨init, top, rfl⟩
  · exact absurd hnil ht.1
  · -- the leading digit is not 0, and weighs that much
    have htop : top.toNat ≠ 0 := by
      intro h0
      have hzero : init ++ [top] = zero := by
        apply ht.2
        rw [List.getLast?_concat, Option.some.injEq]
        exact UInt8.toNat_inj.1 h0
      rw [hzero] at hlen
      exact absurd hlen (by decide)
    have hweight := Nat.le_mul_of_pos_right (10 ^ init.length) (Nat.pos_of_ne_zero htop)
    rw [value_append, value_cons, value_nil, List.length_append, List.length_singleton]
    show 10 ^ init.length ≤ value init + 10 ^ init.length * top.toNat
    omega

/-- More digits make a larger number. -/
theorem value_lt_of_length_lt {as bs : Digits} (ha : Decimal as) (hat : Trimmed as)
    (hbt : Trimmed bs) (hlen : as.length < bs.length) : value as < value bs := by
  have hpos : 0 < as.length := List.length_pos_iff.2 hat.1
  calc value as < 10 ^ as.length := value_lt ha
    _ ≤ 10 ^ (bs.length - 1) := Nat.pow_le_pow_right (by decide) (by omega)
    _ ≤ value bs := hbt.pow_le (by omega)

/-- Of two equally long words the last bytes decide last. -/
theorem compare_concat (a b : UInt8) (as bs : List UInt8) (hlen : as.length = bs.length) :
    compare (as ++ [a]) (bs ++ [b]) = (compare as bs).then (compare a b) := by
  induction as generalizing bs with
  | nil =>
      obtain rfl := List.length_eq_zero_iff.1 hlen.symm
      rw [List.nil_append, List.nil_append, List.compare_cons_cons, List.compare_nil_nil]
      exact Ordering.then_eq
  | cons c as ih =>
      cases bs with
      | nil => exact absurd hlen (by simp)
      | cons d bs =>
          rw [List.cons_append, List.cons_append, List.compare_cons_cons,
            List.compare_cons_cons, ih bs (Nat.succ.inj hlen), Ordering.then_assoc]

/-- **Equally many digits are compared like words**, from the most significant
one on. -/
theorem compare_reverse {as bs : Digits} (ha : Decimal as) (hb : Decimal bs)
    (hlen : as.length = bs.length) :
    compare as.reverse bs.reverse = compare (value as) (value bs) := by
  induction as generalizing bs with
  | nil =>
      obtain rfl := List.length_eq_zero_iff.1 hlen.symm
      rfl
  | cons a as ih =>
      cases bs with
      | nil => exact absurd hlen (by simp)
      | cons b bs =>
          obtain ⟨hda, has⟩ := decimal_cons.1 ha
          obtain ⟨hdb, hbs⟩ := decimal_cons.1 hb
          have hlen : as.length = bs.length := Nat.succ.inj hlen
          -- the least significant digits are compared last
          rw [List.reverse_cons, List.reverse_cons, compare_concat a b _ _ (by simpa using hlen),
            ih has hbs hlen, compare_toNat, value_cons, value_cons, compare_digit hda hdb]

/-- **Counting digits first finds the order of values.** -/
theorem byCount_eq {as bs : Digits} (ha : Decimal as) (hb : Decimal bs) :
    byCount as bs = compare (value as) (value bs) := by
  have had := decimal_trim ha
  have hbd := decimal_trim hb
  have hat := trimmed_trim as
  have hbt := trimmed_trim bs
  unfold byCount
  rw [← value_trim as, ← value_trim bs]
  rcases Nat.lt_trichotomy as.trim.length bs.trim.length with hlt | heq | hgt
  · rw [Nat.compare_eq_lt.2 hlt, Nat.compare_eq_lt.2 (value_lt_of_length_lt had hat hbt hlt)]
    rfl
  · rw [Nat.compare_eq_eq.2 heq, compare_reverse had hbd heq]
    rfl
  · rw [Nat.compare_eq_gt.2 hgt, Nat.compare_eq_gt.2 (value_lt_of_length_lt hbd hbt hat hgt)]
    rfl

end Digits

/-! ## §2. The order of integers as a number. -/

/-- An order as a number: -1, 0 or 1. -/
def orderSign : Ordering → Int
  | .lt => -1
  | .eq => 0
  | .gt => 1

theorem orderSign_swap (o : Ordering) : orderSign o.swap = -orderSign o := by
  cases o <;> rfl

/-- The order of two integers is the sign of their difference. -/
theorem orderSign_compare (i j : Int) : orderSign (compare i j) = (i - j).sign := by
  rcases Int.lt_trichotomy i j with h | h | h
  · rw [Int.compare_eq_lt.2 h, Int.sign_eq_neg_one_of_neg (by omega)]
    rfl
  · rw [Int.compare_eq_eq.2 h, h, Int.sub_self]
    rfl
  · rw [Int.compare_eq_gt.2 h, Int.sign_eq_one_of_pos (by omega)]
    rfl

/-- An order that holds from one integer to the next holds across both. -/
theorem compare_trans {i j k : Int} {o : Ordering} (hij : compare i j = o)
    (hjk : compare j k = o) : compare i k = o := by
  cases o with
  | lt =>
      rw [Int.compare_eq_lt] at hij hjk ⊢
      omega
  | eq =>
      rw [Int.compare_eq_eq] at hij hjk ⊢
      omega
  | gt =>
      rw [Int.compare_eq_gt] at hij hjk ⊢
      omega

namespace Numeral

/-! ## §3. Numerals. -/

section

variable {x y : Numeral} (hx : x.WellFormed) (hy : y.WellFormed)

include hx hy

theorem equal_iff : x.equal y = true ↔ x.toInt = y.toInt := by
  rw [equal_eq hx hy, decide_eq_true_iff]

theorem less_iff : x.less y = true ↔ x.toInt < y.toInt := by
  unfold less
  rw [cmp_eq_compare hx hy, beq_iff_eq, Int.compare_eq_lt]

theorem lessEq_iff : x.lessEq y = true ↔ x.toInt ≤ y.toInt := by
  unfold lessEq
  rw [cmp_eq_compare hx hy, bne_iff_ne, ne_eq, Int.compare_eq_gt, Int.not_lt]

theorem greater_iff : x.greater y = true ↔ x.toInt > y.toInt := by
  unfold greater
  rw [cmp_eq_compare hx hy, beq_iff_eq, Int.compare_eq_gt]

theorem greaterEq_iff : x.greaterEq y = true ↔ x.toInt ≥ y.toInt := by
  unfold greaterEq
  rw [cmp_eq_compare hx hy, bne_iff_ne, ne_eq, Int.compare_eq_lt, Int.not_lt]

end

/-- **Comparing numerals is comparing integers.**  The order is the sign of the
difference of the integers, and the sign of the difference of the numerals.
The five relations are those of the integers.  The other way round the order
is the opposite one, and two numbers neither of which is larger are equal.
What holds from one number to the next holds across both.  The magnitudes are
told apart by their number of digits, and only then digit by digit. -/
theorem order_exact {x y : Numeral} (hx : x.WellFormed) (hy : y.WellFormed) :
    (orderSign (x.cmp y) = (x.toInt - y.toInt).sign ∧ orderSign (x.cmp y) = (x.sub y).sign) ∧
    ((x.equal y = true ↔ x.toInt = y.toInt) ∧ (x.less y = true ↔ x.toInt < y.toInt) ∧
      (x.lessEq y = true ↔ x.toInt ≤ y.toInt) ∧ (x.greater y = true ↔ x.toInt > y.toInt) ∧
      (x.greaterEq y = true ↔ x.toInt ≥ y.toInt)) ∧
    (orderSign (y.cmp x) = -orderSign (x.cmp y) ∧
      (x.lessEq y = true → y.lessEq x = true → x.equal y = true)) ∧
    (∀ z : Numeral, z.WellFormed →
      (∀ o, x.cmp y = o → y.cmp z = o → x.cmp z = o) ∧
      (x.lessEq y = true → y.lessEq z = true → x.lessEq z = true)) ∧
    Digits.cmp x.mag y.mag = Digits.byCount x.mag y.mag := by
  have hcmp := cmp_eq_compare hx hy
  have hsign : orderSign (x.cmp y) = (x.toInt - y.toInt).sign := by
    rw [hcmp, orderSign_compare]
  refine ⟨⟨hsign, ?_⟩, ⟨equal_iff hx hy, less_iff hx hy, lessEq_iff hx hy, greater_iff hx hy,
    greaterEq_iff hx hy⟩, ⟨?_, ?_⟩, ?_, ?_⟩
  · obtain ⟨hint, hcan⟩ := toInt_sub hx hy
    rw [hsign, sign_eq hcan.wellFormed, hint]
  · rw [cmp_eq_compare hy hx, ← Int.compare_swap, orderSign_swap, hcmp]
  · intro hle hge
    rw [lessEq_iff hx hy] at hle
    rw [lessEq_iff hy hx] at hge
    rw [equal_iff hx hy]
    omega
  · intro z hz
    constructor
    · intro o hxy hyz
      rw [hcmp] at hxy
      rw [cmp_eq_compare hy hz] at hyz
      rw [cmp_eq_compare hx hz]
      exact compare_trans hxy hyz
    · intro hxy hyz
      rw [lessEq_iff hx hy] at hxy
      rw [lessEq_iff hy hz] at hyz
      rw [lessEq_iff hx hz]
      omega
  · have hxd := hx.decimal_mag
    have hyd := hy.decimal_mag
    rw [Digits.cmp_eq hxd hyd, Digits.byCount_eq hxd hyd]

/-- Of -100 and -99 the one with more digits is smaller, and both are smaller
than the numeral without digits. -/
theorem order_exact_negative :
    let x : Numeral := ⟨true, [0, 0, 1]⟩
    let y : Numeral := ⟨true, [9, 9]⟩
    x.WellFormed ∧ y.WellFormed ∧ empty.WellFormed ∧ orderSign (x.cmp y) = -1 ∧
      (x.sub y).sign = -1 ∧ x.less y = true ∧ y.cmp empty = .lt ∧ x.cmp empty = .lt ∧
      Digits.byCount x.mag y.mag = .gt := by
  intro x y
  have hx : x.WellFormed := .inr (canonical_of_getLast? (d := 1) (by simp) rfl (by decide))
  have hy : y.WellFormed := .inr (canonical_of_getLast? (d := 9) (by simp) rfl (by decide))
  have he : empty.WellFormed := .inl rfl
  obtain ⟨⟨hsign, hsub⟩, ⟨_, hless, _⟩, _, htrans, hcount⟩ := order_exact hx hy
  have hye : y.cmp empty = .lt := by decide
  have hlt : x.less y = true := hless.2 (by decide)
  have hxy : x.cmp y = .lt := beq_iff_eq.1 hlt
  have hone : orderSign (x.cmp y) = -1 := hsign
  have hmag : Digits.cmp x.mag y.mag = .gt := by
    rw [Digits.cmp_eq hx.decimal_mag hy.decimal_mag]
    rfl
  exact ⟨hx, hy, he, hone, hsub.symm.trans hone, hlt, hye,
    (htrans empty he).1 .lt hxy hye, hcount.symm.trans hmag⟩

end Numeral

end Tetraglyph
