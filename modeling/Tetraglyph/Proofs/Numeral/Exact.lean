/-
  Tetraglyph.Proofs.Numeral.Exact
  ───────────────────────────────
  **ARITHMETIC IN BYTES LOSES NOTHING.**

  A pass over digits puts one number after another into a byte: the sum of a
  column, the difference of a column, the last digit of a column of products.
  Beside each pass stands the same pass over UNBOUNDED numbers, which knows
  no bytes and lists what each column comes to.  On decimal digits every
  number in these lists fits a byte, and the bytes that the pass writes are
  what the lists say.

      sums, differences, products   — the passes over unbounded numbers
      Fits                          — two magnitudes whose arithmetic stays
                                      inside the bytes

  Main results

      sums_lt, map_addCarry             — no sum wraps
      differences_lt, map_subBorrow     — no difference wraps
      Decimal.fits                      — decimal digits fit
      ring_exact                        — sums, differences, products, signs
-/
import Tetraglyph.Proofs.Numeral.Arithmetic

namespace Tetraglyph

namespace Digits

/-! ## §1. The passes over unbounded numbers. -/

/-- The sum of each column, the carry into it included; the last carry is a
column of its own. -/
def sums : List Nat → List Nat → Nat → List Nat
  | [], [], carry => [carry]
  | a :: as, [], carry => (a + carry) :: sums as [] ((a + carry) / 10)
  | [], b :: bs, carry => (b + carry) :: sums [] bs ((b + carry) / 10)
  | a :: as, b :: bs, carry => (a + carry + b) :: sums as bs ((a + carry + b) / 10)

/-- The difference of each column, less the borrow from it, with ten more
where that is negative. -/
def differences : List Nat → List Nat → Int → List Int
  | [], _, _ => []
  | a :: as, [], borrow =>
    let d := a - borrow
    if d < 0 then (d + 10) :: differences as [] 1 else d :: differences as [] 0
  | a :: as, b :: bs, borrow =>
    let d := a - borrow - b
    if d < 0 then (d + 10) :: differences as bs 1 else d :: differences as bs 0

/-- The column sums of a product, the carry into each of them included. -/
def products : List Nat → Nat → List Nat
  | [], _ => []
  | v :: vs, carry => (v + carry) :: products vs ((v + carry) / 10)

/-- Whatever the passes over two magnitudes put into a byte fits, and the
carry of a product is used up. -/
structure Fits (as bs : Digits) : Prop where
  /-- Sums fit a byte. -/
  sum_lt : ∀ s ∈ sums (as.map UInt8.toNat) (bs.map UInt8.toNat) 0, s < 256
  /-- The digits of a sum are the last digits of the sums. -/
  sum_eq : (addCarry as bs 0).map UInt8.toNat
    = (sums (as.map UInt8.toNat) (bs.map UInt8.toNat) 0).map (· % 10)
  /-- Differences fit a byte, and are not negative. -/
  difference_lt : ∀ d ∈ differences (as.map UInt8.toNat) (bs.map UInt8.toNat) 0,
    0 ≤ d ∧ d < 256
  /-- The digits of a difference are the differences. -/
  difference_eq : (subBorrow as bs 0).1.map (fun d => (d.toNat : Int))
    = differences (as.map UInt8.toNat) (bs.map UInt8.toNat) 0
  /-- The digits of a product are the last digits of its columns. -/
  product_eq : (carryColumns (columns as bs) 0).1.map UInt8.toNat
    = (products (columns as bs) 0).map (· % 10)
  /-- No carry is left over. -/
  product_left : (carryColumns (columns as bs) 0).2 = 0

/-! ## §2. Sums. -/

/-- One column of a sum: the byte holds the unbounded sum `n`, so the digit
and the carry are those of `n`. -/
theorem map_column {s : UInt8} {n : Nat} {ds : Digits} {f : Nat → List Nat} (hs : s.toNat = n)
    (h : ds.map UInt8.toNat = (f (s / 10).toNat).map (· % 10)) :
    (s % 10 :: ds).map UInt8.toNat = (n :: f (n / 10)).map (· % 10) := by
  have hmod : (s % 10).toNat = n % 10 := by
    rw [UInt8.toNat_mod, hs]
    rfl
  have hdiv : (s / 10).toNat = n / 10 := by
    rw [UInt8.toNat_div, hs]
    rfl
  rw [List.map_cons, List.map_cons, h, hmod, hdiv]

/-- **No sum wraps**: two digits and a carry stay below 20. -/
theorem sums_lt (as bs : List Nat) (c : Nat) (ha : ∀ a ∈ as, a < 10) (hb : ∀ b ∈ bs, b < 10)
    (hc : c ≤ 1) : ∀ s ∈ sums as bs c, s < 20 := by
  fun_induction sums as bs c with
  | case1 carry => simpa using (show carry < 20 by omega)
  | case2 a as carry ih =>
      obtain ⟨hda, has⟩ := List.forall_mem_cons.1 ha
      exact List.forall_mem_cons.2 ⟨by omega, ih has hb (by omega)⟩
  | case3 b bs carry ih =>
      obtain ⟨hdb, hbs⟩ := List.forall_mem_cons.1 hb
      exact List.forall_mem_cons.2 ⟨by omega, ih ha hbs (by omega)⟩
  | case4 a as b bs carry ih =>
      obtain ⟨hda, has⟩ := List.forall_mem_cons.1 ha
      obtain ⟨hdb, hbs⟩ := List.forall_mem_cons.1 hb
      exact List.forall_mem_cons.2 ⟨by omega, ih has hbs (by omega)⟩

/-- Adding in bytes is adding without bound. -/
theorem map_addCarry (as bs : Digits) (c : UInt8) (ha : Decimal as) (hb : Decimal bs)
    (hc : c.toNat ≤ 1) :
    (addCarry as bs c).map UInt8.toNat
      = (sums (as.map UInt8.toNat) (bs.map UInt8.toNat) c.toNat).map (· % 10) := by
  fun_induction addCarry as bs c with
  | case1 carry =>
      rw [List.map_nil, sums, List.map_singleton, List.map_singleton,
        Nat.mod_eq_of_lt (by omega)]
  | case2 a as carry s ih =>
      obtain ⟨hda, has⟩ := decimal_cons.1 ha
      have hs : s.toNat = a.toNat + carry.toNat := by
        show (a + carry).toNat = _
        rw [UInt8.toNat_add]
        omega
      show _ = (sums (a.toNat :: as.map UInt8.toNat) [] carry.toNat).map (· % 10)
      rw [sums]
      exact map_column (f := sums (as.map UInt8.toNat) []) hs (ih has hb (carry_le (by omega)))
  | case3 b bs carry s ih =>
      obtain ⟨hdb, hbs⟩ := decimal_cons.1 hb
      have hs : s.toNat = b.toNat + carry.toNat := by
        show (b + carry).toNat = _
        rw [UInt8.toNat_add]
        omega
      show _ = (sums [] (b.toNat :: bs.map UInt8.toNat) carry.toNat).map (· % 10)
      rw [sums]
      exact map_column (f := sums [] (bs.map UInt8.toNat)) hs (ih ha hbs (carry_le (by omega)))
  | case4 a as b bs carry s ih =>
      obtain ⟨hda, has⟩ := decimal_cons.1 ha
      obtain ⟨hdb, hbs⟩ := decimal_cons.1 hb
      have hs : s.toNat = a.toNat + carry.toNat + b.toNat := by
        show (a + carry + b).toNat = _
        rw [UInt8.toNat_add, UInt8.toNat_add]
        omega
      show _ = (sums (a.toNat :: as.map UInt8.toNat) (b.toNat :: bs.map UInt8.toNat)
        carry.toNat).map (· % 10)
      rw [sums]
      exact map_column (f := sums (as.map UInt8.toNat) (bs.map UInt8.toNat)) hs
        (ih has hbs (carry_le (by omega)))

/-! ## §3. Differences. -/

/-- **No difference wraps**: with ten more where it is negative it is a
digit. -/
theorem differences_lt (as bs : List Nat) (c : Int) (ha : ∀ a ∈ as, a < 10)
    (hb : ∀ b ∈ bs, b < 10) (hc : 0 ≤ c ∧ c ≤ 1) :
    ∀ d ∈ differences as bs c, 0 ≤ d ∧ d < 10 := by
  fun_induction differences as bs c with
  | case1 => simp
  | case2 a as borrow d hneg ih =>
      obtain ⟨hda, has⟩ := List.forall_mem_cons.1 ha
      exact List.forall_mem_cons.2 ⟨by omega, ih has hb (by omega)⟩
  | case3 a as borrow d hneg ih =>
      obtain ⟨hda, has⟩ := List.forall_mem_cons.1 ha
      exact List.forall_mem_cons.2 ⟨by omega, ih has hb (by omega)⟩
  | case4 a as b bs borrow d hneg ih =>
      obtain ⟨hda, has⟩ := List.forall_mem_cons.1 ha
      obtain ⟨hdb, hbs⟩ := List.forall_mem_cons.1 hb
      exact List.forall_mem_cons.2 ⟨by omega, ih has hbs (by omega)⟩
  | case5 a as b bs borrow d hneg ih =>
      obtain ⟨hda, has⟩ := List.forall_mem_cons.1 ha
      obtain ⟨hdb, hbs⟩ := List.forall_mem_cons.1 hb
      exact List.forall_mem_cons.2 ⟨by omega, ih has hbs (by omega)⟩

/-- One column of a difference: the byte holds the unbounded difference `d`,
with ten more where that is negative, and the borrow says whether it is. -/
theorem map_difference {a s : UInt8} {d : Int} {ds : Digits} {f : Int → List Int}
    (ha : a.toNat < 10) (hs : s.toNat ≤ 10) (hd : d = a.toNat - s.toNat)
    (h : ds.map (fun d => (d.toNat : Int)) = f (if a < s then (1 : UInt8) else 0).toNat) :
    (subDigit a s :: ds).map (fun d => (d.toNat : Int))
      = if d < 0 then (d + 10) :: f 1 else d :: f 0 := by
  obtain ⟨hcol, _⟩ := subDigit_exact ha hs
  rw [List.map_cons, h]
  by_cases hlt : a < s
  · have hlt' := UInt8.lt_iff_toNat_lt.1 hlt
    rw [if_pos hlt] at hcol ⊢
    have hcol : (subDigit a s).toNat + s.toNat = a.toNat + 10 * 1 := hcol
    rw [if_pos (by omega)]
    show ((subDigit a s).toNat : Int) :: f 1 = _
    congr 1
    omega
  · have hle := UInt8.le_iff_toNat_le.1 (UInt8.not_lt.1 hlt)
    rw [if_neg hlt] at hcol ⊢
    have hcol : (subDigit a s).toNat + s.toNat = a.toNat + 10 * 0 := hcol
    rw [if_neg (by omega)]
    show ((subDigit a s).toNat : Int) :: f 0 = _
    congr 1
    omega

/-- Subtracting in bytes is subtracting without bound. -/
theorem map_subBorrow (as bs : Digits) (c : UInt8) (ha : Decimal as) (hb : Decimal bs)
    (hc : c.toNat ≤ 1) :
    (subBorrow as bs c).1.map (fun d => (d.toNat : Int))
      = differences (as.map UInt8.toNat) (bs.map UInt8.toNat) c.toNat := by
  fun_induction subBorrow as bs c with
  | case1 bs borrow => rw [List.map_nil, List.map_nil, differences]
  | case2 a as borrow ds left hrec ih =>
      obtain ⟨hda, has⟩ := decimal_cons.1 ha
      have hds := ih has hb (borrow_le _)
      rw [hrec] at hds
      show _ = differences (a.toNat :: as.map UInt8.toNat) [] borrow.toNat
      rw [differences]
      exact map_difference (f := differences (as.map UInt8.toNat) []) hda (by omega) rfl hds
  | case3 a as b bs borrow s ds left hrec ih =>
      obtain ⟨hda, has⟩ := decimal_cons.1 ha
      obtain ⟨hdb, hbs⟩ := decimal_cons.1 hb
      have hs : s.toNat = b.toNat + borrow.toNat := by
        show (b + borrow).toNat = _
        rw [UInt8.toNat_add]
        omega
      have hds := ih has hbs (borrow_le _)
      rw [hrec] at hds
      show _ = differences (a.toNat :: as.map UInt8.toNat) (b.toNat :: bs.map UInt8.toNat)
        borrow.toNat
      rw [differences]
      exact map_difference (f := differences (as.map UInt8.toNat) (bs.map UInt8.toNat)) hda
        (by omega) (by omega) hds

/-! ## §4. Products. -/

/-- Carrying in bytes is carrying without bound. -/
theorem map_carryColumns (vs : List Nat) (c : Nat) :
    (carryColumns vs c).1.map UInt8.toNat = (products vs c).map (· % 10) := by
  induction vs generalizing c with
  | nil => rfl
  | cons v vs ih =>
      show (UInt8.ofNat ((v + c) % 10)).toNat
          :: (carryColumns vs ((v + c) / 10)).1.map UInt8.toNat
        = (v + c) % 10 :: (products vs ((v + c) / 10)).map (· % 10)
      rw [toNat_ofNat_mod, ih]

/-- **The arithmetic of decimal digits stays inside the bytes.** -/
theorem Decimal.fits {as bs : Digits} (ha : Decimal as) (hb : Decimal bs) : Fits as bs := by
  have hdigit : ∀ {ds : Digits}, Decimal ds → ∀ n ∈ ds.map UInt8.toNat, n < 10 := by
    intro ds hds n hn
    obtain ⟨d, hd, rfl⟩ := List.mem_map.1 hn
    exact lt_ten_iff.1 (hds d hd)
  refine ⟨?_, map_addCarry as bs 0 ha hb (by decide), ?_, map_subBorrow as bs 0 ha hb (by decide),
    map_carryColumns _ _, carryColumns_left ha hb⟩
  · intro s hs
    have := sums_lt _ _ 0 (hdigit ha) (hdigit hb) (by decide) s hs
    omega
  · intro d hd
    have := differences_lt _ _ 0 (hdigit ha) (hdigit hb) (by decide) d hd
    omega

end Digits

namespace Numeral

/-! ## §5. Numerals. -/

theorem toInt_abs (x : Numeral) : x.abs.toInt = x.toInt.natAbs := by
  rw [natAbs_toInt]
  show ((Digits.value x.mag : Nat) : Int) = _
  rfl

/-- A sum leaves no borrow over. -/
theorem add?_eq {x y : Numeral} (hx : x.WellFormed) (hy : y.WellFormed) :
    x.add? y = some (x.add y) := by
  obtain ⟨r, hr, _⟩ := add?_exact hx hy
  unfold add
  rw [hr]
  rfl

/-- **Arithmetic on numerals is exact.**  The results denote the sum, the
difference, the product, the opposite, the absolute value, the successor and
the predecessor; no subtraction of magnitudes leaves a borrow over; and
whatever passes over the magnitudes are made, no number outgrows its byte
and no carry of a product is left over. -/
theorem ring_exact {x y : Numeral} (hx : x.WellFormed) (hy : y.WellFormed) :
    ((x.add y).toInt = x.toInt + y.toInt ∧ (x.sub y).toInt = x.toInt - y.toInt ∧
      (x.mul y).toInt = x.toInt * y.toInt ∧ x.negate.toInt = -x.toInt ∧
      x.abs.toInt = |x.toInt| ∧ x.inc.toInt = x.toInt + 1 ∧ x.dec.toInt = x.toInt - 1) ∧
    (x.add? y = some (x.add y) ∧ x.add? y.negate = some (x.sub y) ∧
      x.add? one = some x.inc ∧ x.add? one.negate = some x.dec) ∧
    ∀ a ∈ [x, y, y.negate, one, one.negate], ∀ b ∈ [x, y, y.negate, one, one.negate],
      Digits.Fits a.mag b.mag := by
  have h1 := canonical_one.wellFormed
  obtain ⟨hneg, hcan⟩ := toInt_negate hy
  obtain ⟨hneg1, hcan1⟩ := toInt_negate h1
  refine ⟨⟨(toInt_add hx hy).1, ?_, (toInt_mul hx hy).1, (toInt_negate hx).1, ?_,
    (toInt_add hx h1).1, ?_⟩, ⟨add?_eq hx hy, add?_eq hx hcan.wellFormed, add?_eq hx h1,
    add?_eq hx hcan1.wellFormed⟩, ?_⟩
  · show (x.add y.negate).toInt = _
    rw [(toInt_add hx hcan.wellFormed).1, hneg]
    rfl
  · rw [toInt_abs, Int.abs_eq_natAbs]
  · show (x.add one.negate).toInt = _
    rw [(toInt_add hx hcan1.wellFormed).1, hneg1]
    rfl
  · -- all five have decimal magnitudes
    have hall : ∀ a ∈ [x, y, y.negate, one, one.negate], Digits.Decimal a.mag := by
      simp only [List.forall_mem_cons, List.not_mem_nil, false_implies, implies_true, and_true]
      exact ⟨hx.decimal_mag, hy.decimal_mag, hcan.wellFormed.decimal_mag, h1.decimal_mag,
        hcan1.wellFormed.decimal_mag⟩
    exact fun a ha b hb => (hall a ha).fits (hall b hb)

/-- A borrow through all digits of 1000, and a carry through all of 999. -/
theorem ring_exact_thousand :
    let x : Numeral := ⟨false, [0, 0, 0, 1]⟩
    let y : Numeral := ⟨true, [1]⟩
    x.WellFormed ∧ y.WellFormed ∧ (x.add y).toInt = 999 ∧ (x.mul y).toInt = -1000 ∧
      x.add? y = some (x.add y) ∧ Digits.Fits x.mag y.mag := by
  intro x y
  have hx : x.WellFormed := .inr (canonical_of_getLast? (d := 1) (by simp) rfl (by decide))
  have hy : y.WellFormed := .inr (canonical_of_getLast? (d := 1) (by simp) rfl (by decide))
  obtain ⟨⟨hadd, _, hmul, _⟩, ⟨hsome, _⟩, hfits⟩ := ring_exact hx hy
  exact ⟨hx, hy, hadd, hmul, hsome, hfits x (by simp) y (by simp)⟩

end Numeral

end Tetraglyph
