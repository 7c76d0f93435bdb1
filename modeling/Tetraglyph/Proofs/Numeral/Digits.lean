/-
  Tetraglyph.Proofs.Numeral.Digits
  ────────────────────────────────
  **THE SCHOOLBOOK ALGORITHMS ARE EXACT.**

  Every digit loop has one invariant, an equation between the VALUE of the
  digits read, the value of the digits made, and what is carried on.  The
  carry is weighted by a power of ten; where it is dropped at the end, a
  bound on the whole shows that it was 0.  Bytes never overflow because a
  DECIMAL digit is below 10 and a carry is at most 1.

  Results are decimal, and TRIMMED: no leading zeros, but at least one digit.

  Main results

      value_addCarry, value_subBorrow   — one pass with carry or borrow
      cmpAbove_eq                       — the most significant difference decides
      value_columns, value_carryColumns — column sums and their carries
      value_mulCarry, divSmall_exact    — short multiplication and division
      value_add, sub?_exact, value_mul  — the operations on magnitudes
-/
import Mathlib.Data.Nat.Digits.Defs
import Mathlib.Tactic.Ring
import Tetraglyph.Numeral.Digits

namespace Tetraglyph

namespace Digits

/-! ## §1. Decimal digits and their normal form. -/

/-- Every byte is a decimal digit. -/
def Decimal (ds : Digits) : Prop := ∀ d ∈ ds, d < 10

/-- No leading zeros, and at least one digit. -/
def Trimmed (ds : Digits) : Prop := ds ≠ [] ∧ (ds.getLast? = some 0 → ds = zero)

theorem lt_ten_iff {d : UInt8} : d < 10 ↔ d.toNat < 10 := UInt8.lt_iff_toNat_lt

@[simp] theorem decimal_nil : Decimal [] := fun _ h => absurd h (by simp)

@[simp] theorem decimal_cons {d : UInt8} {ds : Digits} :
    Decimal (d :: ds) ↔ d.toNat < 10 ∧ Decimal ds := by
  unfold Decimal
  rw [List.forall_mem_cons, lt_ten_iff]

theorem decimal_zero : Decimal zero := by simp [zero]

/-- A digit fits its byte. -/
theorem toNat_ofNat_digit {n : Nat} (h : n < 10) : (UInt8.ofNat n).toNat = n := by
  rw [UInt8.toNat_ofNat']
  omega

theorem toNat_ofNat_mod (n : Nat) : (UInt8.ofNat (n % 10)).toNat = n % 10 :=
  toNat_ofNat_digit (Nat.mod_lt n (by decide))

@[simp] theorem value_nil : value [] = 0 := rfl

@[simp] theorem value_cons (d : UInt8) (ds : Digits) :
    value (d :: ds) = d.toNat + 10 * value ds := rfl

theorem value_append (as bs : Digits) :
    value (as ++ bs) = value as + 10 ^ as.length * value bs := by
  induction as with
  | nil => simp
  | cons a as ih =>
      rw [List.cons_append, value_cons, value_cons, ih, List.length_cons]
      ring

theorem value_eq_ofDigits (ds : Digits) : value ds = Nat.ofDigits 10 (ds.map UInt8.toNat) := by
  induction ds with
  | nil => rfl
  | cons d ds ih => rw [value_cons, List.map_cons, Nat.ofDigits_cons, ih]

theorem value_lt {ds : Digits} (h : Decimal ds) : value ds < 10 ^ ds.length := by
  induction ds with
  | nil => simp
  | cons d ds ih =>
      obtain ⟨hd, hds⟩ := decimal_cons.1 h
      have := ih hds
      rw [value_cons, List.length_cons, Nat.pow_succ]
      omega

theorem isZero_iff (ds : Digits) : isZero ds = true ↔ value ds = 0 := by
  constructor
  · intro h
    induction ds with
    | nil => rfl
    | cons d ds ih =>
        unfold isZero at h ih
        rw [List.all_cons, Bool.and_eq_true, beq_iff_eq] at h
        rw [value_cons, h.1, ih h.2]
        rfl
  · intro h
    cases hz : isZero ds with
    | true => rfl
    | false =>
        have := value_pos_of_isZero_eq_false hz
        omega

/-! ## §2. Stripping leading zeros. -/

theorem mem_of_mem_strip {ds : Digits} {d : UInt8} (h : d ∈ strip ds) : d ∈ ds := by
  induction ds with
  | nil => exact h
  | cons e es ih =>
      unfold strip at h
      split at h
      next =>
          split at h
          · exact absurd h (by simp)
          · rw [List.mem_singleton] at h
            exact h ▸ List.mem_cons_self
      next hs =>
          rw [hs] at ih
          rcases List.mem_cons.1 h with rfl | h
          · exact List.mem_cons_self
          · exact List.mem_cons_of_mem _ (ih h)

theorem getLast?_strip (ds : Digits) : (strip ds).getLast? ≠ some 0 := by
  induction ds with
  | nil => simp [strip]
  | cons d ds ih =>
      unfold strip
      split
      next =>
          split
          · simp
          next hd =>
              rw [List.getLast?_singleton, ne_eq, Option.some.injEq]
              intro h0
              exact hd (by rw [h0]; rfl)
      next hs =>
          rw [hs] at ih
          rw [List.getLast?_cons_cons]
          exact ih

theorem decimal_trim {ds : Digits} (h : Decimal ds) : Decimal (trim ds) := by
  unfold trim
  split
  · exact h
  · split
    next => exact decimal_zero
    next hs => exact fun d hd => h d (mem_of_mem_strip (hs ▸ hd))

theorem trimmed_trim (ds : Digits) : Trimmed (trim ds) := by
  unfold trim
  split
  next htop =>
      -- the most significant digit is there and is not 0
      rw [bne_iff_ne, List.getLastD_eq_getLast?] at htop
      constructor
      · intro hnil
        rw [hnil] at htop
        exact htop rfl
      · intro hlast
        rw [hlast] at htop
        exact absurd rfl htop
  next =>
      split
      next => exact ⟨by simp [zero], fun _ => rfl⟩
      next d es hs =>
          refine ⟨by simp, fun hlast => ?_⟩
          rw [← hs] at hlast
          exact absurd hlast (getLast?_strip ds)

/-- Only the single digit 0 denotes 0. -/
theorem Trimmed.eq_zero {ds : Digits} (ht : Trimmed ds) (hz : value ds = 0) : ds = zero := by
  -- digits that denote 0 are all 0, the last one too
  have hall := (isZero_iff ds).2 hz
  unfold isZero at hall
  rw [List.all_eq_true] at hall
  have hlast := hall _ (List.getLast_mem ht.1)
  rw [beq_iff_eq] at hlast
  refine ht.2 ?_
  rw [List.getLast?_eq_some_getLast ht.1, hlast]

/-- **Trimmed decimal digits are the digits of their value.** -/
theorem digits_value {ds : Digits} (hd : Decimal ds) (ht : Trimmed ds) (hne : value ds ≠ 0) :
    Nat.digits 10 (value ds) = ds.map UInt8.toNat := by
  rw [value_eq_ofDigits]
  apply Nat.digits_ofDigits 10 (by decide)
  · intro l hl
    obtain ⟨d, hmem, rfl⟩ := List.mem_map.1 hl
    exact lt_ten_iff.1 (hd d hmem)
  · intro hnil hlast
    have hnil' : ds ≠ [] := ht.1
    rw [List.getLast_map] at hlast
    have hzero : ds.getLast? = some 0 := by
      rw [List.getLast?_eq_some_getLast hnil', Option.some.injEq]
      exact UInt8.toNat_inj.1 hlast
    rw [ht.2 hzero] at hne
    exact hne rfl

/-- Trimmed decimal digits are told apart by their value. -/
theorem Trimmed.eq_of_value_eq {as bs : Digits} (hat : Trimmed as) (hbt : Trimmed bs)
    (ha : Decimal as) (hb : Decimal bs) (h : value as = value bs) : as = bs := by
  by_cases hz : value as = 0
  · rw [hat.eq_zero hz, hbt.eq_zero (h ▸ hz)]
  · -- both are the digits of one value
    have hmap : as.map UInt8.toNat = bs.map UInt8.toNat := by
      rw [← digits_value ha hat hz, ← digits_value hb hbt (h ▸ hz), h]
    exact (List.map_inj_right fun a b => UInt8.toNat_inj.1).1 hmap

/-! ## §3. Addition. -/

/-- One column of a sum, with the digits above it: what the column leaves
over is carried to them. -/
theorem column_cons {s : UInt8} {n x : Nat} {ds : Digits} (hs : s.toNat = n)
    (h : value ds = x + (s / 10).toNat ∧ Decimal ds) :
    value (s % 10 :: ds) = n + 10 * x ∧ Decimal (s % 10 :: ds) := by
  obtain ⟨hval, hdec⟩ := h
  have hmod : (s % 10).toNat = n % 10 := by
    rw [UInt8.toNat_mod, hs]
    rfl
  have hdiv : (s / 10).toNat = n / 10 := by
    rw [UInt8.toNat_div, hs]
    rfl
  rw [value_cons, hval, decimal_cons, hmod, hdiv]
  exact ⟨by omega, by omega, hdec⟩

theorem carry_le {s : UInt8} (hs : s.toNat < 20) : (s / 10).toNat ≤ 1 := by
  rw [UInt8.toNat_div]
  show s.toNat / 10 ≤ 1
  omega

/-- **Adding keeps the value**, and the bytes stay decimal. -/
theorem value_addCarry (as bs : Digits) (c : UInt8) (ha : Decimal as) (hb : Decimal bs)
    (hc : c.toNat ≤ 1) :
    value (addCarry as bs c) = value as + value bs + c.toNat ∧ Decimal (addCarry as bs c) := by
  -- by the recursion of the pass: two digits and a carry stay below 20, so the
  -- byte does not wrap and the next carry is at most 1 again
  fun_induction addCarry as bs c with
  | case1 carry =>
      rw [value_cons, value_nil, decimal_cons]
      exact ⟨by omega, by omega, decimal_nil⟩
  | case2 a as carry s ih =>
      obtain ⟨hda, has⟩ := decimal_cons.1 ha
      have hs : s.toNat = a.toNat + carry.toNat := by
        show (a + carry).toNat = _
        rw [UInt8.toNat_add]
        omega
      obtain ⟨hval, hdec⟩ := column_cons hs (ih has hb (carry_le (by omega)))
      rw [hval, value_cons, value_nil]
      exact ⟨by omega, hdec⟩
  | case3 b bs carry s ih =>
      obtain ⟨hdb, hbs⟩ := decimal_cons.1 hb
      have hs : s.toNat = b.toNat + carry.toNat := by
        show (b + carry).toNat = _
        rw [UInt8.toNat_add]
        omega
      obtain ⟨hval, hdec⟩ := column_cons hs (ih ha hbs (carry_le (by omega)))
      rw [hval, value_cons, value_nil]
      exact ⟨by omega, hdec⟩
  | case4 a as b bs carry s ih =>
      obtain ⟨hda, has⟩ := decimal_cons.1 ha
      obtain ⟨hdb, hbs⟩ := decimal_cons.1 hb
      have hs : s.toNat = a.toNat + carry.toNat + b.toNat := by
        show (a + carry + b).toNat = _
        rw [UInt8.toNat_add, UInt8.toNat_add]
        omega
      obtain ⟨hval, hdec⟩ := column_cons hs (ih has hbs (carry_le (by omega)))
      rw [hval, value_cons, value_cons]
      exact ⟨by omega, hdec⟩

theorem value_add {as bs : Digits} (ha : Decimal as) (hb : Decimal bs) :
    value (add as bs) = value as + value bs := by
  unfold add
  rw [value_trim, (value_addCarry as bs 0 ha hb (by decide)).1]
  rfl

theorem decimal_add {as bs : Digits} (ha : Decimal as) (hb : Decimal bs) :
    Decimal (add as bs) := decimal_trim (value_addCarry as bs 0 ha hb (by decide)).2

/-! ## §4. Subtraction. -/

/-- One column of a difference: ten more where there is a borrow. -/
theorem subDigit_exact {a s : UInt8} (ha : a.toNat < 10) (hs : s.toNat ≤ 10) :
    (subDigit a s).toNat + s.toNat = a.toNat + 10 * (if a < s then (1 : UInt8) else 0).toNat ∧
      (subDigit a s).toNat < 10 := by
  unfold subDigit
  by_cases h : a < s
  · have hlt := UInt8.lt_iff_toNat_lt.1 h
    rw [if_pos h, if_pos h]
    have hsub : (a + 10 - s).toNat = a.toNat + 10 - s.toNat := by
      have hadd : (a + 10).toNat = a.toNat + 10 := by
        rw [UInt8.toNat_add]
        show (a.toNat + 10) % 256 = _
        omega
      rw [UInt8.toNat_sub_of_le _ _ (UInt8.le_iff_toNat_le.2 (by omega)), hadd]
    rw [hsub]
    show a.toNat + 10 - s.toNat + s.toNat = a.toNat + 10 * 1 ∧ _
    omega
  · have hle : s.toNat ≤ a.toNat := by
      have := UInt8.not_lt.1 h
      exact UInt8.le_iff_toNat_le.1 this
    rw [if_neg h, if_neg h, UInt8.toNat_sub_of_le _ _ (UInt8.le_iff_toNat_le.2 hle)]
    show a.toNat - s.toNat + s.toNat = a.toNat + 10 * 0 ∧ _
    omega

theorem borrow_le (p : Prop) [Decidable p] : (if p then (1 : UInt8) else 0).toNat ≤ 1 := by
  split <;> decide

/-- **Subtracting keeps the value**, up to the borrow left over, along the
digits of the first list. -/
theorem value_subBorrow (as bs : Digits) (c : UInt8) (ha : Decimal as) (hb : Decimal bs)
    (hc : c.toNat ≤ 1) :
    value (subBorrow as bs c).1 + value (bs.take as.length) + c.toNat
        = value as + 10 ^ as.length * (subBorrow as bs c).2.toNat ∧
      Decimal (subBorrow as bs c).1 ∧ (subBorrow as bs c).1.length = as.length := by
  -- the borrow into the next column weighs ten in this one
  fun_induction subBorrow as bs c with
  | case1 bs carry => simp
  | case2 a as carry ds left hrec ih =>
      obtain ⟨hda, has⟩ := decimal_cons.1 ha
      obtain ⟨hcol, hdig⟩ := subDigit_exact hda (show carry.toNat ≤ 10 by omega)
      obtain ⟨hval, hdec, hlen⟩ := ih has hb (borrow_le _)
      rw [hrec] at hval hdec hlen
      simp only [List.take_nil, value_nil, value_cons, decimal_cons, List.length_cons,
        Nat.pow_succ] at hval hdec hlen ⊢
      refine ⟨?_, ⟨hdig, hdec⟩, by rw [hlen]⟩
      rw [Nat.mul_comm (10 ^ as.length) 10, Nat.mul_assoc]
      omega
  | case3 a as b bs carry s ds left hrec ih =>
      obtain ⟨hda, has⟩ := decimal_cons.1 ha
      obtain ⟨hdb, hbs⟩ := decimal_cons.1 hb
      have hs : s.toNat = b.toNat + carry.toNat := by
        show (b + carry).toNat = _
        rw [UInt8.toNat_add]
        omega
      obtain ⟨hcol, hdig⟩ := subDigit_exact hda (show s.toNat ≤ 10 by omega)
      obtain ⟨hval, hdec, hlen⟩ := ih has hbs (borrow_le _)
      rw [hrec] at hval hdec hlen
      simp only [List.take_succ_cons, value_cons, decimal_cons, List.length_cons,
        Nat.pow_succ] at hval hdec hlen ⊢
      refine ⟨?_, ⟨hdig, hdec⟩, by rw [hlen]⟩
      rw [Nat.mul_comm (10 ^ as.length) 10, Nat.mul_assoc]
      omega

/-- The digits above the others count for nothing if there is too little. -/
theorem value_take {as bs : Digits} (ha : Decimal as) (hle : value bs ≤ value as) :
    value (bs.take as.length) = value bs := by
  have hsplit := value_append (bs.take as.length) (bs.drop as.length)
  rw [List.take_append_drop] at hsplit
  rcases Nat.lt_or_ge as.length bs.length with hlen | hlen
  · rw [List.length_take, Nat.min_eq_left (Nat.le_of_lt hlen)] at hsplit
    -- a digit beyond the first list would weigh more than all of it
    have hlt := value_lt ha
    have hzero : value (bs.drop as.length) = 0 := by
      by_contra hne
      have := Nat.le_mul_of_pos_right (10 ^ as.length) (Nat.pos_of_ne_zero hne)
      omega
    rw [hzero] at hsplit
    omega
  · rw [List.take_of_length_le hlen]

/-- **Subtraction is exact** where the difference is not negative. -/
theorem sub?_exact {as bs : Digits} (ha : Decimal as) (hb : Decimal bs)
    (hle : value bs ≤ value as) :
    ∃ ds, sub? as bs = some ds ∧ value ds + value bs = value as ∧ Decimal ds := by
  obtain ⟨hval, hdec, hlen⟩ := value_subBorrow as bs 0 ha hb (by decide)
  rw [value_take ha hle] at hval
  have hval : value (subBorrow as bs 0).1 + value bs + 0
      = value as + 10 ^ as.length * (subBorrow as bs 0).2.toNat := hval
  -- a borrow left over would weigh more than all the digits made
  have hleft : (subBorrow as bs 0).2.toNat = 0 := by
    by_contra hne
    have hlt := value_lt hdec
    have := Nat.le_mul_of_pos_right (10 ^ as.length) (Nat.pos_of_ne_zero hne)
    rw [hlen] at hlt
    omega
  refine ⟨trim (subBorrow as bs 0).1, ?_, ?_, decimal_trim hdec⟩
  · have hzero : (subBorrow as bs 0).2 = 0 := UInt8.toNat_inj.1 hleft
    show (if (subBorrow as bs 0).2 == 0 then some (trim (subBorrow as bs 0).1) else none) = _
    rw [hzero]
    rfl
  · rw [value_trim]
    rw [hleft] at hval
    omega

/-! ## §5. Order. -/

theorem compare_toNat (a b : UInt8) : compare a b = compare a.toNat b.toNat := by
  show compareOfLessAndEq a b = compareOfLessAndEq a.toNat b.toNat
  unfold compareOfLessAndEq
  simp only [UInt8.lt_iff_toNat_lt, UInt8.toNat_inj]

/-- A difference higher up decides, whatever the digits below are. -/
theorem compare_digit {a b m n : Nat} (ha : a < 10) (hb : b < 10) :
    compare (a + 10 * m) (b + 10 * n) = (compare m n).then (compare a b) := by
  rcases Nat.lt_trichotomy m n with h | h | h
  · rw [Nat.compare_eq_lt.2 h, Nat.compare_eq_lt.2 (by omega)]
    rfl
  · subst h
    rw [Nat.compare_eq_eq.2 rfl]
    show _ = compare a b
    rcases Nat.lt_trichotomy a b with h | h | h
    · rw [Nat.compare_eq_lt.2 h, Nat.compare_eq_lt.2 (by omega)]
    · rw [Nat.compare_eq_eq.2 h, Nat.compare_eq_eq.2 (by omega)]
    · rw [Nat.compare_eq_gt.2 h, Nat.compare_eq_gt.2 (by omega)]
  · rw [Nat.compare_eq_gt.2 h, Nat.compare_eq_gt.2 (by omega)]
    rfl

/-- **The order of digits is the order of their values.** -/
theorem cmpAbove_eq (lower : Ordering) (as bs : Digits) (ha : Decimal as) (hb : Decimal bs) :
    cmpAbove lower as bs = (compare (value as) (value bs)).then lower := by
  -- `lower` is the order of the digits passed; the digits above may overrule it
  fun_induction cmpAbove lower as bs with
  | case1 lower => rfl
  | case2 lower a as ih =>
      obtain ⟨hda, has⟩ := decimal_cons.1 ha
      have hcmp := compare_digit (m := value as) (n := 0) hda (b := 0) (by decide)
      rw [ih has hb, compare_toNat, ← Ordering.then_assoc, value_cons, value_nil]
      show ((compare (value as) 0).then (compare a.toNat 0)).then lower = _
      rw [← hcmp]
  | case3 lower b bs ih =>
      obtain ⟨hdb, hbs⟩ := decimal_cons.1 hb
      have hcmp := compare_digit (m := 0) (n := value bs) (a := 0) (by decide) hdb
      rw [ih ha hbs, compare_toNat, ← Ordering.then_assoc, value_cons, value_nil]
      show ((compare 0 (value bs)).then (compare 0 b.toNat)).then lower = _
      rw [← hcmp]
  | case4 lower a as b bs ih =>
      obtain ⟨hda, has⟩ := decimal_cons.1 ha
      obtain ⟨hdb, hbs⟩ := decimal_cons.1 hb
      rw [ih has hbs, compare_toNat, ← Ordering.then_assoc, value_cons, value_cons,
        compare_digit hda hdb]

theorem cmp_eq {as bs : Digits} (ha : Decimal as) (hb : Decimal bs) :
    cmp as bs = compare (value as) (value bs) := by
  unfold cmp
  rw [cmpAbove_eq .eq as bs ha hb, Ordering.then_eq]

/-! ## §6. Multiplication. -/

theorem ofDigits_addRow (a : UInt8) (bs : Digits) (cs : List Nat) :
    Nat.ofDigits 10 (addRow a bs cs) = Nat.ofDigits 10 cs + a.toNat * value bs := by
  fun_induction addRow a bs cs with
  | case1 cs => simp
  | case2 b bs ih =>
      rw [Nat.ofDigits_cons, ih, Nat.ofDigits_nil, value_cons]
      ring
  | case3 b bs s cs ih =>
      rw [Nat.ofDigits_cons, ih, Nat.ofDigits_cons, value_cons]
      ring

theorem length_addRow {a : UInt8} {bs : Digits} {cs : List Nat} (h : bs.length ≤ cs.length) :
    (addRow a bs cs).length = cs.length := by
  fun_induction addRow a bs cs with
  | case1 cs => rfl
  | case2 b bs ih => exact absurd h (by simp)
  | case3 b bs s cs ih =>
      rw [List.length_cons, List.length_cons, ih (by simpa using h)]

/-- **The columns add up to the product.** -/
theorem value_columns (as bs : Digits) :
    Nat.ofDigits 10 (columns as bs) = value as * value bs ∧
      (columns as bs).length = as.length + bs.length := by
  induction as with
  | nil =>
      unfold columns
      rw [Nat.ofDigits_replicate_zero, List.length_replicate]
      simp
  | cons a as ih =>
      obtain ⟨hval, hlen⟩ := ih
      unfold columns
      split
      next ha =>
          -- a digit 0 would have added nothing
          rw [beq_iff_eq] at ha
          rw [Nat.ofDigits_cons, hval, value_cons, ha, List.length_cons, hlen, List.length_cons]
          refine ⟨?_, by omega⟩
          show 0 + 10 * (value as * value bs) = (0 + 10 * value as) * value bs
          ring
      next =>
          rw [ofDigits_addRow, Nat.ofDigits_cons, hval, value_cons,
            length_addRow (by rw [List.length_cons]; omega), List.length_cons, hlen,
            List.length_cons]
          refine ⟨?_, by omega⟩
          show 0 + 10 * (value as * value bs) + a.toNat * value bs = _
          ring

/-- **Carrying keeps the value**, up to the carry left over. -/
theorem value_carryColumns (vs : List Nat) (c : Nat) :
    value (carryColumns vs c).1 + 10 ^ vs.length * (carryColumns vs c).2
        = Nat.ofDigits 10 vs + c ∧
      Decimal (carryColumns vs c).1 := by
  induction vs generalizing c with
  | nil => simp [carryColumns]
  | cons v vs ih =>
      obtain ⟨hval, hdec⟩ := ih ((v + c) / 10)
      simp only [carryColumns, value_cons, decimal_cons, toNat_ofNat_mod, List.length_cons,
        Nat.pow_succ, Nat.ofDigits_cons]
      refine ⟨?_, by omega, hdec⟩
      rw [Nat.mul_comm (10 ^ vs.length) 10, Nat.mul_assoc]
      show (v + c) % 10 + 10 * value (carryColumns vs ((v + c) / 10)).1
        + 10 * (10 ^ vs.length * (carryColumns vs ((v + c) / 10)).2)
        = v + 10 * Nat.ofDigits 10 vs + c
      omega

/-- The product of two numbers has no more digits than both together, so no
carry is left over. -/
theorem carryColumns_left {as bs : Digits} (ha : Decimal as) (hb : Decimal bs) :
    (carryColumns (columns as bs) 0).2 = 0 := by
  obtain ⟨hprod, hlen⟩ := value_columns as bs
  obtain ⟨hval, _⟩ := value_carryColumns (columns as bs) 0
  rw [hprod, hlen, Nat.pow_add] at hval
  by_contra hne
  -- a carry would weigh more than the product
  have hlt : value as * value bs < 10 ^ as.length * 10 ^ bs.length :=
    Nat.mul_lt_mul'' (value_lt ha) (value_lt hb)
  have := Nat.le_mul_of_pos_right (10 ^ as.length * 10 ^ bs.length) (Nat.pos_of_ne_zero hne)
  omega

theorem value_mul {as bs : Digits} (ha : Decimal as) (hb : Decimal bs) :
    value (mul as bs) = value as * value bs := by
  unfold mul
  split
  next h =>
      rw [Bool.or_eq_true, isZero_iff, isZero_iff] at h
      rcases h with h | h
      · rw [h, Nat.zero_mul]
        rfl
      · rw [h, Nat.mul_zero]
        rfl
  next =>
      have hval := (value_carryColumns (columns as bs) 0).1
      rw [carryColumns_left ha hb, (value_columns as bs).1] at hval
      rw [value_trim]
      omega

theorem decimal_mul (as bs : Digits) : Decimal (mul as bs) := by
  unfold mul
  split
  · exact decimal_zero
  · exact decimal_trim (value_carryColumns (columns as bs) 0).2

/-! ## §7. Short multiplication and division. -/

theorem value_ofNat (n : Nat) : value (ofNat n) = n ∧ Decimal (ofNat n) := by
  fun_induction ofNat n with
  | case1 => simp
  | case2 n hn ih =>
      rw [value_cons, ih.1, decimal_cons, toNat_ofNat_mod]
      exact ⟨by omega, by omega, ih.2⟩

/-- **Multiplying keeps the value**: what is done, and the rest in its
place. -/
theorem value_mulCarry (m : Nat) (done ds : Digits) (c : Nat) (hdone : Decimal done) :
    value (mulCarry m done ds c)
        = value done.reverse + 10 ^ done.length * (value ds * m + c) ∧
      Decimal (mulCarry m done ds c) := by
  fun_induction mulCarry m done ds c with
  | case1 done c =>
      rw [List.reverseAux_eq, value_append, (value_ofNat c).1, List.length_reverse]
      refine ⟨by simp, ?_⟩
      intro d hd
      rcases List.mem_append.1 hd with hd | hd
      · exact hdone d (List.mem_reverse.1 hd)
      · exact (value_ofNat c).2 d hd
  | case2 done d ds c v ih =>
      have hdig : (UInt8.ofNat (v % 10)).toNat = v % 10 := toNat_ofNat_mod v
      obtain ⟨hval, hdec⟩ := ih (decimal_cons.2 ⟨by omega, hdone⟩)
      refine ⟨?_, hdec⟩
      -- the digit stays here, and the rest goes up by one place
      have hv : v % 10 + 10 * (v / 10) = d.toNat * m + c := Nat.mod_add_div _ _
      rw [hval, List.reverse_cons, value_append, value_cons, value_nil, hdig, value_cons,
        List.length_reverse, List.length_cons, Nat.pow_succ]
      calc value done.reverse + 10 ^ done.length * (v % 10 + 10 * 0)
            + 10 ^ done.length * 10 * (value ds * m + v / 10)
          = value done.reverse + 10 ^ done.length * (v % 10 + 10 * (v / 10))
            + 10 ^ done.length * (10 * (value ds * m)) := by ring
        _ = value done.reverse + 10 ^ done.length * ((d.toNat + 10 * value ds) * m + c) := by
            rw [hv]
            ring

theorem value_mulSmallAdd (ds : Digits) (m c : Nat) :
    value (mulSmallAdd ds m c) = value ds * m + c := by
  unfold mulSmallAdd
  rw [value_trim, (value_mulCarry m [] ds c decimal_nil).1]
  simp

theorem decimal_mulSmallAdd (ds : Digits) (m c : Nat) : Decimal (mulSmallAdd ds m c) :=
  decimal_trim (value_mulCarry m [] ds c decimal_nil).2

/-- Below a remainder that is less than the divisor, the next quotient is a
digit. -/
theorem quotient_lt_ten {r a d : Nat} (hr : r < d) (ha : a < 10) : (r * 10 + a) / d < 10 := by
  apply Nat.div_lt_of_lt_mul
  omega

/-- **Short division is exact**, and every quotient digit fits its byte. -/
theorem divSmall_exact {d : Nat} (hd : 0 < d) {ds : Digits} (h : Decimal ds) :
    d * value (divSmall d ds).1 + (divSmall d ds).2 = value ds ∧ (divSmall d ds).2 < d ∧
      Decimal (divSmall d ds).1 := by
  induction ds with
  | nil => simpa [divSmall_nil] using hd
  | cons a as ih =>
      obtain ⟨hda, has⟩ := decimal_cons.1 h
      obtain ⟨hval, hrem, hdec⟩ := ih has
      rw [divSmall_cons]
      generalize divSmall d as = qr at hval hrem hdec
      have hdig : (qr.2 * 10 + a.toNat) / d < 10 := quotient_lt_ten hrem hda
      simp only [divStep, value_cons, decimal_cons, toNat_ofNat_digit hdig]
      refine ⟨?_, Nat.mod_lt _ hd, hdig, hdec⟩
      have hcur := Nat.div_add_mod (qr.2 * 10 + a.toNat) d
      rw [Nat.mul_add, Nat.mul_left_comm]
      omega

/-- Quotient and remainder of a short division. -/
theorem quoRemSmall_exact {d : Nat} (hd : 0 < d) {ds : Digits} (h : Decimal ds) :
    value (quoRemSmall ds d).1 = value ds / d ∧ (quoRemSmall ds d).2 = value ds % d ∧
      Decimal (quoRemSmall ds d).1 := by
  obtain ⟨hval, hrem, hdec⟩ := divSmall_exact hd h
  refine ⟨?_, ?_, decimal_trim hdec⟩
  · show value (trim (divSmall d ds).1) = _
    rw [value_trim, ← hval, Nat.mul_add_div hd, Nat.div_eq_of_lt hrem]
    rfl
  · show (divSmall d ds).2 = _
    rw [← hval, Nat.mul_add_mod, Nat.mod_eq_of_lt hrem]

end Digits

end Tetraglyph
