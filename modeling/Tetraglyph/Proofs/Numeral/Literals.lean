/-
  Tetraglyph.Proofs.Numeral.Literals
  ──────────────────────────────────
  **NUMBERS FROM DECIMAL TEXTS AND FROM WORDS.**

  A decimal literal is taken digit by digit, without arithmetic; it is the
  same number that reading in base 10 makes of it, and the same texts are
  refused.  A 64-bit integer is taken apart by division; for a negative one
  it is the two's complement that is taken apart, which is its absolute
  value, also for the most negative one.

  Main results

      parse_eq       — a literal is read as the integer it denotes, or refused
      toInt_ofInt64  — a 64-bit integer becomes the same integer
-/
import Tetraglyph.Numeral.Word
import Tetraglyph.Proofs.Numeral.Bases
import Tetraglyph.Proofs.Text.Utf8

namespace Tetraglyph

namespace Numeral

open Digits

/-! ## §1. Decimal literals. -/

/-- What a byte is as a digit of base 10. -/
theorem digit?_ten (c : UInt8) :
    Base.ten.digit? c = if isDecimalByte c then some (c - 48).toNat else none := by
  revert c
  exact Bytes.forall_byte (by decide +kernel)

theorem isDecimalByte_lt {c : UInt8} (h : isDecimalByte c = true) : (c - 48).toNat < 10 := by
  unfold isDecimalByte at h
  rw [Bool.and_eq_true, decide_eq_true_iff, decide_eq_true_iff] at h
  have hlo := UInt8.le_iff_toNat_le.1 h.1
  have hhi := UInt8.le_iff_toNat_le.1 h.2
  rw [UInt8.toNat_sub_of_le _ _ h.1]
  show c.toNat - 48 < 10
  have : c.toNat ≤ 57 := hhi
  omega

/-- Digit characters are all read, or one of them is none. -/
theorem mapM_digit?_ten (body : Bytes) :
    body.mapM Base.ten.digit?
      = if body.all isDecimalByte then some (body.map fun c => (c - 48).toNat) else none := by
  induction body with
  | nil => rfl
  | cons c body ih =>
      rw [List.mapM_cons, ih, digit?_ten, List.all_cons]
      cases isDecimalByte c with
      | false => rfl
      | true =>
          cases body.all isDecimalByte with
          | false => rfl
          | true => rfl

/-- **A literal is read as the integer it denotes, or refused.** -/
theorem parse_eq (s : Bytes) :
    match Base.ten.integer? s with
    | some i => ∃ x, parse s = .ok x ∧ x.Canonical ∧ x.toInt = i
    | none => parse s = .error (.known .notDecimal) := by
  rw [integer?_eq]
  unfold parse Base.natural?
  generalize splitSign s = split
  obtain ⟨neg, body⟩ := split
  dsimp only
  rw [mapM_digit?_ten]
  by_cases hnil : body = []
  · rw [if_pos hnil, hnil]
    rfl
  · rw [if_neg hnil]
    cases hall : body.all isDecimalByte with
    | false => simp
    | true =>
        -- the digits are those of the text, in the other direction
        have hdec : Decimal (body.reverse.map (· - 48)) := by
          intro d hd
          obtain ⟨c, hc, rfl⟩ := List.mem_map.1 hd
          have hbyte := List.all_eq_true.1 hall c (List.mem_reverse.1 hc)
          exact lt_ten_iff.2 (isDecimalByte_lt hbyte)
        have hval : value (body.reverse.map (· - 48))
            = Nat.ofDigits 10 (body.map fun c => (c - 48).toNat).reverse := by
          rw [value_eq_ofDigits, List.map_map, ← List.map_reverse]
          rfl
        obtain ⟨hint, hcan⟩ := toInt_ofDigits neg hdec
        refine ⟨ofDigits neg (body.reverse.map (· - 48)), ?_, hcan, ?_⟩
        · rw [if_neg (by simpa using hnil)]
        · rw [hint, hval]
          rfl

/-! ## §2. Words. -/

/-- The digits of a word denote it. -/
theorem value_wordDigits (w : UInt64) : value (wordDigits w) = w.toNat ∧ Decimal (wordDigits w) := by
  fun_induction wordDigits w with
  | case1 => exact ⟨rfl, decimal_nil⟩
  | case2 w hw ih =>
      have hdigit : (w % 10).toUInt8.toNat = w.toNat % 10 := by
        rw [UInt64.toNat_toUInt8, UInt64.toNat_mod]
        show w.toNat % 10 % 256 = w.toNat % 10
        omega
      have hrest : (w / 10).toNat = w.toNat / 10 := UInt64.toNat_div w 10
      rw [value_cons, ih.1, decimal_cons, hdigit, hrest]
      exact ⟨by omega, by omega, ih.2⟩

theorem toNat_ofInt (v : Int) : (UInt64.ofInt v).toNat = (v % 2 ^ 64).toNat := by
  unfold UInt64.ofInt
  rw [UInt64.toNat_ofNat']
  omega

/-- A word as a signed integer: the upper half of the words are negative. -/
theorem toInt_toInt64 (w : UInt64) :
    w.toInt64.toInt = if 2 * w.toNat < 2 ^ 64 then (w.toNat : Int) else w.toNat - (2 ^ 64 : Nat) :=
  BitVec.toInt_eq_toNat_cond w.toBitVec

theorem ofInt_toInt (v : Int64) : UInt64.ofInt v.toInt = v.toUInt64 := by
  have hint := toInt_toInt64 v.toUInt64
  rw [Int64.toInt64_toUInt64] at hint
  have hsize : v.toUInt64.toNat < 2 ^ 64 := v.toUInt64.toNat_lt_size
  apply UInt64.toNat_inj.1
  rw [toNat_ofInt]
  omega

theorem toNat_complement (w : UInt64) : (0 - w).toNat = (2 ^ 64 - w.toNat) % 2 ^ 64 := by
  rw [UInt64.toNat_sub]
  rfl

/-- The two's complement of a negative word is its absolute value; words with
and without a sign are taken alike. -/
theorem toNat_wordMagnitude {v : Int} (hlo : -2 ^ 63 ≤ v) (hhi : v < 2 ^ 64) :
    (wordMagnitude (decide (v < 0)) (UInt64.ofInt v)).toNat = v.natAbs := by
  have hof := toNat_ofInt v
  unfold wordMagnitude
  by_cases hneg : v < 0
  · rw [if_pos (decide_eq_true hneg), toNat_complement, hof]
    omega
  · rw [if_neg (by simpa using hneg), hof]
    omega

/-- **A 64-bit integer becomes the same integer.** -/
theorem toInt_ofInt64 (v : Int64) : (ofInt64 v).toInt = v.toInt ∧ (ofInt64 v).Canonical := by
  have hneg : decide (v < 0) = decide (v.toInt < 0) := decide_eq_decide.2 Int64.lt_iff_toInt_lt
  have hlt := v.toInt_lt
  have habs := toNat_wordMagnitude v.le_toInt (by omega)
  rw [ofInt_toInt, ← hneg] at habs
  obtain ⟨hval, hdec⟩ := value_wordDigits (wordMagnitude (decide (v < 0)) v.toUInt64)
  obtain ⟨hint, hcan⟩ := toInt_ofDigits (decide (v < 0)) hdec
  refine ⟨?_, hcan⟩
  show (ofDigits (decide (v < 0)) _).toInt = _
  rw [hint, hval, habs, hneg]
  unfold signed
  split
  next h =>
      rw [decide_eq_true_iff] at h
      omega
  next h =>
      rw [decide_eq_true_iff] at h
      omega

end Numeral

end Tetraglyph
