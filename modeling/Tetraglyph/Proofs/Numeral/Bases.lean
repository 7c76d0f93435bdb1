/-
  Tetraglyph.Proofs.Numeral.Bases
  ───────────────────────────────
  **WRITING AND READING INTEGERS.**

  What a number looks like in a base, and what a text denotes in it, is said
  here without a digit loop: by the digits of a natural number and by the
  positional value of a list of digits.  Writing divides by the base until
  nothing is left, and makes those digits; base 10 is written digit by
  digit, and makes the same.  Reading multiplies and adds, and makes that
  value.

  Main results

      format_eq   — a number is written as the canonical numeral
      ofText_eq   — a text is read as the integer it denotes, or refused
-/
import Tetraglyph.Numeral.Base
import Tetraglyph.Proofs.Numeral.Arithmetic

namespace Tetraglyph

open Digits

/-! ## §1. Numerals and what texts denote. -/

namespace Base

/-- The digits of a number in a base, the most significant first, and "0"
for 0. -/
def digitsOf (b : Base) (n : Nat) : List Char :=
  if n = 0 then ['0'] else (Nat.digits b.size n).reverse.map digitChar

/-- **The canonical numeral of an integer**: its digits, with a minus sign in
front of them if it is negative. -/
def numeral (b : Base) (i : Int) : String :=
  String.ofList (if i < 0 then '-' :: b.digitsOf i.natAbs else b.digitsOf i.natAbs)

/-- The number which digit characters denote, one or more of them. -/
def natural? (b : Base) (body : Bytes) : Option Nat :=
  if body = [] then none
  else (body.mapM b.digit?).map fun ds => Nat.ofDigits b.size ds.reverse

/-- **The integer which a text denotes**: digits, behind one minus sign at
most. -/
def integer? (b : Base) : Bytes → Option Int
  | 45 :: body => (b.natural? body).map fun (n : Nat) => -(n : Int)
  | body => (b.natural? body).map fun (n : Nat) => (n : Int)

/-- Why a text denotes no integer. -/
def refusal (b : Base) (text : Bytes) : Failure :=
  if text = [] ∨ text = [45] then .known .invalidDigits
  else .within "" (.known .invalidDigits) s!": {Text.quoteBytes text} in base {b.size}"

example : ten.numeral (-120) = "-120" := by decide +kernel

example : ({ size := 16 } : Base).integer? [45, 48, 102, 70] = some (-255) := by decide +kernel

end Base

namespace Numeral

/-! ## §2. Writing. -/

theorem decimalChar_eq {d : UInt8} (h : d < 10) : decimalChar d = Base.digitChar d.toNat := by
  unfold decimalChar Base.digitChar
  rw [if_pos (lt_ten_iff.1 h)]

/-- The digits as they are stand for themselves in base 10. -/
theorem decimal_digitsOf {ds : Digits} (hd : Decimal ds) (ht : Trimmed ds) :
    ds.reverse.map decimalChar = Base.ten.digitsOf (value ds) := by
  unfold Base.digitsOf
  split
  next hz =>
      rw [ht.eq_zero hz]
      rfl
  next hne =>
      show _ = (Nat.digits 10 (value ds)).reverse.map Base.digitChar
      rw [digits_value hd ht hne, ← List.map_reverse, List.map_map]
      exact List.map_congr_left fun d hmem => decimalChar_eq (hd d (List.mem_reverse.1 hmem))

theorem text_eq {x : Numeral} (h : x.WellFormed) : x.text = Base.ten.numeral x.toInt := by
  unfold text Base.numeral
  dsimp only
  rw [decimal_digitsOf h.decimal_mag h.trimmed_mag, natAbs_toInt, signed_body h]

/-- **Dividing until nothing is left makes the digits.** -/
theorem baseDigits_eq (b : Base) (ds : Digits) (tail : List Char) (h : Decimal ds) :
    baseDigits b ds tail = (Nat.digits b.size (value ds)).reverse.map Base.digitChar ++ tail := by
  have htwo := b.two_le
  fun_induction baseDigits b ds tail with
  | case1 ds tail hz =>
      rw [(Digits.isZero_iff ds).1 hz, Nat.digits_zero]
      rfl
  | case2 ds tail hz ih =>
      -- the remainder is the least digit, the quotient has the others
      obtain ⟨hquo, hrem, hdec⟩ := quoRemSmall_exact (show 0 < b.size by omega) h
      have hpos : 0 < value ds := value_pos_of_isZero_eq_false (by simpa using hz)
      rw [ih hdec, hquo, hrem, Nat.digits_def' htwo hpos]
      simp

/-- The text that dividing by the base makes, in base 10 as in any other. -/
def byDivision (b : Base) (x : Numeral) : String :=
  if x.mag.isZero then "0"
  else
    let body := baseDigits b x.mag []
    String.ofList (if x.sign < 0 then '-' :: body else body)

theorem byDivision_eq {x : Numeral} (h : x.WellFormed) (b : Base) :
    x.byDivision b = b.numeral x.toInt := by
  unfold byDivision
  split
  next hz =>
      rw [Digits.isZero_iff, ← natAbs_toInt, Int.natAbs_eq_zero] at hz
      rw [hz]
      rfl
  next hz =>
      rw [Digits.isZero_iff] at hz
      unfold Base.numeral Base.digitsOf
      dsimp only
      rw [baseDigits_eq b x.mag [] h.decimal_mag, List.append_nil, natAbs_toInt, if_neg hz,
        signed_body h]

/-- **A number is written as the canonical numeral**, in every base. -/
theorem format_eq {x : Numeral} (h : x.WellFormed) (b : Base) :
    x.format b = b.numeral x.toInt := by
  unfold format
  split
  next hten =>
      -- base 10 shows the digits there are
      have hb : b = Base.ten := by
        obtain ⟨size, _, _⟩ := b
        cases hten
        rfl
      rw [hb]
      exact text_eq h
  next => exact byDivision_eq h b

/-! ## §3. Reading. -/

/-- **Multiplying and adding makes the positional value**, above what was read
before. -/
theorem readDigits_eq (b : Base) (cs : Bytes) (mag : Digits) (h : Decimal mag) :
    match cs.mapM b.digit? with
    | none => readDigits b cs mag = none
    | some ds => ∃ mag', readDigits b cs mag = some mag' ∧ Decimal mag' ∧
        value mag' = Nat.ofDigits b.size ds.reverse + b.size ^ ds.length * value mag := by
  induction cs generalizing mag with
  | nil => exact ⟨mag, rfl, h, by simp⟩
  | cons c cs ih =>
      rw [List.mapM_cons]
      unfold readDigits
      cases hd : b.digit? c with
      | none => rfl
      | some d =>
          -- what was read before moves up by one place
          have hrest := ih (mag.mulSmallAdd b.size d) (decimal_mulSmallAdd mag b.size d)
          cases hcs : cs.mapM b.digit? with
          | none =>
              rw [hcs] at hrest
              exact hrest
          | some ds =>
              rw [hcs] at hrest
              obtain ⟨mag', hread, hdec, hval⟩ := hrest
              refine ⟨mag', hread, hdec, ?_⟩
              rw [hval, value_mulSmallAdd, List.reverse_cons, Nat.ofDigits_append,
                Nat.ofDigits_singleton, List.length_reverse, List.length_cons, Nat.pow_succ]
              ring

/-- Reading a text without its sign. -/
theorem readDigits_natural (b : Base) {body : Bytes} (hne : body ≠ []) :
    match b.natural? body with
    | none => readDigits b body Digits.zero = none
    | some n => ∃ mag, readDigits b body Digits.zero = some mag ∧ Decimal mag ∧ value mag = n := by
  have hread := readDigits_eq b body Digits.zero decimal_zero
  unfold Base.natural?
  rw [if_neg hne]
  cases hds : body.mapM b.digit? with
  | none =>
      rw [hds] at hread
      exact hread
  | some ds =>
      rw [hds] at hread
      obtain ⟨mag, hmag, hdec, hval⟩ := hread
      exact ⟨mag, hmag, hdec, hval⟩

theorem integer?_eq (b : Base) (text : Bytes) :
    b.integer? text = (b.natural? (splitSign text).2).map (signed (splitSign text).1) := by
  unfold Base.integer?
  split
  next => rfl
  next htext =>
      have hsplit : splitSign text = (false, text) := by
        unfold splitSign
        split
        next body => exact absurd rfl (htext body)
        next => rfl
      rw [hsplit]
      rfl

/-- Nothing is left behind the sign of the empty text and of a lone minus. -/
theorem splitSign_nil (text : Bytes) :
    (splitSign text).2 = [] ↔ text = [] ∨ text = [45] := by
  unfold splitSign
  split
  next body => simp
  next htext =>
      refine ⟨.inl, fun h => ?_⟩
      rcases h with h | h
      · exact h
      · exact absurd h (htext [])

/-- **A text is read as the integer it denotes, or refused.** -/
theorem ofText_eq (b : Base) (text : Bytes) :
    match b.integer? text with
    | some i => ∃ v, ofText b text = .ok v ∧ v.Canonical ∧ v.toInt = i
    | none => ofText b text = .error (b.refusal text) := by
  have hnil := splitSign_nil text
  rw [integer?_eq]
  unfold ofText Base.refusal
  generalize splitSign text = split at hnil
  obtain ⟨neg, body⟩ := split
  dsimp only at hnil ⊢
  by_cases hbody : body = []
  · -- nothing behind the sign
    have hnat : b.natural? body = none := if_pos hbody
    rw [hnat, if_pos (hnil.1 hbody), hbody]
    rfl
  · have hread := readDigits_natural b hbody
    rw [if_neg fun h => hbody (List.isEmpty_iff.1 h), if_neg fun h => hbody (hnil.2 h)]
    cases hnat : b.natural? body with
    | none =>
        rw [hnat] at hread
        have hread : readDigits b body Digits.zero = none := hread
        rw [hread]
        rfl
    | some n =>
        rw [hnat] at hread
        obtain ⟨mag, hmag, hdec, hval⟩ := hread
        obtain ⟨hint, hcan⟩ := toInt_ofDigits neg hdec
        refine ⟨ofDigits neg mag, by rw [hmag], hcan, ?_⟩
        rw [hint, hval]

end Numeral

end Tetraglyph
