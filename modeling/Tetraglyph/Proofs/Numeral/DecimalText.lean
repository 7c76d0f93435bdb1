/-
  Tetraglyph.Proofs.Numeral.DecimalText
  ─────────────────────────────────────
  **DECIMAL LITERALS, READ AND WRITTEN.**

  A decimal literal is one minus sign at most and then one digit or more,
  which is the regular expression -?[0-9]+ over bytes.  Exactly the
  literals are read, each as the canonical numeral of what its digits count
  for.  The numeral is written as the literal without its leading zeros, and
  without its sign if it denotes 0: these are the same digits, and digits
  without leading zeros are told by their value.

      literal        — the regular expression of the literals
      Spelt          — a text as a sign and the bytes of digits
      withoutZeros   — the bytes of digits without leading zeros

  Main results

      mem_literal_iff      — what matches is a sign and digits
      parse_spelt          — a literal is read, digit by digit
      mag_spelt            — as the digits without leading zeros
      decimal_inverse      — reading and writing undo each other
-/
import Mathlib.Computability.RegularExpressions
import Tetraglyph.Proofs.Numeral.Literals
import Tetraglyph.Proofs.Numeral.Reading

namespace Tetraglyph

namespace Numeral

open Digits

/-! ## §1. The language of literals. -/

/-- The bytes of the characters 0 to 9. -/
def digitBytes : List UInt8 := [48, 49, 50, 51, 52, 53, 54, 55, 56, 57]

/-- One decimal digit, [0-9]. -/
def digit : RegularExpression UInt8 :=
  .char 48 + .char 49 + .char 50 + .char 51 + .char 52 + .char 53 + .char 54 + .char 55 +
    .char 56 + .char 57

/-- **The decimal literals**, -?[0-9]+. -/
def literal : RegularExpression UInt8 := (1 + .char 45) * (digit * .star digit)

/-- A text as a sign and the bytes of its digits. -/
structure Spelt (s : Bytes) (neg : Bool) (body : Bytes) : Prop where
  /-- The sign and the bytes of the digits are the whole text. -/
  spelt : s = (if neg then [45] else []) ++ body
  /-- There is a digit. -/
  ne_nil : body ≠ []
  /-- The bytes are those of digits. -/
  digits : ∀ c ∈ body, 48 ≤ c ∧ c ≤ 57

theorem isDecimalByte_iff {c : UInt8} : isDecimalByte c = true ↔ 48 ≤ c ∧ c ≤ 57 := by
  unfold isDecimalByte
  rw [Bool.and_eq_true, decide_eq_true_iff, decide_eq_true_iff]

theorem mem_digitBytes_iff (c : UInt8) : c ∈ digitBytes ↔ 48 ≤ c ∧ c ≤ 57 := by
  revert c
  exact Bytes.forall_byte (by decide +kernel)

theorem mem_digit_iff (t : Bytes) : t ∈ digit.matches' ↔ ∃ c, t = [c] ∧ 48 ≤ c ∧ c ≤ 57 := by
  have hchar : ∀ a : UInt8, t ∈ ({[a]} : Language UInt8) ↔ t = [a] := fun a => Iff.rfl
  simp only [← mem_digitBytes_iff]
  simp [digit, digitBytes, Language.mem_add, hchar, or_assoc, and_or_left, exists_or]

/-- Some digits after one another are all digits. -/
theorem mem_star_digit_iff (t : Bytes) :
    t ∈ digit.star.matches' ↔ ∀ c ∈ t, 48 ≤ c ∧ c ≤ 57 := by
  rw [RegularExpression.matches'_star, Language.mem_kstar]
  constructor
  · rintro ⟨parts, rfl, hparts⟩ c hc
    obtain ⟨part, hpart, hc⟩ := List.mem_flatten.1 hc
    obtain ⟨d, rfl, hd⟩ := (mem_digit_iff part).1 (hparts part hpart)
    rw [List.mem_singleton.1 hc]
    exact hd
  · intro h
    refine ⟨t.map fun c => [c], by rw [← List.flatMap_def, List.flatMap_singleton'], ?_⟩
    intro part hpart
    obtain ⟨c, hc, rfl⟩ := List.mem_map.1 hpart
    exact (mem_digit_iff [c]).2 ⟨c, rfl, h c hc⟩

/-- **What matches is a sign and digits.** -/
theorem mem_literal_iff (s : Bytes) : s ∈ literal.matches' ↔ ∃ neg body, Spelt s neg body := by
  unfold literal
  rw [RegularExpression.matches'_mul, Language.mem_mul]
  constructor
  · rintro ⟨sign, hsign, body, hbody, rfl⟩
    obtain ⟨first, hfirst, rest, hrest, rfl⟩ := Language.mem_mul.1 hbody
    obtain ⟨c, rfl, hc⟩ := (mem_digit_iff first).1 hfirst
    have hdigits : ∀ d ∈ [c] ++ rest, 48 ≤ d ∧ d ≤ 57 :=
      List.forall_mem_cons.2 ⟨hc, (mem_star_digit_iff rest).1 hrest⟩
    rcases hsign with rfl | rfl
    · exact ⟨false, [c] ++ rest, rfl, by simp, hdigits⟩
    · exact ⟨true, [c] ++ rest, rfl, by simp, hdigits⟩
  · rintro ⟨neg, body, rfl, hne, hdigits⟩
    obtain ⟨c, rest, rfl⟩ := List.exists_cons_of_ne_nil hne
    obtain ⟨hc, hrest⟩ := List.forall_mem_cons.1 hdigits
    have hbody : c :: rest ∈ (digit * digit.star).matches' :=
      Language.mem_mul.2 ⟨[c], (mem_digit_iff [c]).2 ⟨c, rfl, hc⟩, rest,
        (mem_star_digit_iff rest).2 hrest, rfl⟩
    refine ⟨_, ?_, c :: rest, hbody, rfl⟩
    cases neg with
    | false => exact .inl rfl
    | true => exact .inr rfl

/-! ## §2. Reading a literal. -/

/-- The digits of a literal, the least significant first. -/
def digitsIn (body : Bytes) : Digits := body.reverse.map (· - 48)

/-- The sign of a literal is found, for a minus sign is no digit. -/
theorem Spelt.splitSign_eq {s body : Bytes} {neg : Bool} (h : Spelt s neg body) :
    splitSign s = (neg, body) := by
  obtain ⟨rfl, hne, hdigits⟩ := h
  apply Base.splitSign_sign
  intro hhead
  obtain ⟨rest, rfl⟩ := List.head?_eq_some_iff.1 hhead
  exact absurd (hdigits 45 List.mem_cons_self) (by decide)

/-- **A literal is read, digit by digit.** -/
theorem parse_spelt {s body : Bytes} {neg : Bool} (h : Spelt s neg body) :
    parse s = .ok (ofDigits neg (digitsIn body)) := by
  have hall : body.all isDecimalByte = true :=
    List.all_eq_true.2 fun c hc => isDecimalByte_iff.2 (h.digits c hc)
  unfold parse
  rw [h.splitSign_eq]
  dsimp only
  rw [hall, List.isEmpty_eq_false_iff.2 h.ne_nil]
  rfl

/-- Nothing else is. -/
theorem parse_not_spelt {s : Bytes} (h : ¬∃ neg body, Spelt s neg body) :
    parse s = .error (.known .notDecimal) := by
  unfold parse
  dsimp only
  rw [if_pos]
  -- otherwise the sign and what is behind it would be a literal
  by_contra hgood
  rw [Bool.or_eq_true, not_or, List.isEmpty_iff, Bool.not_eq_true', Bool.not_eq_false] at hgood
  refine h ⟨(splitSign s).1, (splitSign s).2, (Base.splitSign_append s).symm, hgood.1, ?_⟩
  intro c hc
  exact isDecimalByte_iff.1 (List.all_eq_true.1 hgood.2 c hc)

theorem decimal_digitsIn {body : Bytes} (h : ∀ c ∈ body, 48 ≤ c ∧ c ≤ 57) :
    Decimal (digitsIn body) := by
  intro d hd
  obtain ⟨c, hc, rfl⟩ := List.mem_map.1 hd
  exact lt_ten_iff.2 (isDecimalByte_lt (isDecimalByte_iff.2 (h c (List.mem_reverse.1 hc))))

/-- What the digits of a literal count for together. -/
theorem value_digitsIn {body : Bytes} (h : ∀ c ∈ body, 48 ≤ c ∧ c ≤ 57) :
    value (digitsIn body) = Base.ten.positional (body.map fun c => c.toNat - 48) := by
  have hdigit : ∀ c ∈ body, (c - 48).toNat = c.toNat - 48 := fun c hc =>
    UInt8.toNat_sub_of_le _ _ (h c hc).1
  rw [value_eq_ofDigits, Base.positional_eq, digitsIn, List.map_map, ← List.map_reverse]
  show Nat.ofDigits 10 _ = Nat.ofDigits 10 _
  congr 1
  apply List.map_congr_left
  intro c hc
  exact hdigit c (List.mem_reverse.1 hc)

/-! ## §3. Leading zeros. -/

/-- The bytes of digits without leading zeros; the last one stays. -/
def withoutZeros : Bytes → Bytes
  | 48 :: c :: body => withoutZeros (c :: body)
  | body => body

/-- Only zeros go, and only from the front. -/
theorem withoutZeros_spec {body : Bytes} (hne : body ≠ []) :
    withoutZeros body ≠ [] ∧ withoutZeros body <:+ body ∧
      ((withoutZeros body).head? = some 48 → withoutZeros body = [48]) ∧
      value (digitsIn (withoutZeros body)) = value (digitsIn body) := by
  fun_induction withoutZeros body with
  | case1 c body ih =>
      obtain ⟨hne, hsuffix, hhead, hval⟩ := ih (by simp)
      refine ⟨hne, hsuffix.trans (List.suffix_cons 48 _), hhead, ?_⟩
      -- a zero in front counts nothing
      have hcons : digitsIn (48 :: c :: body) = digitsIn (c :: body) ++ [0] := by
        rw [digitsIn, List.reverse_cons, List.map_append]
        rfl
      rw [hval, hcons, value_append]
      rfl
  | case2 body hstop =>
      refine ⟨hne, List.suffix_refl _, ?_, rfl⟩
      intro hhead
      obtain ⟨rest, rfl⟩ := List.head?_eq_some_iff.1 hhead
      cases rest with
      | nil => rfl
      | cons c rest => exact absurd rfl (hstop c rest)

/-- **A literal is read as its digits without leading zeros.** -/
theorem mag_spelt {s body : Bytes} {neg : Bool} (h : Spelt s neg body) :
    (ofDigits neg (digitsIn body)).mag = digitsIn (withoutZeros body) := by
  obtain ⟨hint, hcan⟩ := toInt_ofDigits neg (decimal_digitsIn h.digits)
  obtain ⟨hne, hsuffix, hhead, hval⟩ := withoutZeros_spec h.ne_nil
  have htrimmed : Trimmed (digitsIn (withoutZeros body)) := by
    refine ⟨by simpa [digitsIn] using hne, ?_⟩
    intro hlast
    -- the most significant digit is that of the first byte
    rw [digitsIn, List.getLast?_map, List.getLast?_reverse, Option.map_eq_some_iff] at hlast
    obtain ⟨c, hc, hzero⟩ := hlast
    obtain rfl : c = 48 := UInt8.sub_eq_iff_eq_add.1 hzero
    rw [hhead hc]
    rfl
  have hdecimal : Decimal (digitsIn (withoutZeros body)) :=
    decimal_digitsIn fun c hc => h.digits c (hsuffix.subset hc)
  apply Trimmed.eq_of_value_eq hcan.wellFormed.trimmed_mag htrimmed hcan.wellFormed.decimal_mag
    hdecimal
  rw [← natAbs_toInt, hint, natAbs_signed, hval]

/-- A digit is written as the byte from which it was read. -/
theorem decimalChar_digit {c : UInt8} (h : 48 ≤ c ∧ c ≤ 57) :
    (decimalChar (c - 48)).utf8Size = 1 ∧ (decimalChar (c - 48)).toUInt8 = c := by
  have hall : ∀ c ∈ digitBytes,
      (decimalChar (c - 48)).utf8Size = 1 ∧ (decimalChar (c - 48)).toUInt8 = c := by
    decide +kernel
  exact hall c ((mem_digitBytes_iff c).2 h)

theorem ofText_digitsIn (sign : Bool) {body : Bytes} (h : ∀ c ∈ body, 48 ≤ c ∧ c ≤ 57) :
    Bytes.ofText (String.ofList
        ((if sign then ['-'] else []) ++ (digitsIn body).reverse.map decimalChar))
      = (if sign then [45] else []) ++ body := by
  have hchars : (digitsIn body).reverse.map decimalChar
      = body.map fun c => decimalChar (c - 48) := by
    rw [digitsIn, ← List.map_reverse, List.reverse_reverse, List.map_map]
    rfl
  have hbody : (body.map fun c => decimalChar (c - 48)).map Char.toUInt8 = body := by
    rw [List.map_map]
    calc body.map _ = body.map id := List.map_congr_left fun c hc => (decimalChar_digit (h c hc)).2
      _ = body := List.map_id _
  rw [hchars, Bytes.ofText_ofList, List.map_append, hbody]
  · cases sign <;> rfl
  · intro d hd
    rcases List.mem_append.1 hd with hd | hd
    · cases sign with
      | false => exact absurd hd (by simp)
      | true =>
          rw [List.mem_singleton.1 hd]
          rfl
    · obtain ⟨c, hc, rfl⟩ := List.mem_map.1 hd
      exact (decimalChar_digit (h c hc)).1

/-- **The numeral is written as the literal** without leading zeros, and without
its sign if it denotes 0. -/
theorem text_spelt {s body : Bytes} {neg : Bool} (h : Spelt s neg body) :
    let x := ofDigits neg (digitsIn body)
    Bytes.ofText x.text = (if neg = true ∧ x.toInt ≠ 0 then [45] else []) ++ withoutZeros body := by
  intro x
  obtain ⟨hint, hcan⟩ := toInt_ofDigits neg (decimal_digitsIn h.digits)
  obtain ⟨_, hsuffix, _⟩ := withoutZeros_spec h.ne_nil
  have hsign : x.toInt < 0 ↔ neg = true ∧ x.toInt ≠ 0 := by
    show (ofDigits neg (digitsIn body)).toInt < 0 ↔
      neg = true ∧ (ofDigits neg (digitsIn body)).toInt ≠ 0
    rw [hint]
    unfold signed
    cases neg with
    | false => simp
    | true => simp; omega
  have htext : x.text = String.ofList ((if decide (x.toInt < 0) then ['-'] else []) ++
      (digitsIn (withoutZeros body)).reverse.map decimalChar) := by
    unfold text
    dsimp only
    rw [signed_body hcan.wellFormed, mag_spelt h]
    by_cases hneg : x.toInt < 0
    · rw [if_pos hneg, if_pos (decide_eq_true hneg)]
      rfl
    · rw [if_neg hneg, if_neg (by simpa using hneg)]
      rfl
  rw [htext, ofText_digitsIn _ fun c hc => h.digits c (hsuffix.subset hc)]
  simp only [decide_eq_true_eq, hsign]

/-! ## §4. Reading and writing. -/

/-- **Reading and writing decimal text undo each other.**  Exactly the texts that
match -?[0-9]+ are read; any other is refused.  What is read is canonical, denotes
what the digits count for with the sign, and is written as the text without leading
zeros, and without the sign if it denotes 0.  And what is written of any number is
read as an equal one, as the number itself if that is canonical. -/
theorem decimal_inverse :
    (∀ s : Bytes, ((∃ x, parse s = .ok x) ↔ s ∈ literal.matches') ∧
      (s ∉ literal.matches' → parse s = .error (.known .notDecimal)) ∧
      ∀ x, parse s = .ok x → x.Canonical ∧ ∃ neg body, Spelt s neg body ∧
        x.toInt = signed neg (Base.ten.positional (body.map fun c => c.toNat - 48)) ∧
        Bytes.ofText x.text
          = (if neg = true ∧ x.toInt ≠ 0 then [45] else []) ++ withoutZeros body) ∧
    ∀ x : Numeral, x.WellFormed →
      ∃ y, parse (Bytes.ofText x.text) = .ok y ∧ y.equal x = true ∧ (x.Canonical → y = x) := by
  constructor
  · intro s
    rw [mem_literal_iff]
    refine ⟨⟨?_, ?_⟩, parse_not_spelt, ?_⟩
    · rintro ⟨x, hx⟩
      by_contra hnot
      rw [parse_not_spelt hnot] at hx
      exact absurd hx (by simp)
    · rintro ⟨neg, body, h⟩
      exact ⟨_, parse_spelt h⟩
    · intro x hx
      by_cases hspelt : ∃ neg body, Spelt s neg body
      · obtain ⟨neg, body, h⟩ := hspelt
        obtain rfl : ofDigits neg (digitsIn body) = x :=
          Except.ok.inj ((parse_spelt h).symm.trans hx)
        obtain ⟨hint, hcan⟩ := toInt_ofDigits neg (decimal_digitsIn h.digits)
        refine ⟨hcan, neg, body, h, ?_, text_spelt h⟩
        rw [hint, value_digitsIn h.digits]
      · rw [parse_not_spelt hspelt] at hx
        exact absurd hx (by simp)
  · intro x hx
    have hparse := parse_eq (Bytes.ofText x.text)
    rw [text_eq hx, Base.integer?_numeral, ← text_eq hx] at hparse
    obtain ⟨y, hy, hcan, hint⟩ := hparse
    refine ⟨y, hy, ?_, fun hxc => hcan.eq_of_toInt_eq hxc hint⟩
    rw [equal_eq hcan.wellFormed hx, hint, decide_eq_true rfl]

/-- The text -0012, which is written as -12; the text -000, which loses its sign
too; a second minus sign; and the number without digits, which is written as 0. -/
theorem decimal_inverse_zeros :
    (∃ x, parse [45, 48, 48, 49, 50] = .ok x ∧ x.Canonical ∧ x.toInt = -12 ∧
        Bytes.ofText x.text = [45, 49, 50]) ∧
      (∃ x, parse [45, 48, 48, 48] = .ok x ∧ x.toInt = 0 ∧ Bytes.ofText x.text = [48]) ∧
      parse [45, 45, 49] = .error (.known .notDecimal) ∧
      empty.WellFormed ∧ ∃ y, parse (Bytes.ofText empty.text) = .ok y ∧ y.equal empty = true := by
  have hmem : ∀ {s : Bytes}, literal.rmatch s = true → ∃ x, parse s = .ok x := fun h =>
    (decimal_inverse.1 _).1.2 ((RegularExpression.rmatch_iff_matches' _ _).1 h)
  refine ⟨?_, ?_, ?_, .inl rfl, ?_⟩
  · obtain ⟨x, hx⟩ := hmem (s := [45, 48, 48, 49, 50]) (by decide +kernel)
    obtain ⟨hcan, neg, body, hspelt, hint, htext⟩ := (decimal_inverse.1 _).2.2 x hx
    obtain ⟨rfl, rfl⟩ : true = neg ∧ [48, 48, 49, 50] = body := Prod.mk.inj hspelt.splitSign_eq
    have hint : x.toInt = -12 := hint.trans (by decide +kernel)
    rw [hint] at htext
    exact ⟨x, hx, hcan, hint, htext⟩
  · obtain ⟨x, hx⟩ := hmem (s := [45, 48, 48, 48]) (by decide +kernel)
    obtain ⟨_, neg, body, hspelt, hint, htext⟩ := (decimal_inverse.1 _).2.2 x hx
    obtain ⟨rfl, rfl⟩ : true = neg ∧ [48, 48, 48] = body := Prod.mk.inj hspelt.splitSign_eq
    have hint : x.toInt = 0 := hint.trans (by decide +kernel)
    rw [hint] at htext
    exact ⟨x, hx, hint, htext⟩
  · refine (decimal_inverse.1 _).2.1 ?_
    rw [← RegularExpression.rmatch_iff_matches']
    decide +kernel
  · obtain ⟨y, hy, heq, _⟩ := decimal_inverse.2 empty (.inl rfl)
    exact ⟨y, hy, heq⟩

end Numeral

end Tetraglyph
