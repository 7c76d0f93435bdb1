/-
  Tetraglyph.Proofs.Numeral.Words
  ───────────────────────────────
  **MACHINE INTEGERS AND NUMERALS ARE THE SAME NUMBERS.**

  A number goes to a 64-bit integer through a word that takes up one digit
  after another.  Numbers of more than 19 digits are turned away before, and
  since there are no leading zeros those are too large anyway; 19 digits
  stay below 10 ^ 19, which is below 2 ^ 64, so the word NEVER WRAPS.  A
  negative number is then the two's complement of the word, and the most
  negative one needs no case of its own.

  The text of a machine integer is made from the same word, by dividing it
  and not by dividing digits.  Both make the canonical numeral.

      Accumulates       — every step of taking up digits is exact
      WordType.Holds    — the values of a machine type
      WordType.extend   — their patterns, extended to 64 bits

  Main results

      Accumulates.of_value_lt   — a number below 2 ^ 64 is taken up exactly
      toInt64?_spec             — what is given is the number, and it is given
                                  unless it does not fit
      int64_exact               — to 64-bit integers and back
      machineText_eq            — a machine integer is written as the
                                  canonical numeral
      machine_text_agrees       — machine integers and numerals are written
                                  alike, and read back
-/
import Tetraglyph.Proofs.Numeral.Literals
import Tetraglyph.Proofs.Numeral.Order
import Tetraglyph.Proofs.Numeral.RoundTrip

namespace Tetraglyph

open Digits

namespace Numeral

/-! ## §1. Taking up digits in a word. -/

/-- **Every step of taking up digits is exact.**  The digits taken up so far
are the most significant ones, at the end of the list. -/
structure Accumulates (ds : Digits) : Prop where
  /-- Ten times the word and one more digit fit a word. -/
  step_lt : ∀ d above, d :: above <:+ ds → (wordValue above).toNat * 10 + d.toNat < 2 ^ 64
  /-- The word is the number which the digits so far denote. -/
  word_eq : ∀ above, above <:+ ds → (wordValue above).toNat = value above

/-- One step that does not wrap. -/
theorem wordValue_cons {d : UInt8} {ds : Digits}
    (h : (wordValue ds).toNat * 10 + d.toNat < 2 ^ 64) :
    (wordValue (d :: ds)).toNat = (wordValue ds).toNat * 10 + d.toNat := by
  show (wordValue ds * 10 + d.toUInt64).toNat = _
  rw [UInt64.toNat_add, UInt64.toNat_mul, UInt8.toNat_toUInt64]
  show ((wordValue ds).toNat * 10 % 2 ^ 64 + d.toNat) % 2 ^ 64 = _
  omega

theorem toNat_wordValue {ds : Digits} (h : value ds < 2 ^ 64) :
    (wordValue ds).toNat = value ds := by
  induction ds with
  | nil => rfl
  | cons d ds ih =>
      rw [value_cons] at h ⊢
      have hds := ih (by omega)
      rw [wordValue_cons (by omega), hds]
      omega

/-- The digits above denote no more than all digits together. -/
theorem value_le_of_suffix {above ds : Digits} (h : above <:+ ds) : value above ≤ value ds := by
  obtain ⟨below, rfl⟩ := h
  have hweight := Nat.le_mul_of_pos_left (value above) (Nat.pow_pos (n := below.length)
    (show 0 < 10 by decide))
  rw [value_append]
  omega

/-- **A number below 2 ^ 64 is taken up exactly.** -/
theorem Accumulates.of_value_lt {ds : Digits} (h : value ds < 2 ^ 64) : Accumulates ds := by
  have hword : ∀ above, above <:+ ds → (wordValue above).toNat = value above := by
    intro above habove
    have hle := value_le_of_suffix habove
    exact toNat_wordValue (by omega)
  refine ⟨?_, hword⟩
  intro d above habove
  have hle := value_le_of_suffix habove
  rw [hword above ((List.suffix_cons d above).trans habove)]
  rw [value_cons] at hle
  omega

/-- Nineteen digits fit a word. -/
theorem value_lt_of_length_le {ds : Digits} (h : Decimal ds) (hlen : ds.length ≤ 19) :
    value ds < 2 ^ 64 :=
  calc value ds < 10 ^ ds.length := value_lt h
    _ ≤ 10 ^ 19 := Nat.pow_le_pow_right (by decide) hlen
    _ < 2 ^ 64 := by decide

/-- More digits denote a number that is too large. -/
theorem le_value_of_lt_length {ds : Digits} (ht : Trimmed ds) (hlen : 19 < ds.length) :
    10 ^ 19 ≤ value ds :=
  calc 10 ^ 19 ≤ 10 ^ (ds.length - 1) := Nat.pow_le_pow_right (by decide) (by omega)
    _ ≤ value ds := ht.pow_le (by omega)

/-! ## §2. Words as signed integers. -/

/-- The lower half of the words are the integers from 0 on. -/
theorem toInt_word {w : UInt64} (h : w.toNat < 2 ^ 63) : w.toInt64.toInt = w.toNat := by
  rw [toInt_toInt64, if_pos (by omega)]

/-- The two's complement is the opposite, up to the most negative integer. -/
theorem toInt_complement {w : UInt64} (h : w.toNat ≤ 2 ^ 63) :
    (0 - w).toInt64.toInt = -(w.toNat : Int) := by
  rw [toInt_toInt64, toNat_complement]
  split
  next => omega
  next => omega

/-! ## §3. To 64-bit integers and back. -/

/-- **What is given is the number, and it is given unless it does not fit.** -/
theorem toInt64?_spec {x : Numeral} (h : x.WellFormed) :
    match x.toInt64? with
    | some v => v.toInt = x.toInt
    | none => ¬(-2 ^ 63 ≤ x.toInt ∧ x.toInt < 2 ^ 63) := by
  have habs := natAbs_toInt x
  unfold toInt64?
  dsimp only
  by_cases hlen : 19 < x.mag.length
  · -- too many digits, and the first of them is not 0
    have hlarge := le_value_of_lt_length h.trimmed_mag hlen
    rw [if_pos hlen]
    dsimp only
    omega
  · have hword := toNat_wordValue (value_lt_of_length_le h.decimal_mag (by omega))
    rw [if_neg hlen, h.neg_eq]
    generalize wordValue x.mag = w at hword
    rw [← hword] at habs
    by_cases hneg : x.toInt < 0
    · rw [decide_eq_true hneg]
      by_cases hfits : w ≤ 0x8000000000000000
      · have hle : w.toNat ≤ 2 ^ 63 := UInt64.le_iff_toNat_le.1 hfits
        rw [if_pos (by simpa using hfits)]
        show (0 - w).toInt64.toInt = x.toInt
        rw [toInt_complement hle]
        omega
      · have hgt : 2 ^ 63 < w.toNat := UInt64.lt_iff_toNat_lt.1 (UInt64.not_le.1 hfits)
        rw [if_neg (by simpa using hfits), if_neg (by simp)]
        dsimp only
        omega
    · rw [decide_eq_false hneg, if_neg (by simp)]
      by_cases hfits : w < 0x8000000000000000
      · have hlt : w.toNat < 2 ^ 63 := UInt64.lt_iff_toNat_lt.1 hfits
        rw [if_pos (by simpa using hfits)]
        show w.toInt64.toInt = x.toInt
        rw [toInt_word hlt]
        omega
      · have hge : 2 ^ 63 ≤ w.toNat := UInt64.le_iff_toNat_le.1 (UInt64.not_lt.1 hfits)
        rw [if_neg (by simpa using hfits)]
        dsimp only
        omega

theorem toInt_of_toInt64? {x : Numeral} (h : x.WellFormed) {v : Int64}
    (hv : x.toInt64? = some v) : v.toInt = x.toInt := by
  have hspec := toInt64?_spec h
  rw [hv] at hspec
  exact hspec

/-- A number is turned away if and only if it does not fit. -/
theorem toInt64?_eq_none_iff {x : Numeral} (h : x.WellFormed) :
    x.toInt64? = none ↔ ¬(-2 ^ 63 ≤ x.toInt ∧ x.toInt < 2 ^ 63) := by
  constructor
  · intro hnone
    have hspec := toInt64?_spec h
    rw [hnone] at hspec
    exact hspec
  · intro hout
    cases hv : x.toInt64? with
    | none => rfl
    | some v =>
        -- a 64-bit integer would fit
        have hint := toInt_of_toInt64? h hv
        exact absurd ⟨hint ▸ v.le_toInt, hint ▸ v.toInt_lt⟩ hout

/-- A number which a 64-bit integer is becomes this integer. -/
theorem toInt64?_eq_some {x : Numeral} (h : x.WellFormed) {v : Int64} (hv : v.toInt = x.toInt) :
    x.toInt64? = some v := by
  cases hu : x.toInt64? with
  | none =>
      rw [toInt64?_eq_none_iff h, ← hv] at hu
      exact absurd ⟨v.le_toInt, v.toInt_lt⟩ hu
  | some u =>
      have hint := toInt_of_toInt64? h hu
      rw [Int64.toInt_inj.1 (hint.trans hv.symm)]

/-- **Conversion to 64-bit integers is exact at the limits.**  A number becomes
the 64-bit integer that it is, if and only if there is one, and is turned away
otherwise.  Where digits are taken up in a word at all, no step wraps.  A
64-bit integer becomes the canonical numeral of itself, and from there itself
again. -/
theorem int64_exact {x : Numeral} (hx : x.WellFormed) :
    (((∃ v, x.toInt64? = some v ∧ v.toInt = x.toInt) ↔ -2 ^ 63 ≤ x.toInt ∧ x.toInt < 2 ^ 63) ∧
      (x.toInt64? = none ↔ ¬(-2 ^ 63 ≤ x.toInt ∧ x.toInt < 2 ^ 63)) ∧
      (x.mag.length ≤ 19 → Accumulates x.mag)) ∧
    ∀ v : Int64, (ofInt64 v).Canonical ∧ (ofInt64 v).toInt = v.toInt ∧
      (ofInt64 v).toInt64? = some v := by
  refine ⟨⟨⟨?_, ?_⟩, toInt64?_eq_none_iff hx, ?_⟩, ?_⟩
  · rintro ⟨v, _, hint⟩
    rw [← hint]
    exact ⟨v.le_toInt, v.toInt_lt⟩
  · rintro ⟨hlo, hhi⟩
    have hint := Int64.toInt_ofInt_of_le hlo hhi
    exact ⟨Int64.ofInt x.toInt, toInt64?_eq_some hx hint, hint⟩
  · intro hlen
    exact .of_value_lt (value_lt_of_length_le hx.decimal_mag hlen)
  · intro v
    obtain ⟨hint, hcan⟩ := toInt_ofInt64 v
    exact ⟨hcan, hint, toInt64?_eq_some hcan.wellFormed hint.symm⟩

/-- The number -2 ^ 63 fits, with all its 19 digits taken up; its opposite does
not, and is one too large. -/
theorem int64_exact_limit :
    let ds : Digits := [8, 0, 8, 5, 7, 7, 4, 5, 8, 6, 3, 0, 2, 7, 3, 3, 2, 2, 9]
    let x : Numeral := ⟨true, ds⟩
    let y : Numeral := ⟨false, ds⟩
    x.WellFormed ∧ y.WellFormed ∧ x.toInt = -2 ^ 63 ∧
      (∃ v, x.toInt64? = some v ∧ v.toInt = -2 ^ 63) ∧ y.toInt64? = none ∧ Accumulates ds ∧
      ofInt64 Int64.minValue = x := by
  intro ds x y
  have hxc : x.Canonical := canonical_of_getLast? (d := 9) (by simp [ds]) rfl (by decide)
  have hyc : y.Canonical := canonical_of_getLast? (d := 9) (by simp [ds]) rfl (by decide)
  obtain ⟨⟨hfits, _, hacc⟩, hback⟩ := int64_exact hxc.wellFormed
  obtain ⟨⟨_, hnone, _⟩, _⟩ := int64_exact hyc.wellFormed
  have hx : x.toInt = -2 ^ 63 := by decide
  have hy : y.toInt = 2 ^ 63 := by decide
  obtain ⟨v, hv, hint⟩ := hfits.2 (by rw [hx]; decide)
  refine ⟨hxc.wellFormed, hyc.wellFormed, hx, ⟨v, hv, hint.trans hx⟩, ?_, hacc (by decide), ?_⟩
  · exact hnone.2 (by rw [hy]; decide)
  · obtain ⟨hcan, hmin, _⟩ := hback Int64.minValue
    exact hcan.eq_of_toInt_eq hxc (hmin.trans (by rw [hx]; rfl))

end Numeral

/-! ## §4. Machine types. -/

namespace WordType

/-- **The values of a machine type**: half of them negative if there are
any. -/
def Holds (t : WordType) (v : Int) : Prop :=
  if t.signed then -2 ^ (t.bits - 1) ≤ v ∧ v < 2 ^ (t.bits - 1) else 0 ≤ v ∧ v < 2 ^ t.bits

instance (t : WordType) (v : Int) : Decidable (t.Holds v) :=
  inferInstanceAs (Decidable
    (if t.signed then -2 ^ (t.bits - 1) ≤ v ∧ v < 2 ^ (t.bits - 1) else 0 ≤ v ∧ v < 2 ^ t.bits))

/-- The pattern of a value, extended to 64 bits: with copies of its first bit
if there are negative values, and with zeros if not. -/
def extend (t : WordType) (p : BitVec t.bits) : BitVec 64 :=
  if t.signed then p.signExtend 64 else p.setWidth 64

theorem two_pow_bits {t : WordType} (hpos : 0 < t.bits) :
    (2 : Int) ^ t.bits = 2 * 2 ^ (t.bits - 1) := by
  obtain ⟨n, hn⟩ : ∃ n, t.bits = n + 1 := ⟨t.bits - 1, by omega⟩
  rw [hn, Nat.add_sub_cancel, pow_succ, mul_comm]

/-- **The values of a type are what conversion to it leaves alone.** -/
theorem wrap_eq_iff {t : WordType} (hpos : 0 < t.bits) (v : Int) : t.wrap v = v ↔ t.Holds v := by
  have hpow := two_pow_bits hpos
  have hcast : ((1 <<< t.bits : Nat) : Int) = 2 ^ t.bits := by
    rw [Nat.one_shiftLeft, Nat.cast_pow]
    rfl
  have hnat : 0 < 1 <<< t.bits := by
    rw [Nat.one_shiftLeft]
    exact Nat.two_pow_pos _
  unfold wrap Holds
  split
  next =>
      constructor
      · intro h
        have hle := Int.le_bmod (x := v) hnat
        have hlt := Int.bmod_lt (x := v) hnat
        omega
      · intro h
        exact Int.bmod_eq_of_le_mul_two (by omega) (by omega)
  next =>
      rw [hcast]
      constructor
      · intro h
        have hle := Int.emod_nonneg v (show (2 : Int) ^ t.bits ≠ 0 by positivity)
        have hlt := Int.emod_lt_of_pos v (show (0 : Int) < 2 ^ t.bits by positivity)
        omega
      · rintro ⟨hle, hlt⟩
        exact Int.emod_eq_of_lt hle hlt

/-- A value of at most 64 bits lies between the least signed word and the
greatest unsigned one. -/
theorem Holds.bounds {t : WordType} (hbits : t.bits ≤ 64) {v : Int} (h : t.Holds v) :
    -2 ^ 63 ≤ v ∧ v < 2 ^ 64 := by
  unfold Holds at h
  split at h
  next =>
      have hpow : (2 : Int) ^ (t.bits - 1) ≤ 2 ^ 63 :=
        pow_le_pow_right₀ (by decide) (by omega)
      omega
  next =>
      have hpow : (2 : Int) ^ t.bits ≤ 2 ^ 64 := pow_le_pow_right₀ (by decide) hbits
      omega

/-- **The word of a value is its pattern, extended.** -/
theorem ofInt_eq_extend {t : WordType} (hpos : 0 < t.bits) (hbits : t.bits ≤ 64) {v : Int}
    (h : t.Holds v) : UInt64.ofInt v = UInt64.ofBitVec (t.extend (BitVec.ofInt t.bits v)) := by
  have hwrap := (wrap_eq_iff hpos v).2 h
  unfold wrap at hwrap
  rw [Nat.one_shiftLeft] at hwrap
  apply UInt64.toNat_inj.1
  rw [Numeral.toNat_ofInt, UInt64.toNat_ofBitVec]
  unfold extend
  split at hwrap
  next hsigned =>
      -- the pattern as a signed number is the value
      rw [if_pos hsigned, BitVec.signExtend, BitVec.toInt_ofInt, hwrap, BitVec.toNat_ofInt]
      rfl
  next hsigned =>
      -- the pattern as a number is the value, and needs no more bits
      have hbounds := h.bounds hbits
      rw [if_neg hsigned, BitVec.toNat_setWidth, BitVec.toNat_ofInt, hwrap]
      unfold Holds at h
      rw [if_neg hsigned] at h
      omega

end WordType

/-! ## §5. The text of a machine integer. -/

namespace Base

/-- **Dividing a word until nothing is left makes the digits.** -/
theorem wordText_eq (b : Base) (w : UInt64) (tail : List Char) :
    b.wordText w tail = (Nat.digits b.size w.toNat).reverse.map digitChar ++ tail := by
  have htwo := b.two_le
  have hsize : b.size.toUInt64.toNat = b.size := by
    have hmax := b.le_max
    rw [Nat.toUInt64, UInt64.toNat_ofNat']
    omega
  fun_induction wordText b w tail with
  | case1 => simp
  | case2 w tail hw ih =>
      -- the remainder is the least digit, the quotient has the others
      have hpos : 0 < w.toNat := by
        apply Nat.pos_of_ne_zero
        intro hz
        exact hw (UInt64.toNat_inj.1 hz)
      rw [ih, UInt64.toNat_div, UInt64.toNat_mod, hsize, Nat.digits_def' htwo hpos]
      simp

/-- **A machine integer is written as the canonical numeral.** -/
theorem machineText_eq (b : Base) {v : Int} (hlo : -2 ^ 63 ≤ v) (hhi : v < 2 ^ 64) :
    b.machineText v = b.numeral v := by
  have habs := Numeral.toNat_wordMagnitude hlo hhi
  unfold machineText
  dsimp only
  generalize Numeral.wordMagnitude (decide (v < 0)) (UInt64.ofInt v) = w at habs
  split
  next hw =>
      rw [hw] at habs
      rw [Int.natAbs_eq_zero.1 habs.symm]
      rfl
  next hw =>
      have hne : v.natAbs ≠ 0 := by
        rw [← habs]
        exact fun hz => hw (UInt64.toNat_inj.1 hz)
      unfold numeral digitsOf
      rw [wordText_eq, habs, List.append_nil, if_neg hne]
      simp only [decide_eq_true_iff]

end Base

namespace Numeral

theorem machineTextIn_size (b : Base) (v : Int) :
    machineTextIn b.size v = .ok (b.machineText v) := by
  unfold machineTextIn
  rw [Base.ofInt?_size]

/-- The canonical text of an integer is read as its canonical numeral. -/
theorem ofTextIn_numeral (b : Base) (i : Int) :
    ∃ y, ofTextIn b.size (Bytes.ofText (b.numeral i)) = .ok y ∧ y.Canonical ∧ y.toInt = i := by
  have hof := ofText_eq b (Bytes.ofText (b.numeral i))
  rw [Base.integer?_numeral] at hof
  rw [ofTextIn_size]
  exact hof

/-- **Machine integers and numerals are written alike, and read back**, in
every base.  Take any machine type of at most 64 bits and any of its values,
which conversion to the type leaves alone and whose word is its pattern,
extended.  It is written, as every well-formed numeral of the value is; and
the text is read as the canonical numeral of the value, which is also what the
value becomes as a 64-bit integer, if it fits one. -/
theorem machine_text_agrees (b : Base) {t : WordType} (hpos : 0 < t.bits) (hbits : t.bits ≤ 64)
    {v : Int} (hv : t.Holds v) :
    (t.wrap v = v ∧ UInt64.ofInt v = UInt64.ofBitVec (t.extend (BitVec.ofInt t.bits v))) ∧
    ∃ text, machineTextIn b.size v = .ok text ∧
      (∀ x : Numeral, x.WellFormed → x.toInt = v → formatIn b.size x = .ok text) ∧
      ∃ y, ofTextIn b.size (Bytes.ofText text) = .ok y ∧ y.Canonical ∧ y.toInt = v ∧
        (-2 ^ 63 ≤ v → v < 2 ^ 63 → y = ofInt64 (Int64.ofInt v)) := by
  obtain ⟨hlo, hhi⟩ := hv.bounds hbits
  refine ⟨⟨(WordType.wrap_eq_iff hpos v).2 hv, WordType.ofInt_eq_extend hpos hbits hv⟩,
    b.numeral v, ?_, ?_, ?_⟩
  · rw [machineTextIn_size, Base.machineText_eq b hlo hhi]
  · intro x hx hint
    rw [formatIn_size, format_eq hx, hint]
  · obtain ⟨y, hy, hcan, hint⟩ := ofTextIn_numeral b v
    refine ⟨y, hy, hcan, hint, fun hlo hlt => ?_⟩
    obtain ⟨hback, hcan'⟩ := toInt_ofInt64 (Int64.ofInt v)
    rw [Int64.toInt_ofInt_of_le hlo hlt] at hback
    exact hcan.eq_of_toInt_eq hcan' (hint.trans hback.symm)

/-- The most negative integer of 64 bits in base 16, and the greatest word
without a sign. -/
theorem machine_text_agrees_limits :
    let t : WordType := ⟨true, 64⟩
    let u : WordType := ⟨false, 64⟩
    t.Holds (-2 ^ 63) ∧ machineTextIn 16 (-2 ^ 63) = .ok "-8000000000000000" ∧
      ofTextIn 16 (Bytes.ofText "-8000000000000000") = .ok (ofInt64 Int64.minValue) ∧
      u.Holds (2 ^ 64 - 1) ∧ machineTextIn 16 (2 ^ 64 - 1) = .ok "FFFFFFFFFFFFFFFF" ∧
      ∃ y, ofTextIn 16 (Bytes.ofText "FFFFFFFFFFFFFFFF") = .ok y ∧ y.toInt = 2 ^ 64 - 1 := by
  intro t u
  let b : Base := { size := 16 }
  have ht : t.Holds (-2 ^ 63) := by decide
  have hu : u.Holds (2 ^ 64 - 1) := by decide
  have hleast : machineTextIn b.size (-2 ^ 63) = .ok "-8000000000000000" := by
    rw [machineTextIn_size, Base.machineText_eq b (by decide) (by decide)]
    decide +kernel
  have hgreatest : machineTextIn b.size (2 ^ 64 - 1) = .ok "FFFFFFFFFFFFFFFF" := by
    rw [machineTextIn_size, Base.machineText_eq b (by decide) (by decide)]
    decide +kernel
  obtain ⟨_, text, htext, _, y, hy, _, _, hback⟩ :=
    machine_text_agrees b (by decide) (by decide) ht
  obtain rfl : text = "-8000000000000000" := Except.ok.inj (htext.symm.trans hleast)
  obtain ⟨_, text, htext, _, z, hz, _, hint, _⟩ :=
    machine_text_agrees b (by decide) (by decide) hu
  obtain rfl : text = "FFFFFFFFFFFFFFFF" := Except.ok.inj (htext.symm.trans hgreatest)
  refine ⟨ht, hleast, ?_, hu, hgreatest, z, hz, hint⟩
  rw [hback (by decide) (by decide)] at hy
  exact hy

end Numeral

end Tetraglyph
