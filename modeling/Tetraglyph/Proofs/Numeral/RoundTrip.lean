/-
  Tetraglyph.Proofs.Numeral.RoundTrip
  ───────────────────────────────────
  **WRITING AND READING UNDO EACH OTHER.**

  In every base an integer has one CANONICAL text: the digits 0 to 9 and A
  to Z below the base, the most significant first and not 0 unless it is the
  only one, with a minus sign in front for negative integers and no others.
  A number is written as this text, and reading the text gives the number
  back.  Reading takes more than is written: leading zeros, small letters
  and a minus sign in front of 0.  Writing what was read TIDIES these up and
  leaves all else as it was.

      Base.IsNumeral   — the canonical text of an integer
      Base.tidy        — a text in capital letters, without leading zeros,
                         and without a sign on zero

  Main results

      isNumeral_iff       — there is one canonical text, and it is written
      integer?_numeral    — reading gives back what was written
      numeral_integer?    — writing tidies up what was read
      eq_of_toInt_eq      — canonical numerals of one integer are the same
      format_inverse      — all of this of numbers in every base
-/
import Mathlib.Data.Nat.Digits.Lemmas
import Tetraglyph.Proofs.Numeral.Bases
import Tetraglyph.Proofs.Text.Utf8

namespace Tetraglyph

open Digits

/-! ## §1. Bytes of digit characters. -/

namespace Bytes

/-- The bytes of a text of ASCII characters. -/
theorem ofText_ofList {cs : List Char} (h : ∀ c ∈ cs, c.utf8Size = 1) :
    Bytes.ofText (String.ofList cs) = cs.map Char.toUInt8 := by
  rw [ofText_eq, String.toList_ofList]
  -- each character is one byte
  induction cs with
  | nil => rfl
  | cons c cs ih =>
      obtain ⟨hc, hcs⟩ := List.forall_mem_cons.1 h
      rw [List.flatMap_cons, String.utf8EncodeChar_eq_singleton hc, ih hcs]
      rfl

end Bytes

namespace Base

theorem ofInt?_size (b : Base) : ofInt? b.size = some b := by
  obtain ⟨size, two_le, le_max⟩ := b
  unfold ofInt?
  rw [dif_pos (by dsimp only; omega)]
  rfl

/-- What a digit character is as a byte. -/
theorem digitChar_byte {d : Nat} (h : d < 36) :
    (digitChar d).utf8Size = 1 ∧ digitValue? (digitChar d).toUInt8 = some d ∧
      (digitChar d).toUInt8 ≠ 45 := by
  have hall : ∀ d < 36, (digitChar d).utf8Size = 1 ∧
      digitValue? (digitChar d).toUInt8 = some d ∧ (digitChar d).toUInt8 ≠ 45 := by decide
  exact hall d h

/-- A byte as a character, and a letter as a capital one. -/
def capital (c : UInt8) : Char := (Char.ofUInt8 c).toUpper

/-- What a byte that is a digit is as a character. -/
theorem digitValue?_capital {c : UInt8} {d : Nat} (h : digitValue? c = some d) :
    capital c = digitChar d := by
  have hall : ∀ c, ∀ d ∈ digitValue? c, capital c = digitChar d :=
    Bytes.forall_byte (by decide +kernel)
  exact hall c d h

theorem digitChar_eq_zero {d : Nat} (h : d < 36) : digitChar d = '0' ↔ d = 0 := by
  have hall : ∀ d < 36, digitChar d = '0' ↔ d = 0 := by decide
  exact hall d h

theorem digit?_eq_some {b : Base} {c : UInt8} {d : Nat} :
    b.digit? c = some d ↔ digitValue? c = some d ∧ d < b.size := by
  unfold digit?
  cases hc : digitValue? c with
  | none => simp
  | some e =>
      dsimp only
      constructor
      · intro h
        split at h
        next hlt =>
            injection h with h
            subst h
            exact ⟨rfl, hlt⟩
        next => exact absurd h (by simp)
      · intro ⟨he, hlt⟩
        injection he with he
        subst he
        rw [if_pos hlt]

/-! ## §2. Lists of digits. -/

section

variable {b : Base}

/-- The bytes of digits are read as these digits. -/
theorem mapM_digit?_bytes {ds : List Nat} (h : ∀ d ∈ ds, d < b.size) :
    (ds.map fun d => (digitChar d).toUInt8).mapM b.digit? = some ds := by
  induction ds with
  | nil => rfl
  | cons d ds ih =>
      obtain ⟨hd, hds⟩ := List.forall_mem_cons.1 h
      have hread : b.digit? (digitChar d).toUInt8 = some d :=
        digit?_eq_some.2 ⟨(digitChar_byte (Nat.lt_of_lt_of_le hd b.le_max)).2.1, hd⟩
      rw [List.map_cons, List.mapM_cons, hread, ih hds]
      rfl

/-- The bytes that are read as digits are these digits, in either case. -/
theorem capitals_of_mapM {body : Bytes} {ds : List Nat} (h : body.mapM b.digit? = some ds) :
    body.map capital = ds.map digitChar ∧ ∀ d ∈ ds, d < b.size := by
  induction body generalizing ds with
  | nil =>
      obtain rfl : [] = ds := Option.some.inj h
      exact ⟨rfl, by simp⟩
  | cons c body ih =>
      rw [List.mapM_cons] at h
      obtain ⟨d, hd, h⟩ := Option.bind_eq_some_iff.1 h
      obtain ⟨es, hes, h⟩ := Option.bind_eq_some_iff.1 h
      obtain rfl : d :: es = ds := Option.some.inj h
      obtain ⟨hc, hlt⟩ := digit?_eq_some.1 hd
      obtain ⟨hmap, hall⟩ := ih hes
      rw [List.map_cons, List.map_cons, digitValue?_capital hc, hmap]
      exact ⟨rfl, List.forall_mem_cons.2 ⟨hlt, hall⟩⟩

/-- **Digits without leading zeros** are the digits of the number that they
denote with them, if any are left. -/
theorem digitsOf_ofDigits {ds : List Nat} (h : ∀ d ∈ ds, d < b.size) :
    ((ds.map digitChar).dropWhile (· == '0') = [] ∧ Nat.ofDigits b.size ds.reverse = 0) ∨
      ((ds.map digitChar).dropWhile (· == '0') ≠ [] ∧ Nat.ofDigits b.size ds.reverse ≠ 0 ∧
        b.digitsOf (Nat.ofDigits b.size ds.reverse) = (ds.map digitChar).dropWhile (· == '0')) := by
  induction ds with
  | nil => exact .inl ⟨rfl, rfl⟩
  | cons d ds ih =>
      obtain ⟨hd, hds⟩ := List.forall_mem_cons.1 h
      have hzero := digitChar_eq_zero (Nat.lt_of_lt_of_le hd b.le_max)
      by_cases hd0 : d = 0
      · -- a leading zero goes, and adds nothing
        have hval : Nat.ofDigits b.size (d :: ds).reverse = Nat.ofDigits b.size ds.reverse := by
          rw [List.reverse_cons, Nat.ofDigits_append, Nat.ofDigits_singleton, hd0, Nat.mul_zero,
            Nat.add_zero]
        rw [List.map_cons, List.dropWhile_cons_of_pos (by rw [hzero.2 hd0]; rfl), hval]
        exact ih hds
      · -- the first digit that is not 0 leads
        have hdrop : ((d :: ds).map digitChar).dropWhile (· == '0') = (d :: ds).map digitChar := by
          rw [List.map_cons, List.dropWhile_cons_of_neg (by simpa using fun hc => hd0 (hzero.1 hc))]
        have hlast : ∀ hne : (d :: ds).reverse ≠ [], (d :: ds).reverse.getLast hne ≠ 0 := by
          intro hne
          rw [List.getLast_reverse]
          exact hd0
        have hdigits : Nat.digits b.size (Nat.ofDigits b.size (d :: ds).reverse)
            = (d :: ds).reverse :=
          Nat.digits_ofDigits b.size b.two_le _
            (fun e he => h e (List.mem_reverse.1 he)) (fun hne => hlast hne)
        have hne0 : Nat.ofDigits b.size (d :: ds).reverse ≠ 0 := by
          intro h0
          rw [h0, Nat.digits_zero] at hdigits
          exact absurd hdigits.symm (by simp)
        refine .inr ⟨by rw [hdrop]; simp, hne0, ?_⟩
        unfold digitsOf
        rw [if_neg hne0, hdigits, List.reverse_reverse, hdrop]

/-! ## §3. The canonical text. -/

/-- The digit characters in the order of their values. -/
def symbols : List Char := "0123456789ABCDEFGHIJKLMNOPQRSTUVWXYZ".toList

/-- The digits with which a number is written in a base, the most significant
first: those below the base, and no leading zero. -/
structure Spells (b : Base) (n : Nat) (ds : List Nat) : Prop where
  /-- There is a digit. -/
  ne_nil : ds ≠ []
  /-- The digits are those of the base. -/
  below : ∀ d ∈ ds, d < b.size
  /-- A zero leads only if nothing follows it. -/
  leading : ds.head? = some 0 → ds = [0]
  /-- The digits have the number as their positional value. -/
  value : Nat.ofDigits b.size ds.reverse = n

/-- **The canonical text of an integer**: a minus sign if it is negative, and
then the digits of its absolute value. -/
def IsNumeral (b : Base) (i : Int) (text : String) : Prop :=
  ∃ ds, b.Spells i.natAbs ds ∧
    text.toList = (if i < 0 then ['-'] else []) ++ ds.map (symbols.getD · ' ')

theorem symbols_getD {d : Nat} (h : d < 36) : symbols.getD d ' ' = digitChar d := by
  have hall : ∀ d < 36, symbols.getD d ' ' = digitChar d := by decide +kernel
  exact hall d h

theorem map_symbols {ds : List Nat} (h : ∀ d ∈ ds, d < b.size) :
    ds.map (symbols.getD · ' ') = ds.map digitChar :=
  List.map_congr_left fun d hd => symbols_getD (Nat.lt_of_lt_of_le (h d hd) b.le_max)

/-- Every number is spelt with its digits. -/
theorem exists_spells (b : Base) (n : Nat) :
    ∃ ds, b.Spells n ds ∧ ds.map digitChar = b.digitsOf n := by
  have htwo := b.two_le
  unfold digitsOf
  split
  next hz =>
      refine ⟨[0], ⟨by simp, ?_, fun _ => rfl, ?_⟩, rfl⟩
      · intro d hd
        rw [List.mem_singleton.1 hd]
        omega
      · rw [hz]
        rfl
  next hz =>
      have hne : Nat.digits b.size n ≠ [] := Nat.digits_ne_nil_iff_ne_zero.2 hz
      refine ⟨(Nat.digits b.size n).reverse, ⟨?_, ?_, ?_, ?_⟩, rfl⟩
      · simpa using hne
      · intro d hd
        exact Nat.digits_lt_base htwo (List.mem_reverse.1 hd)
      · -- the most significant digit of a number above 0 is not 0
        intro hhead
        rw [List.head?_reverse, List.getLast?_eq_some_getLast hne] at hhead
        exact absurd (Option.some.inj hhead) (Nat.getLast_digit_ne_zero b.size hz)
      · rw [List.reverse_reverse, Nat.ofDigits_digits]

/-- A number is spelt in one way. -/
theorem Spells.digitsOf {n : Nat} {ds : List Nat} (h : b.Spells n ds) :
    ds.map digitChar = b.digitsOf n := by
  obtain ⟨d, rest, rfl⟩ := List.exists_cons_of_ne_nil h.ne_nil
  have hd : d < 36 := Nat.lt_of_lt_of_le (h.below d List.mem_cons_self) b.le_max
  by_cases hd0 : d = 0
  · obtain ⟨rfl, rfl⟩ : d = 0 ∧ rest = [] := by simpa [hd0] using h.leading
    have hn : n = 0 := h.value.symm
    rw [hn]
    rfl
  · -- nothing is dropped from digits that no zero leads
    have hdrop : ((d :: rest).map digitChar).dropWhile (· == '0')
        = (d :: rest).map digitChar := by
      rw [List.map_cons, List.dropWhile_cons_of_neg
        (by simpa using fun hc => hd0 ((digitChar_eq_zero hd).1 hc))]
    have hdigits := digitsOf_ofDigits h.below
    rw [hdrop, h.value] at hdigits
    rcases hdigits with ⟨hnil, _⟩ | ⟨_, _, hof⟩
    · exact absurd hnil (by simp)
    · exact hof.symm

theorem toList_numeral (b : Base) (i : Int) :
    (b.numeral i).toList = (if i < 0 then ['-'] else []) ++ b.digitsOf i.natAbs := by
  unfold numeral
  rw [String.toList_ofList]
  split
  next => rfl
  next => rfl

/-- **There is one canonical text, and it is written.** -/
theorem isNumeral_iff (b : Base) (i : Int) (text : String) :
    b.IsNumeral i text ↔ text = b.numeral i := by
  constructor
  · rintro ⟨ds, hds, htext⟩
    rw [map_symbols hds.below, hds.digitsOf, ← toList_numeral] at htext
    exact String.toList_injective htext
  · intro htext
    obtain ⟨ds, hds, hof⟩ := b.exists_spells i.natAbs
    refine ⟨ds, hds, ?_⟩
    rw [htext, toList_numeral, map_symbols hds.below, hof]

/-! ## §4. Reading what was written. -/

/-- The digits of a number are read as the number. -/
theorem natural?_digitsOf (b : Base) (n : Nat) :
    b.natural? ((b.digitsOf n).map Char.toUInt8) = some n := by
  obtain ⟨ds, hds, hof⟩ := b.exists_spells n
  rw [← hof, List.map_map]
  unfold natural?
  rw [if_neg (by simpa using hds.ne_nil)]
  have hread : (ds.map (Char.toUInt8 ∘ digitChar)).mapM b.digit? = some ds :=
    mapM_digit?_bytes hds.below
  rw [hread]
  exact congrArg some hds.value

theorem digitsOf_ascii {n : Nat} {c : Char} (h : c ∈ b.digitsOf n) :
    c.utf8Size = 1 ∧ c.toUInt8 ≠ 45 := by
  obtain ⟨ds, hds, hof⟩ := b.exists_spells n
  rw [← hof] at h
  obtain ⟨d, hd, rfl⟩ := List.mem_map.1 h
  have hbyte := digitChar_byte (Nat.lt_of_lt_of_le (hds.below d hd) b.le_max)
  exact ⟨hbyte.1, hbyte.2.2⟩

/-- **Reading gives back what was written.** -/
theorem integer?_numeral (b : Base) (i : Int) :
    b.integer? (Bytes.ofText (b.numeral i)) = some i := by
  have hascii : ∀ c ∈ (if i < 0 then '-' :: b.digitsOf i.natAbs else b.digitsOf i.natAbs),
      c.utf8Size = 1 := by
    intro c hc
    split at hc
    next =>
        rcases List.mem_cons.1 hc with rfl | hc
        · rfl
        · exact (digitsOf_ascii hc).1
    next => exact (digitsOf_ascii hc).1
  unfold numeral
  rw [Bytes.ofText_ofList hascii]
  split
  next hneg =>
      have hi : -(i.natAbs : Int) = i := by omega
      show (b.natural? ((b.digitsOf i.natAbs).map Char.toUInt8)).map _ = _
      rw [natural?_digitsOf]
      exact congrArg some hi
  next hneg =>
      -- the first byte is a digit, so no sign is taken off
      have hsplit : Numeral.splitSign ((b.digitsOf i.natAbs).map Char.toUInt8)
          = (false, (b.digitsOf i.natAbs).map Char.toUInt8) := by
        unfold Numeral.splitSign
        split
        next body hbody =>
            have hmem : (45 : UInt8) ∈ (b.digitsOf i.natAbs).map Char.toUInt8 := by
              rw [hbody]
              exact List.mem_cons_self
            obtain ⟨c, hc, hc45⟩ := List.mem_map.1 hmem
            exact absurd hc45 (digitsOf_ascii hc).2
        next => rfl
      have hi : (i.natAbs : Int) = i := by omega
      rw [Numeral.integer?_eq, hsplit, natural?_digitsOf]
      exact congrArg some hi

/-! ## §5. Writing what was read. -/

/-- A text in capital letters, without leading zeros, and without a sign on
zero. -/
def tidy (text : Bytes) : String :=
  match ((Numeral.splitSign text).2.map capital).dropWhile (· == '0') with
  | [] => "0"
  | cs => String.ofList (if (Numeral.splitSign text).1 then '-' :: cs else cs)

/-- **Writing tidies up what was read.** -/
theorem numeral_integer? {text : Bytes} {i : Int} (h : b.integer? text = some i) :
    b.numeral i = tidy text := by
  rw [Numeral.integer?_eq] at h
  unfold tidy
  generalize Numeral.splitSign text = split at h ⊢
  obtain ⟨neg, body⟩ := split
  obtain ⟨n, hn, rfl⟩ := Option.map_eq_some_iff.1 h
  unfold natural? at hn
  split at hn
  next => exact absurd hn (by simp)
  next =>
      obtain ⟨ds, hds, rfl⟩ := Option.map_eq_some_iff.1 hn
      obtain ⟨hcapitals, hbelow⟩ := capitals_of_mapM hds
      dsimp only
      rw [hcapitals]
      unfold numeral
      rw [Numeral.natAbs_signed]
      rcases digitsOf_ofDigits hbelow with ⟨hdrop, hval⟩ | ⟨hdrop, hval, hof⟩
      · -- only zeros: no digit is left, and no sign
        rw [hdrop, hval]
        cases neg with
        | false => rfl
        | true => rfl
      · rw [hof]
        generalize ((ds.map digitChar).dropWhile (· == '0')) = cs at hdrop
        generalize Nat.ofDigits b.size ds.reverse = n at hval
        obtain ⟨c, cs, rfl⟩ := List.exists_cons_of_ne_nil hdrop
        have hsign : Numeral.signed neg n < 0 ↔ neg = true := by
          unfold Numeral.signed
          split
          next hneg => exact ⟨fun _ => hneg, fun _ => by omega⟩
          next hneg => exact ⟨fun hlt => by omega, fun hn => absurd hn hneg⟩
        simp only [hsign]

end

end Base

/-! ## §6. Numbers in every base. -/

namespace Numeral

/-- Canonical numerals of one integer are the same. -/
theorem Canonical.eq_of_toInt_eq {x y : Numeral} (hx : x.Canonical) (hy : y.Canonical)
    (h : x.toInt = y.toInt) : x = y := by
  have hneg : x.neg = y.neg := by rw [hx.wellFormed.neg_eq, hy.wellFormed.neg_eq, h]
  have hvalue : value x.digits = value y.digits := by
    rw [← value_mag, ← value_mag, ← natAbs_toInt, ← natAbs_toInt, h]
  obtain ⟨hxd, hxne, hxtop⟩ := hx
  obtain ⟨hyd, hyne, hytop⟩ := hy
  have hxt : Trimmed x.digits := ⟨hxne, fun h0 => (hxtop h0).1⟩
  have hyt : Trimmed y.digits := ⟨hyne, fun h0 => (hytop h0).1⟩
  have hdigits : x.digits = y.digits := hxt.eq_of_value_eq hyt hxd hyd hvalue
  cases x
  cases y
  simp only [mk.injEq]
  exact ⟨hneg, hdigits⟩

theorem formatIn_size (b : Base) (x : Numeral) : formatIn b.size x = .ok (x.format b) := by
  unfold formatIn
  rw [Base.ofInt?_size]

theorem ofTextIn_size (b : Base) (text : Bytes) : ofTextIn b.size text = ofText b text := by
  unfold ofTextIn
  rw [Base.ofInt?_size]

/-- **Writing and reading numbers undo each other**, in every base.  A number
is written, and as its canonical text, the only one there is; in base 10 the
digits are shown as they are, which is what dividing by 10 makes of them.
What was written is read as the number; and what was read is written as the
text in capital letters, without leading zeros and without a sign on zero. -/
theorem format_inverse (b : Base) {x : Numeral} (hx : x.WellFormed) :
    (formatIn b.size x = .ok (x.format b) ∧
      (∀ text, b.IsNumeral x.toInt text ↔ text = x.format b) ∧ x.format b ≠ "-0" ∧
      x.format .ten = x.text ∧ x.text = x.byDivision .ten) ∧
    (∃ y, ofTextIn b.size (Bytes.ofText (x.format b)) = .ok y ∧ y.Canonical ∧
      y.equal x = true ∧ (x.Canonical → y = x)) ∧
    ∀ text y, ofTextIn b.size text = .ok y → y.format b = Base.tidy text := by
  refine ⟨⟨formatIn_size b x, ?_, ?_, rfl, ?_⟩, ?_, ?_⟩
  · intro text
    rw [Base.isNumeral_iff, format_eq hx]
  · -- this text is read too, and would be written without its sign
    intro hzero
    have hback := b.integer?_numeral x.toInt
    rw [← format_eq hx, hzero] at hback
    have htidy := Base.numeral_integer? hback
    rw [← format_eq hx, hzero] at htidy
    exact absurd htidy (by decide +kernel)
  · rw [text_eq hx, byDivision_eq hx]
  · have hof := ofText_eq b (Bytes.ofText (x.format b))
    rw [format_eq hx, Base.integer?_numeral] at hof
    obtain ⟨y, hy, hcan, hint⟩ := hof
    refine ⟨y, ?_, hcan, ?_, fun hxc => hcan.eq_of_toInt_eq hxc hint⟩
    · rw [ofTextIn_size, format_eq hx, hy]
    · rw [equal_eq hcan.wellFormed hx, hint, decide_eq_true rfl]
  · intro text y hy
    rw [ofTextIn_size] at hy
    have hof := ofText_eq b text
    cases hi : b.integer? text with
    | none =>
        rw [hi] at hof
        rw [hy] at hof
        exact absurd hof (by simp)
    | some i =>
        rw [hi] at hof
        obtain ⟨v, hv, hcan, hint⟩ := hof
        obtain rfl : v = y := Except.ok.inj (hv.symm.trans hy)
        rw [format_eq hcan.wellFormed, hint, Base.numeral_integer? hi]

/-- The number -255 in base 16, and what becomes of a text of it that is not
canonical. -/
theorem format_inverse_hexadecimal :
    let b : Base := { size := 16 }
    let x : Numeral := ⟨true, [5, 5, 2]⟩
    x.WellFormed ∧ b.IsNumeral (-255) "-FF" ∧ ofTextIn 16 (Bytes.ofText "-FF") = .ok x ∧
      ofTextIn 16 (Bytes.ofText "-0fF") = .ok x ∧ Base.tidy (Bytes.ofText "-0fF") = "-FF" := by
  intro b x
  have hcan : x.Canonical := canonical_of_getLast? (d := 2) (by simp) rfl (by decide)
  have hx : x.WellFormed := hcan.wellFormed
  have hformat : x.format b = "-FF" := by
    rw [format_eq hx]
    decide +kernel
  obtain ⟨⟨_, hcanonical, _⟩, ⟨y, hy, _, _, heq⟩, htidy⟩ := format_inverse b hx
  have hloose : ofTextIn b.size (Bytes.ofText "-0fF") = .ok x := by
    have hint : b.integer? (Bytes.ofText "-0fF") = some (-255) := by decide +kernel
    have hof := ofText_eq b (Bytes.ofText "-0fF")
    rw [hint] at hof
    obtain ⟨v, hv, hvcan, hvint⟩ := hof
    rw [ofTextIn_size, hv, hvcan.eq_of_toInt_eq hcan hvint]
  refine ⟨hx, (hcanonical "-FF").2 hformat.symm, ?_, hloose, ?_⟩
  · rw [hformat, heq hcan] at hy
    exact hy
  · rw [← htidy _ x hloose, hformat]

end Numeral

end Tetraglyph
