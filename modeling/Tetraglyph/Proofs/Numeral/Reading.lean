/-
  Tetraglyph.Proofs.Numeral.Reading
  ─────────────────────────────────
  **WHAT IS READ AS A NUMBER, AND AS WHICH.**

  A LITERAL of a base is one minus sign at most, and then one digit or more.
  A digit is a byte that stands in the row of digit characters 0 to 9 and A
  to Z, or the small letter to one that does, at a place below the base; any
  other byte, and a second minus sign, spoils the whole text.  The digits
  count by their places, the last one for units.

      Base.Stands       — the digit for which a byte stands
      Base.Literal      — a text as a sign and digits
      Base.positional   — what digits count for together

  Main results

      literal_iff     — a literal is told apart by its first byte, and read
                        byte by byte
      integer?_iff    — a text denotes an integer if and only if it is a
                        literal
      reading_exact   — a number is read from the literals and from nothing
                        else; what is wrong with any other text
-/
import Mathlib.Algebra.BigOperators.Fin
import Tetraglyph.Proofs.Numeral.RoundTrip

namespace Tetraglyph

namespace Base

/-! ## §1. Digits and literals. -/

/-- A byte stands for a digit: it is the character of the digit, or the small
letter to it. -/
def Stands (c : UInt8) (d : Nat) : Prop :=
  ∃ s, symbols[d]? = some s ∧ (c = s.toUInt8 ∨ c = s.toLower.toUInt8)

/-- **A text is a literal**: a minus sign if `neg` says so, and behind it one
byte for each of the digits `ds`, of which there are some. -/
structure Literal (b : Base) (text : Bytes) (neg : Bool) (ds : List Nat) : Prop where
  /-- The sign and the bytes of the digits are the whole text. -/
  spelt : ∃ body, text = (if neg then [45] else []) ++ body ∧ List.Forall₂ Stands body ds
  /-- There is a digit. -/
  ne_nil : ds ≠ []
  /-- The digits are those of the base. -/
  below : ∀ d ∈ ds, d < b.size

/-- **What digits count for together**, the most significant first: each one
as often as the base to the number of digits behind it says. -/
def positional (b : Base) (ds : List Nat) : Nat :=
  ∑ i : Fin ds.length, ds.get i * b.size ^ (ds.length - 1 - i)

/-! ## §2. The digit of a byte. -/

theorem getElem?_symbols {d : Nat} (h : d < 36) : symbols[d]? = some (digitChar d) := by
  have hall : ∀ d < 36, symbols[d]? = some (digitChar d) := by decide +kernel
  exact hall d h

/-- **The value of a byte is the digit for which it stands.** -/
theorem digitValue?_iff (c : UInt8) (d : Nat) : digitValue? c = some d ↔ Stands c d := by
  constructor
  · intro h
    have hall : ∀ c, ∀ d ∈ digitValue? c, d < 36 ∧
        (c = (digitChar d).toUInt8 ∨ c = (digitChar d).toLower.toUInt8) :=
      Bytes.forall_byte (by decide +kernel)
    obtain ⟨hlt, hbyte⟩ := hall c d h
    exact ⟨digitChar d, getElem?_symbols hlt, hbyte⟩
  · rintro ⟨s, hs, hc⟩
    have hall : ∀ d < 36, digitValue? (digitChar d).toUInt8 = some d ∧
        digitValue? (digitChar d).toLower.toUInt8 = some d := by decide +kernel
    -- there are 36 characters in the row
    have hlen : symbols.length = 36 := by decide +kernel
    obtain ⟨hlt, _⟩ := List.getElem?_eq_some_iff.1 hs
    rw [hlen] at hlt
    rw [getElem?_symbols hlt] at hs
    obtain rfl : digitChar d = s := Option.some.inj hs
    rcases hc with rfl | rfl
    · exact (hall d hlt).1
    · exact (hall d hlt).2

/-- A minus sign stands for no digit. -/
theorem not_stands_minus (d : Nat) : ¬Stands 45 d := by
  intro h
  have hval := (digitValue?_iff 45 d).2 h
  exact absurd hval (by simp [digitValue?])

theorem digit?_iff {b : Base} {c : UInt8} {d : Nat} :
    b.digit? c = some d ↔ Stands c d ∧ d < b.size := by
  rw [digit?_eq_some, digitValue?_iff]

/-- **Bytes are read as digits one by one.** -/
theorem mapM_digit?_iff {b : Base} {body : Bytes} {ds : List Nat} :
    body.mapM b.digit? = some ds ↔ List.Forall₂ Stands body ds ∧ ∀ d ∈ ds, d < b.size := by
  induction body generalizing ds with
  | nil =>
      rw [List.mapM_nil, List.forall₂_nil_left_iff]
      constructor
      · intro h
        obtain rfl : [] = ds := Option.some.inj h
        exact ⟨rfl, by simp⟩
      · rintro ⟨rfl, _⟩
        rfl
  | cons c body ih =>
      rw [List.mapM_cons, List.forall₂_cons_left_iff]
      constructor
      · intro h
        obtain ⟨d, hd, h⟩ := Option.bind_eq_some_iff.1 h
        obtain ⟨es, hes, h⟩ := Option.bind_eq_some_iff.1 h
        obtain rfl : d :: es = ds := Option.some.inj h
        obtain ⟨hstands, hlt⟩ := digit?_iff.1 hd
        obtain ⟨hall, hbelow⟩ := ih.1 hes
        exact ⟨⟨d, es, hstands, hall, rfl⟩, List.forall_mem_cons.2 ⟨hlt, hbelow⟩⟩
      · rintro ⟨⟨d, es, hstands, hall, rfl⟩, hbelow⟩
        obtain ⟨hlt, hbelow⟩ := List.forall_mem_cons.1 hbelow
        rw [digit?_iff.2 ⟨hstands, hlt⟩, ih.2 ⟨hall, hbelow⟩]
        rfl

/-! ## §3. Literals and the integers that they denote. -/

/-- The sign and what is behind it are the whole text. -/
theorem splitSign_append (text : Bytes) :
    (if (Numeral.splitSign text).1 then [45] else []) ++ (Numeral.splitSign text).2 = text := by
  unfold Numeral.splitSign
  split
  next => rfl
  next => rfl

/-- A sign is found again in front of anything that does not begin with
another one. -/
theorem splitSign_sign {neg : Bool} {body : Bytes} (h : body.head? ≠ some 45) :
    Numeral.splitSign ((if neg then [45] else []) ++ body) = (neg, body) := by
  cases neg with
  | true => rfl
  | false =>
      show Numeral.splitSign body = (false, body)
      unfold Numeral.splitSign
      split
      next rest => exact absurd rfl h
      next => rfl

/-- **A literal is told apart by its first byte, and read byte by byte.** -/
theorem literal_iff {b : Base} {text : Bytes} {neg : Bool} {ds : List Nat} :
    b.Literal text neg ds ↔ (Numeral.splitSign text).1 = neg ∧
      (Numeral.splitSign text).2 ≠ [] ∧ (Numeral.splitSign text).2.mapM b.digit? = some ds := by
  constructor
  · rintro ⟨⟨body, rfl, hstands⟩, hne, hbelow⟩
    cases hstands with
    | nil => exact absurd rfl hne
    | @cons c d body ds hfirst hrest =>
        -- the first byte behind the sign is a digit, and so no sign
        have hhead : (c :: body).head? ≠ some 45 := by
          intro h
          obtain rfl : c = 45 := Option.some.inj h
          exact not_stands_minus d hfirst
        rw [splitSign_sign hhead]
        exact ⟨rfl, by simp, mapM_digit?_iff.2 ⟨.cons hfirst hrest, hbelow⟩⟩
  · rintro ⟨hneg, hne, hmap⟩
    obtain ⟨hstands, hbelow⟩ := mapM_digit?_iff.1 hmap
    refine ⟨⟨(Numeral.splitSign text).2, ?_, hstands⟩, ?_, hbelow⟩
    · rw [← hneg, splitSign_append]
    · rintro rfl
      exact hne (List.forall₂_nil_right_iff.1 hstands)

/-- Counting by places is multiplying by the base and adding, from the last
digit to the first. -/
theorem positional_eq (b : Base) (ds : List Nat) :
    b.positional ds = Nat.ofDigits b.size ds.reverse := by
  induction ds with
  | nil => rfl
  | cons d ds ih =>
      -- the first digit counts most, the others as without it
      have hrest : ∀ i : Fin ds.length,
          (d :: ds).get i.succ * b.size ^ ((d :: ds).length - 1 - i.succ)
            = ds.get i * b.size ^ (ds.length - 1 - i) := by
        intro i
        have hexp : (d :: ds).length - 1 - i.succ = ds.length - 1 - i := by
          rw [List.length_cons, Fin.val_succ]
          omega
        rw [hexp]
        rfl
      rw [List.reverse_cons, Nat.ofDigits_append, Nat.ofDigits_singleton, List.length_reverse,
        ← ih]
      unfold positional
      show ∑ i : Fin (ds.length + 1), (d :: ds).get i * b.size ^ ((d :: ds).length - 1 - i) = _
      rw [Fin.sum_univ_succ, Finset.sum_congr rfl fun i _ => hrest i]
      show d * b.size ^ ds.length + _ = _
      rw [Nat.add_comm, Nat.mul_comm d]

/-- **A text denotes an integer if and only if it is a literal**, and then the
one for which its digits count, with its sign. -/
theorem integer?_iff {b : Base} {text : Bytes} {i : Int} :
    b.integer? text = some i ↔
      ∃ neg ds, b.Literal text neg ds ∧ i = Numeral.signed neg (b.positional ds) := by
  rw [Numeral.integer?_eq]
  unfold natural?
  constructor
  · intro h
    obtain ⟨n, hn, rfl⟩ := Option.map_eq_some_iff.1 h
    split at hn
    next => exact absurd hn (by simp)
    next hne =>
        obtain ⟨ds, hds, rfl⟩ := Option.map_eq_some_iff.1 hn
        exact ⟨_, ds, literal_iff.2 ⟨rfl, hne, hds⟩, by rw [positional_eq]⟩
  · rintro ⟨neg, ds, hliteral, rfl⟩
    obtain ⟨rfl, hne, hds⟩ := literal_iff.1 hliteral
    rw [if_neg hne, hds, positional_eq]
    rfl

end Base

namespace Numeral

/-! ## §4. Reading. -/

/-- Every refusal of a text is about its digits; the bare one is for texts
without any. -/
theorem refusal_known (b : Base) (text : Bytes) :
    (b.refusal text).isKnown .invalidDigits = true ∧
      (b.refusal text = .known .invalidDigits ↔ text = [] ∨ text = [45]) := by
  unfold Base.refusal
  split
  next h => exact ⟨rfl, iff_of_true rfl h⟩
  next h => exact ⟨rfl, iff_of_false (by simp) h⟩

/-- Every literal is read. -/
theorem ofText_literal {b : Base} {text : Bytes} {neg : Bool} {ds : List Nat}
    (h : b.Literal text neg ds) :
    ∃ x, ofText b text = .ok x ∧ x.Canonical ∧ x.toInt = signed neg (b.positional ds) := by
  have hof := ofText_eq b text
  rw [Base.integer?_iff.2 ⟨neg, ds, h, rfl⟩] at hof
  exact hof

/-- Nothing else is. -/
theorem ofText_refused {b : Base} {text : Bytes} (h : ¬∃ neg ds, b.Literal text neg ds) :
    ofText b text = .error (b.refusal text) := by
  have hof := ofText_eq b text
  cases hi : b.integer? text with
  | none =>
      rw [hi] at hof
      exact hof
  | some i =>
      obtain ⟨neg, ds, hliteral, _⟩ := Base.integer?_iff.1 hi
      exact absurd ⟨neg, ds, hliteral⟩ h

theorem ofTextIn_unsupported {n : Int} (h : ¬(2 ≤ n ∧ n ≤ 36)) (text : Bytes) :
    ofTextIn n text = .error (.plain s!"glyint: unsupported base {n}") := by
  unfold ofTextIn Base.ofInt?
  rw [dif_neg h]

/-- **A number is read from the literals and from nothing else.**  A base
outside 2 to 36 is refused, whatever the text is, and no other base is.  In a
base every literal is read, as the canonical numeral of the integer for which
its digits count, with its sign; and whatever is read is a literal.  All other
texts are refused for their digits; the empty text and a lone minus sign, and
they alone, without being quoted. -/
theorem reading_exact (n : Int) (text : Bytes) :
    (ofTextIn n text = .error (.plain s!"glyint: unsupported base {n}") ↔
      ¬(2 ≤ n ∧ n ≤ 36)) ∧
    ∀ b : Base, (b.size : Int) = n →
      (∀ neg ds, b.Literal text neg ds →
        ∃ x, ofTextIn n text = .ok x ∧ x.Canonical ∧ x.toInt = signed neg (b.positional ds)) ∧
      (∀ x, ofTextIn n text = .ok x → ∃ neg ds, b.Literal text neg ds) ∧
      ((¬∃ neg ds, b.Literal text neg ds) →
        ∃ f, ofTextIn n text = .error f ∧ f.isKnown .invalidDigits = true ∧
          (f = .known .invalidDigits ↔ text = [] ∨ text = [45])) := by
  constructor
  · refine ⟨fun h hbase => ?_, fun h => ofTextIn_unsupported h text⟩
    obtain ⟨b, rfl⟩ : ∃ b : Base, (b.size : Int) = n :=
      ⟨⟨n.toNat, by omega, by omega⟩, by dsimp only; omega⟩
    rw [ofTextIn_size] at h
    by_cases hliteral : ∃ neg ds, b.Literal text neg ds
    · obtain ⟨neg, ds, hliteral⟩ := hliteral
      obtain ⟨x, hx, _⟩ := ofText_literal hliteral
      rw [hx] at h
      exact absurd h (by simp)
    · -- a refusal for the digits is not one for the base
      rw [ofText_refused hliteral] at h
      have hknown := (refusal_known b text).1
      rw [Except.error.inj h] at hknown
      exact absurd hknown (by simp [Failure.isKnown, Failure.chain, Failure.known?])
  · rintro b rfl
    rw [ofTextIn_size]
    refine ⟨fun neg ds => ofText_literal, ?_, ?_⟩
    · intro x hx
      by_contra hliteral
      rw [ofText_refused hliteral] at hx
      exact absurd hx (by simp)
    · intro hliteral
      exact ⟨b.refusal text, ofText_refused hliteral, refusal_known b text⟩

/-- In base 16 a text of -255 with a leading zero and letters of both cases;
a second minus sign; and nothing but one. -/
theorem reading_exact_hexadecimal :
    (∃ b : Base, b.size = 16 ∧ b.Literal (Bytes.ofText "-0fF") true [0, 15, 15] ∧
        b.positional [0, 15, 15] = 255) ∧
      (∃ x, ofTextIn 16 (Bytes.ofText "-0fF") = .ok x ∧ x.Canonical ∧ x.toInt = -255) ∧
      (∃ f, ofTextIn 16 (Bytes.ofText "--1") = .error f ∧ f.isKnown .invalidDigits = true ∧
        f ≠ .known .invalidDigits) ∧
      ofTextIn 16 (Bytes.ofText "-") = .error (.known .invalidDigits) := by
  let b : Base := { size := 16 }
  have hliteral : b.Literal (Bytes.ofText "-0fF") true [0, 15, 15] :=
    Base.literal_iff.2 (by decide +kernel)
  have hpos : b.positional [0, 15, 15] = 255 := by decide
  have hnone : ∀ {text : Bytes}, b.integer? text = none → ¬∃ neg ds, b.Literal text neg ds := by
    rintro text hi ⟨neg, ds, hliteral⟩
    have hsome := Base.integer?_iff.2 ⟨neg, ds, hliteral, rfl⟩
    rw [hi] at hsome
    exact absurd hsome (by simp)
  refine ⟨⟨b, rfl, hliteral, hpos⟩, ?_, ?_, ?_⟩
  · obtain ⟨x, hx, hcan, hint⟩ := ((reading_exact 16 _).2 b rfl).1 _ _ hliteral
    rw [hpos] at hint
    exact ⟨x, hx, hcan, hint⟩
  · obtain ⟨f, hf, hknown, hbare⟩ := ((reading_exact 16 (Bytes.ofText "--1")).2 b rfl).2.2
      (hnone (by decide +kernel))
    exact ⟨f, hf, hknown, fun h => absurd (hbare.1 h) (by decide +kernel)⟩
  · obtain ⟨f, hf, _, hbare⟩ := ((reading_exact 16 (Bytes.ofText "-")).2 b rfl).2.2
      (hnone (by decide +kernel))
    rw [hf, hbare.2 (by decide +kernel)]

end Numeral

end Tetraglyph
