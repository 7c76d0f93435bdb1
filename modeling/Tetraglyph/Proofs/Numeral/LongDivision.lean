/-
  Tetraglyph.Proofs.Numeral.LongDivision
  ──────────────────────────────────────
  **LONG DIVISION, DIGIT BY DIGIT.**

  Long division finds each digit of the quotient by subtracting the divisor
  as long as it goes, and nothing but the numbers themselves ends this loop.
  The loop is told here as it is, without a limit on its rounds and with a
  counter that is no byte:

      TakesOut   — so many subtractions lead from one remainder to another
                   that is below the divisor
      Divides    — one such loop for each digit of the dividend

  Because the remainder stays BELOW THE DIVISOR, it is below ten times the
  divisor when the next digit is brought down, and the loop makes nine
  rounds at most.

  Main results

      TakesOut.exact         — the loop divides with remainder
      longDivision?_divides  — every loop ends, within nine rounds
      division_truncates     — quotient and remainder, with their signs
-/
import Tetraglyph.Proofs.Numeral.Division
import Tetraglyph.Proofs.Numeral.RoundTrip

namespace Tetraglyph

namespace Digits

/-! ## §1. The loop for one digit. -/

/-- **Subtracting `b` as long as it goes**: `n` subtractions lead from `r` to
`s`.  Every one of them is made where `b` is not the larger, and leaves no
borrow over. -/
inductive TakesOut (b : Digits) : Digits → Nat → Digits → Prop where
  /-- What is left is below `b`. -/
  | done {r : Digits} (hlt : cmp r b = .lt) : TakesOut b r 0 r
  /-- One more subtraction, and what follows it. -/
  | again {r r' s : Digits} {n : Nat} (hge : cmp r b ≠ .lt) (hsub : sub? r b = some r')
      (hrest : TakesOut b r' n s) : TakesOut b r (n + 1) s

/-- What the limited loop finds, with a counter of one byte, is what the loop
finds. -/
theorem takeOut_takes {b : Digits} :
    ∀ {limit : Nat} {r s : Digits} {count d : UInt8}, takeOut b limit r count = some (d, s) →
      ∃ n, TakesOut b r n s ∧ d = count + UInt8.ofNat n := by
  intro limit
  induction limit with
  | zero =>
      intro r s count d h
      exact absurd h (by simp [takeOut])
  | succ limit ih =>
      intro r s count d h
      unfold takeOut at h
      by_cases hlt : cmp r b = .lt
      · rw [hlt] at h
        obtain ⟨rfl, rfl⟩ := Prod.mk.inj (Option.some.inj h)
        exact ⟨0, .done hlt, by simp⟩
      · rw [if_neg (by simpa using hlt)] at h
        cases hsub : sub? r b with
        | none =>
            rw [hsub] at h
            exact absurd h (by simp)
        | some r' =>
            rw [hsub] at h
            obtain ⟨n, hrest, hd⟩ := ih h
            refine ⟨n + 1, .again hlt hsub hrest, ?_⟩
            rw [hd, UInt8.ofNat_add, UInt8.add_assoc, UInt8.add_comm (UInt8.ofNat n)]
            rfl

/-- **The loop divides with remainder.** -/
theorem TakesOut.exact {b r s : Digits} {n : Nat} (h : TakesOut b r n s) (hb : Decimal b)
    (hr : Decimal r) : value r = n * value b + value s ∧ value s < value b ∧ Decimal s := by
  induction h with
  | done hlt =>
      rw [cmp_eq hr hb, Nat.compare_eq_lt] at hlt
      exact ⟨by omega, hlt, hr⟩
  | @again r r' s n hge hsub _ ih =>
      rw [cmp_eq hr hb, ne_eq, Nat.compare_eq_lt] at hge
      obtain ⟨ds, hds, hval, hdec⟩ := sub?_exact hr hb (by omega)
      obtain rfl : ds = r' := Option.some.inj (hds.symm.trans hsub)
      obtain ⟨heq, hlt, hsdec⟩ := ih hdec
      refine ⟨?_, hlt, hsdec⟩
      rw [Nat.succ_mul]
      omega

/-- What is below ten times `b` is used up within nine rounds. -/
theorem TakesOut.le_nine {b r s : Digits} {n : Nat} (h : TakesOut b r n s) (hb : Decimal b)
    (hr : Decimal r) (hlt : value r < 10 * value b) : n ≤ 9 := by
  obtain ⟨heq, _, _⟩ := h.exact hb hr
  have hmul : n * value b < 10 * value b := by omega
  have hten : n < 10 := Nat.lt_of_mul_lt_mul_right hmul
  omega

/-! ## §2. The loops for all digits. -/

/-- **Long division**: from the most significant digit on, what is left over
is multiplied by ten, the digit is added, and the divisor is taken out.  The
rounds of the loops are listed as the digits are. -/
inductive Divides (b : Digits) : Digits → List Nat → Digits → Prop where
  /-- No digit, and nothing left over. -/
  | nil : Divides b [] [] zero
  /-- One more digit below the others. -/
  | digit {as : Digits} {ns : List Nat} {r : Digits} {a : UInt8} {n : Nat} {s : Digits}
      (habove : Divides b as ns r) (htakes : TakesOut b (mulSmallAdd r 10 a.toNat) n s) :
      Divides b (a :: as) (n :: ns) s

/-- Bringing a digit down is multiplying by ten and adding it. -/
theorem bringDown_eq {d : UInt8} {r : Digits} (hd : d.toNat < 10) (hr : Decimal r) :
    bringDown d r = mulSmallAdd r 10 d.toNat := by
  apply Trimmed.eq_of_value_eq (trimmed_trim _) (trimmed_trim _) (decimal_bringDown hd hr)
    (decimal_mulSmallAdd r 10 d.toNat)
  show value (bringDown d r) = value (mulSmallAdd r 10 d.toNat)
  rw [value_bringDown, value_mulSmallAdd]
  omega

/-- **Every loop of a long division ends, within nine rounds**, and the digits
of the quotient are the numbers of rounds. -/
theorem longDivision?_divides {b : Digits} (hb : Decimal b) (hpos : 0 < value b) {as : Digits}
    (ha : Decimal as) :
    ∃ ns s, longDivision? b as = some (ns.map UInt8.ofNat, s) ∧ Divides b as ns s ∧
      ∀ n ∈ ns, n ≤ 9 := by
  induction as with
  | nil => exact ⟨[], zero, rfl, .nil, by simp⟩
  | cons a as ih =>
      obtain ⟨hda, has⟩ := decimal_cons.1 ha
      obtain ⟨ns, r, habove, hdivides, hnine⟩ := ih has
      -- what the digits above leave over is below the divisor
      obtain ⟨q, r', hsame, _, hlt, _, hr, _⟩ := longDivision?_exact hb hpos has
      obtain ⟨-, rfl⟩ := Prod.mk.inj (Option.some.inj (habove.symm.trans hsame))
      obtain ⟨q', s, hwhole, _⟩ := longDivision?_exact hb hpos ha
      have hwhole' := hwhole
      unfold longDivision? at hwhole'
      rw [habove] at hwhole'
      dsimp only at hwhole'
      split at hwhole'
      next => exact absurd hwhole' (by simp)
      next d s' htake =>
          obtain ⟨rfl, rfl⟩ := Prod.mk.inj (Option.some.inj hwhole')
          obtain ⟨n, htakes, rfl⟩ := takeOut_takes htake
          have hbelow : value (bringDown a r) < 10 * value b := by
            rw [value_bringDown]
            omega
          have hn := htakes.le_nine hb (decimal_bringDown hda hr) hbelow
          rw [bringDown_eq hda hr] at htakes
          refine ⟨n :: ns, s', ?_, .digit hdivides htakes, List.forall_mem_cons.2 ⟨hn, hnine⟩⟩
          rw [hwhole, List.map_cons, UInt8.zero_add]

end Digits

namespace Numeral

open Digits

/-! ## §3. Quotient and remainder. -/

/-- The sign of a number other than 0 is told by its flag. -/
theorem sign_of_ne_zero {x : Numeral} (h : x.toInt ≠ 0) : x.sign = if x.neg then -1 else 1 := by
  unfold sign
  rw [isZero_eq, decide_eq_false h]
  rfl

/-- A result is 0 without a sign, or has the sign that it was given. -/
theorem ofDigits_cases (neg : Bool) {ds : Digits} (h : Decimal ds) :
    ofDigits neg ds = zero ∨ ((ofDigits neg ds).toInt ≠ 0 ∧ (ofDigits neg ds).neg = neg) := by
  by_cases hz : (ofDigits neg ds).toInt = 0
  · exact .inl ((toInt_ofDigits neg h).2.eq_of_toInt_eq canonical_zero hz)
  · refine .inr ⟨hz, ?_⟩
    unfold ofDigits at hz ⊢
    dsimp only at hz ⊢
    by_cases hzero : ds.trim.isZero = true
    · rw [if_pos hzero] at hz
      exact absurd rfl hz
    · rw [if_neg hzero]

/-- Whether quotient and remainder fail is told by the divisor. -/
theorem map_quoRem_error {α : Type} {x y : Numeral} (hx : x.WellFormed) (hy : y.WellFormed)
    (f : Numeral × Numeral → α) :
    (x.quoRem y).map f = .error (.known .divisionByZero) ↔ y.toInt = 0 := by
  constructor
  · intro h
    by_contra hne
    obtain ⟨q, r, hdivide, _⟩ := quoRem_exact hx hy hne
    rw [hdivide] at h
    exact absurd h (by simp [Except.map])
  · intro hz
    rw [quoRem_zero hz]
    rfl

/-- **Division is truncated toward zero, and long division carries it out.**
Quotient and remainder fail exactly for a divisor 0.  For any other, the
divisor times the quotient and the remainder make up the dividend; the
remainder is smaller than the divisor; it is 0 or has the sign of the dividend,
and the quotient is 0 or has the product of both signs.  For every digit of the
dividend the divisor is taken out at most nine times, the loop that does so
ends, no subtraction in it leaves a borrow over, and the digits of the quotient
are the numbers of its rounds. -/
theorem division_truncates {x y : Numeral} (hx : x.WellFormed) (hy : y.WellFormed) :
    (x.quoRem y = .error (.known .divisionByZero) ↔ y.toInt = 0) ∧
    (x.quo y = .error (.known .divisionByZero) ↔ y.toInt = 0) ∧
    (x.rem y = .error (.known .divisionByZero) ↔ y.toInt = 0) ∧
    (y.toInt ≠ 0 →
      ∃ q r, x.quoRem y = .ok (q, r) ∧ x.quo y = .ok q ∧ x.rem y = .ok r ∧
        x.toInt = y.toInt * q.toInt + r.toInt ∧ |r.toInt| < |y.toInt| ∧
        (r = zero ∨ (r.neg = x.neg ∧ r.sign = x.sign)) ∧
        (q = zero ∨ (q.neg = (x.neg != y.neg) ∧ q.sign = x.sign * y.sign)) ∧
        ∃ ns s, Divides y.mag.trim x.mag ns s ∧ (∀ n ∈ ns, n ≤ 9) ∧
          q = ofDigits (x.neg != y.neg) (trim (ns.map UInt8.ofNat)) ∧
          r = ofDigits x.neg (trim s)) := by
  refine ⟨?_, map_quoRem_error hx hy Prod.fst, map_quoRem_error hx hy Prod.snd, fun hne => ?_⟩
  · have hid := map_quoRem_error hx hy id
    rw [Except.map_id] at hid
    exact hid
  · have hpos : 0 < value y.mag := by
      rw [← natAbs_toInt]
      omega
    obtain ⟨q, r, hdivide, hquo, hrem, _, _⟩ := quoRem_exact hx hy hne
    obtain ⟨ns, s, hlong, hdivides, hnine⟩ := longDivision?_divides (decimal_trim hy.decimal_mag)
      (by rw [value_trim]; exact hpos) hx.decimal_mag
    have hmags : x.mag.quoRem? y.mag = some (trim (ns.map UInt8.ofNat), trim s) := by
      unfold quoRem?
      rw [hlong]
      rfl
    obtain ⟨qm, rm, hmags', _, _, hqdec, hrdec⟩ :=
      quoRem?_exact hx.decimal_mag hy.decimal_mag hpos
    obtain ⟨rfl, rfl⟩ := Prod.mk.inj (Option.some.inj (hmags.symm.trans hmags'))
    have hresult : x.quoRem y
        = .ok (ofDigits (x.neg != y.neg) (trim (ns.map UInt8.ofNat)), ofDigits x.neg (trim s)) := by
      unfold quoRem
      rw [if_neg (by rw [isZero_iff]; exact hne), hmags]
    obtain ⟨rfl, rfl⟩ := Prod.mk.inj (Except.ok.inj (hdivide.symm.trans hresult))
    refine ⟨_, _, hdivide, ?_, ?_, ?_, ?_, ?_, ?_, ns, s, hdivides, hnine, rfl, rfl⟩
    · show (x.quoRem y).map Prod.fst = _
      rw [hdivide]
      rfl
    · show (x.quoRem y).map Prod.snd = _
      rw [hdivide]
      rfl
    · rw [hquo, hrem, Int.mul_tdiv_add_tmod]
    · rw [hrem, Int.abs_eq_natAbs, Int.abs_eq_natAbs, Int.natAbs_tmod]
      have hlt := Nat.mod_lt x.toInt.natAbs (Int.natAbs_pos.2 hne)
      omega
    · rcases ofDigits_cases x.neg hrdec with hzero | ⟨hr, hneg⟩
      · exact .inl hzero
      · -- only 0 leaves the remainder 0
        have hx0 : x.toInt ≠ 0 := by
          intro h0
          rw [hrem, h0, Int.zero_tmod] at hr
          exact hr rfl
        exact .inr ⟨hneg, by rw [sign_of_ne_zero hr, sign_of_ne_zero hx0, hneg]⟩
    · rcases ofDigits_cases (x.neg != y.neg) hqdec with hzero | ⟨hq, hneg⟩
      · exact .inl hzero
      · have hx0 : x.toInt ≠ 0 := by
          intro h0
          rw [hquo, h0, Int.zero_tdiv] at hq
          exact hq rfl
        refine .inr ⟨hneg, ?_⟩
        rw [sign_of_ne_zero hq, sign_of_ne_zero hx0, sign_of_ne_zero hne, hneg]
        cases x.neg <;> cases y.neg <;> rfl

/-- The number -1000 by 7: the quotient -142 and the remainder -6. -/
theorem division_truncates_thousand :
    let x : Numeral := ⟨true, [0, 0, 0, 1]⟩
    let y : Numeral := ⟨false, [7]⟩
    let q : Numeral := ⟨true, [2, 4, 1]⟩
    let r : Numeral := ⟨true, [6]⟩
    x.WellFormed ∧ y.WellFormed ∧ y.toInt ≠ 0 ∧
      ¬ (x.quoRem y = .error (.known .divisionByZero)) ∧ x.quoRem y = .ok (q, r) ∧
      x.toInt = y.toInt * q.toInt + r.toInt ∧ r.neg = x.neg ∧ q.neg = (x.neg != y.neg) ∧
      ∃ ns s, Divides [7] [0, 0, 0, 1] ns s ∧ (∀ n ∈ ns, n ≤ 9) := by
  intro x y q r
  have hx : x.WellFormed := .inr (canonical_of_getLast? (d := 1) (by simp) rfl (by decide))
  have hy : y.WellFormed := .inr (canonical_of_getLast? (d := 7) (by simp) rfl (by decide))
  have hne : y.toInt ≠ 0 := by decide
  have hboth : x.quoRem y = .ok (q, r) := by cbv
  obtain ⟨hzero, _, _, hdivide⟩ := division_truncates hx hy
  obtain ⟨q', r', hqr, _, _, heq, _, hr, hq, ns, s, hdivides, hnine, _⟩ := hdivide hne
  obtain ⟨rfl, rfl⟩ := Prod.mk.inj (Except.ok.inj (hqr.symm.trans hboth))
  have hr := hr.resolve_left (by decide)
  have hq := hq.resolve_left (by decide)
  exact ⟨hx, hy, hne, fun h => hne (hzero.1 h), hboth, heq, hr.1, hq.1, ns, s, hdivides, hnine⟩

end Numeral

end Tetraglyph
