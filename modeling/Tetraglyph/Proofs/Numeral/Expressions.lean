/-
  Tetraglyph.Proofs.Numeral.Expressions
  ─────────────────────────────────────
  **EVERY NUMBER THAT CAN BE BUILT IS CANONICAL.**

  Whoever uses numerals builds them from the constants, from texts and from
  64-bit integers, by arithmetic.  Such a way to build a number is an
  EXPRESSION.  Evaluating one gives a well-formed numeral of the integer that
  the expression means, and it gives one unless a text is no number or a
  divisor is 0.  So an integer has one numeral that can be built, and one
  text; only 0 can also be held as the numeral without digits.

      Given, Unary, Binary   — constants and readings, and the operations
      Expression             — how a number is built
      meaning?               — the integer which an expression means

  Main results

      Given.represents, Unary.exact,
      Binary.represents        — one step of building
      evaluate_represents      — every expression
      eq_iff_toInt_eq          — one numeral for each integer
      canonical_unique         — what can be built is canonical and unique
-/
import Mathlib
import Tetraglyph.Proofs.Numeral.Division
import Tetraglyph.Proofs.Numeral.Exact
import Tetraglyph.Proofs.Numeral.Literals
import Tetraglyph.Proofs.Numeral.RoundTrip

namespace Tetraglyph

namespace Numeral

/-! ## §1. Expressions. -/

/-- A number that no operation has to make. -/
inductive Given where
  /-- The numeral without digits. -/
  | empty
  /-- The number 0. -/
  | zero
  /-- The number 1. -/
  | one
  /-- A decimal literal. -/
  | literal (s : Bytes)
  /-- A 64-bit integer. -/
  | word (v : Int64)
  /-- A text in a base, which may be none. -/
  | text (base : Int) (s : Bytes)

/-- An operation on one number. -/
inductive Unary where
  | negate
  | abs
  | inc
  | dec

/-- An operation on two numbers. -/
inductive Binary where
  | add
  | sub
  | mul
  | quo
  | rem

/-- A way to build a number. -/
inductive Expression where
  /-- A number as it is given. -/
  | given (g : Given)
  /-- An operation on one number. -/
  | unary (op : Unary) (e : Expression)
  /-- An operation on two numbers. -/
  | binary (op : Binary) (e e' : Expression)

/-- The numeral of a given number. -/
def Given.read : Given → Except Failure Numeral
  | .empty => .ok Numeral.empty
  | .zero => .ok Numeral.zero
  | .one => .ok Numeral.one
  | .literal s => parse s
  | .word v => .ok (ofInt64 v)
  | .text base s => ofTextIn base s

/-- What an operation makes of a numeral. -/
def Unary.apply : Unary → Numeral → Numeral
  | .negate => Numeral.negate
  | .abs => Numeral.abs
  | .inc => Numeral.inc
  | .dec => Numeral.dec

/-- What an operation makes of two numerals. -/
def Binary.apply : Binary → Numeral → Numeral → Except Failure Numeral
  | .add, x, y => .ok (x.add y)
  | .sub, x, y => .ok (x.sub y)
  | .mul, x, y => .ok (x.mul y)
  | .quo, x, y => x.quo y
  | .rem, x, y => x.rem y

/-- Builds the number. -/
def Expression.evaluate : Expression → Except Failure Numeral
  | .given g => g.read
  | .unary op e => e.evaluate.map op.apply
  | .binary op e e' => do
    let x ← e.evaluate
    let y ← e'.evaluate
    op.apply x y

/-! ## §2. What they mean. -/

/-- The integer which a given number is, if it is one. -/
def Given.integer? : Given → Option Int
  | .empty => some 0
  | .zero => some 0
  | .one => some 1
  | .literal s => Base.ten.integer? s
  | .word v => some v.toInt
  | .text base s => (Base.ofInt? base).bind fun b => b.integer? s

/-- An operation on an integer. -/
def Unary.onInt : Unary → Int → Int
  | .negate, i => -i
  | .abs, i => |i|
  | .inc, i => i + 1
  | .dec, i => i - 1

/-- An operation on two integers; there is no quotient by 0. -/
def Binary.onInts? : Binary → Int → Int → Option Int
  | .add, i, j => some (i + j)
  | .sub, i, j => some (i - j)
  | .mul, i, j => some (i * j)
  | .quo, i, j => if j = 0 then none else some (i.tdiv j)
  | .rem, i, j => if j = 0 then none else some (i.tmod j)

/-- **The integer which an expression means**, if it means one. -/
def Expression.meaning? : Expression → Option Int
  | .given g => g.integer?
  | .unary op e => e.meaning?.map op.onInt
  | .binary op e e' => do
    let i ← e.meaning?
    let j ← e'.meaning?
    op.onInts? i j

/-! ## §3. One step of building. -/

/-- The result is a well-formed numeral of the integer, or a failure if there
is none. -/
def Represents (r : Except Failure Numeral) (i? : Option Int) : Prop :=
  match i? with
  | some i => ∃ x, r = .ok x ∧ x.WellFormed ∧ x.toInt = i
  | none => ∃ f, r = .error f

theorem represents_ok {x : Numeral} {i : Int} (h : x.toInt = i ∧ x.Canonical) :
    Represents (.ok x) (some i) := ⟨x, rfl, h.2.wellFormed, h.1⟩

theorem Represents.map {r : Except Failure Numeral} {i? : Option Int} (h : Represents r i?)
    {f : Numeral → Numeral} {g : Int → Int}
    (hf : ∀ x, x.WellFormed → (f x).toInt = g x.toInt ∧ (f x).Canonical) :
    Represents (r.map f) (i?.map g) := by
  cases i? with
  | none =>
      obtain ⟨e, rfl⟩ := h
      exact ⟨e, rfl⟩
  | some i =>
      obtain ⟨x, rfl, hx, rfl⟩ := h
      exact represents_ok (hf x hx)

theorem Represents.bind {r : Except Failure Numeral} {i? : Option Int} (h : Represents r i?)
    {f : Numeral → Except Failure Numeral} {g : Int → Option Int}
    (hf : ∀ x, x.WellFormed → Represents (f x) (g x.toInt)) :
    Represents (r >>= f) (i? >>= g) := by
  cases i? with
  | none =>
      obtain ⟨e, rfl⟩ := h
      exact ⟨e, rfl⟩
  | some i =>
      obtain ⟨x, rfl, hx, rfl⟩ := h
      exact hf x hx

/-- A text that is read as the integer it denotes, or refused. -/
theorem represents_read {r : Except Failure Numeral} {i? : Option Int} {f : Failure}
    (h : match i? with
      | some i => ∃ x, r = .ok x ∧ x.Canonical ∧ x.toInt = i
      | none => r = .error f) : Represents r i? := by
  cases i? with
  | none => exact ⟨f, h⟩
  | some i =>
      obtain ⟨x, hx, hcan, hint⟩ := h
      exact ⟨x, hx, hcan.wellFormed, hint⟩

/-- **A given number is read as the integer it is.** -/
theorem Given.represents (g : Given) : Represents g.read g.integer? := by
  cases g with
  | empty => exact ⟨Numeral.empty, rfl, .inl rfl, rfl⟩
  | zero => exact represents_ok ⟨rfl, canonical_zero⟩
  | one => exact represents_ok ⟨rfl, canonical_one⟩
  | literal s => exact represents_read (parse_eq s)
  | word v => exact represents_ok (toInt_ofInt64 v)
  | text base s =>
      show Represents (ofTextIn base s) ((Base.ofInt? base).bind fun b => b.integer? s)
      unfold ofTextIn
      cases Base.ofInt? base with
      | none => exact ⟨_, rfl⟩
      | some b => exact represents_read (ofText_eq b s)

/-- The magnitude without its sign is canonical, though nothing strips it. -/
theorem canonical_abs {x : Numeral} (h : x.WellFormed) : x.abs.Canonical :=
  ⟨h.decimal_mag, h.trimmed_mag.1, fun h0 => ⟨h.trimmed_mag.2 h0, rfl⟩⟩

theorem toInt_sub {x y : Numeral} (hx : x.WellFormed) (hy : y.WellFormed) :
    (x.sub y).toInt = x.toInt - y.toInt ∧ (x.sub y).Canonical := by
  obtain ⟨hneg, hcan⟩ := toInt_negate hy
  obtain ⟨hadd, hsum⟩ := toInt_add hx hcan.wellFormed
  refine ⟨?_, hsum⟩
  show (x.add y.negate).toInt = _
  rw [hadd, hneg]
  omega

/-- **An operation on one number is exact.** -/
theorem Unary.exact (op : Unary) (x : Numeral) (h : x.WellFormed) :
    (op.apply x).toInt = op.onInt x.toInt ∧ (op.apply x).Canonical := by
  cases op with
  | negate => exact toInt_negate h
  | abs =>
      refine ⟨?_, canonical_abs h⟩
      show x.abs.toInt = |x.toInt|
      rw [toInt_abs, Int.abs_eq_natAbs]
  | inc => exact toInt_add h canonical_one.wellFormed
  | dec => exact toInt_sub h canonical_one.wellFormed

/-- **An operation on two numbers is exact**, and fails for a divisor 0. -/
theorem Binary.represents (op : Binary) {x y : Numeral} (hx : x.WellFormed)
    (hy : y.WellFormed) : Represents (op.apply x y) (op.onInts? x.toInt y.toInt) := by
  cases op with
  | add => exact represents_ok (toInt_add hx hy)
  | sub => exact represents_ok (toInt_sub hx hy)
  | mul => exact represents_ok (toInt_mul hx hy)
  | quo =>
      show Represents ((x.quoRem y).map Prod.fst) (if y.toInt = 0 then none else _)
      by_cases hz : y.toInt = 0
      · rw [quoRem_zero hz, if_pos hz]
        exact ⟨_, rfl⟩
      · obtain ⟨q, r, hdivide, hq, _, hcan, _⟩ := quoRem_exact hx hy hz
        rw [hdivide, if_neg hz]
        exact represents_ok ⟨hq, hcan⟩
  | rem =>
      show Represents ((x.quoRem y).map Prod.snd) (if y.toInt = 0 then none else _)
      by_cases hz : y.toInt = 0
      · rw [quoRem_zero hz, if_pos hz]
        exact ⟨_, rfl⟩
      · obtain ⟨q, r, hdivide, _, hr, _, hcan⟩ := quoRem_exact hx hy hz
        rw [hdivide, if_neg hz]
        exact represents_ok ⟨hr, hcan⟩

/-! ## §4. Every expression. -/

/-- **Every expression is evaluated to what it means.** -/
theorem evaluate_represents (e : Expression) : Represents e.evaluate e.meaning? := by
  induction e with
  | given g => exact g.represents
  | unary op e ih => exact ih.map op.exact
  | binary op e e' ih ih' =>
      exact ih.bind fun x hx => ih'.bind fun y hy => op.represents hx hy

/-- What an expression is evaluated to is well-formed, and denotes what the
expression means. -/
theorem evaluate_wellFormed {e : Expression} {x : Numeral} (h : e.evaluate = .ok x) :
    x.WellFormed ∧ e.meaning? = some x.toInt := by
  have hrep := evaluate_represents e
  rw [h] at hrep
  cases hm : e.meaning? with
  | none =>
      rw [hm] at hrep
      obtain ⟨f, hf⟩ := hrep
      exact absurd hf (by simp)
  | some i =>
      rw [hm] at hrep
      obtain ⟨y, hy, hwell, hint⟩ := hrep
      obtain rfl : x = y := Except.ok.inj hy
      exact ⟨hwell, by rw [hint]⟩

/-- Texts tell integers apart. -/
theorem text_eq_iff {x y : Numeral} (hx : x.WellFormed) (hy : y.WellFormed) :
    x.text = y.text ↔ x.toInt = y.toInt := by
  rw [text_eq hx, text_eq hy]
  constructor
  · intro h
    have hread := Base.ten.integer?_numeral x.toInt
    rw [h, Base.ten.integer?_numeral, Option.some.injEq] at hread
    exact hread.symm
  · intro h
    rw [h]

/-- A well-formed numeral of 0 is the digit 0, or has no digits. -/
theorem WellFormed.of_toInt_zero {x : Numeral} (h : x.WellFormed) (hz : x.toInt = 0) :
    x = empty ∨ x = zero := by
  rcases h with hempty | hcan
  · exact .inl hempty
  · exact .inr (hcan.eq_of_toInt_eq canonical_zero hz)

/-- **There is one numeral for each integer**, apart from the two of 0. -/
theorem eq_iff_toInt_eq {x y : Numeral} (hx : x.WellFormed) (hy : y.WellFormed) :
    (x = y ∨ (x = empty ∧ y = zero) ∨ (x = zero ∧ y = empty)) ↔ x.toInt = y.toInt := by
  constructor
  · rintro (rfl | ⟨rfl, rfl⟩ | ⟨rfl, rfl⟩)
    · rfl
    · rfl
    · rfl
  · intro h
    by_cases hz : x.toInt = 0
    · rcases hx.of_toInt_zero hz with hxe | hxe <;>
        rcases hy.of_toInt_zero (h ▸ hz) with hye | hye <;> simp [hxe, hye]
    · -- the numeral without digits denotes 0, so both are canonical
      rcases hx with rfl | hx
      · exact absurd rfl hz
      · rcases hy with rfl | hy
        · exact absurd h hz
        · exact .inl (hx.eq_of_toInt_eq hy h)

/-- **Every number that can be built is canonical, and there is one for each
integer.**  An expression evaluates to a numeral exactly if it means an
integer, and then to a numeral of this integer.  The numeral has no digits at
all, or decimal digits of which the most significant is not 0 unless it is the
only one, and no sign on zero.  Two of them denote the same integer if and only
if they have the same decimal text, compare equal, and hold the same sign and
digits, except that 0 may be held without digits. -/
theorem canonical_unique (e : Expression) :
    (∀ i, e.meaning? = some i ↔ ∃ x, e.evaluate = .ok x ∧ x.toInt = i) ∧
    ∀ x, e.evaluate = .ok x → (x = empty ∨ x.Canonical) ∧
      ∀ (e' : Expression) (y : Numeral), e'.evaluate = .ok y →
        List.TFAE [x.toInt = y.toInt, x.text = y.text, x.equal y = true,
          x = y ∨ (x = empty ∧ y = zero) ∨ (x = zero ∧ y = empty)] := by
  constructor
  · intro i
    constructor
    · intro hm
      have hrep := evaluate_represents e
      rw [hm] at hrep
      obtain ⟨x, hx, _, hint⟩ := hrep
      exact ⟨x, hx, hint⟩
    · rintro ⟨x, hx, rfl⟩
      exact (evaluate_wellFormed hx).2
  · intro x hx
    obtain ⟨hxw, _⟩ := evaluate_wellFormed hx
    refine ⟨hxw, ?_⟩
    intro e' y hy
    obtain ⟨hyw, _⟩ := evaluate_wellFormed hy
    tfae_have 1 ↔ 2 := (text_eq_iff hxw hyw).symm
    tfae_have 1 ↔ 3 := by
      rw [equal_eq hxw hyw, decide_eq_true_iff]
    tfae_have 1 ↔ 4 := (eq_iff_toInt_eq hxw hyw).symm
    tfae_finish

/-- The number -3, once as the quotient of -7 and 2 and once as a difference
of numbers in base 16; and 0 as the difference of the two, which is not the
numeral without digits. -/
theorem canonical_unique_quotient :
    let e : Expression := .binary .quo (.given (.literal (Bytes.ofText "-0007"))) (.given (.word 2))
    let e' : Expression := .binary .sub (.given (.text 16 (Bytes.ofText "0d")))
      (.given (.text 16 (Bytes.ofText "10")))
    let x : Numeral := ⟨true, [3]⟩
    e.evaluate = .ok x ∧ e'.evaluate = .ok x ∧ x.text = "-3" ∧
      (Expression.binary .sub e e').evaluate = .ok zero ∧ zero.equal empty = true ∧
      zero ≠ empty := by
  intro e e' x
  have hx : e.evaluate = .ok x := by cbv
  -- the difference is known to be -3, and with that to be the same numeral
  have hy : e'.evaluate = .ok x := by
    obtain ⟨y, hy, hint⟩ := ((canonical_unique e').1 (-3)).1 (by cbv)
    have hsame := ((canonical_unique e).2 x hx).2 e' y hy
    rcases (hsame.out 0 3).1 (by rw [hint]; rfl) with hxy | ⟨hxe, _⟩ | ⟨hxz, _⟩
    · rw [hy, hxy]
    · exact absurd hxe (by decide)
    · exact absurd hxz (by decide)
  have hz : (Expression.binary .sub e e').evaluate = .ok zero := by cbv
  have hempty : (Expression.given .empty).evaluate = .ok empty := rfl
  have hzero := ((canonical_unique _).2 zero hz).2 _ empty hempty
  exact ⟨hx, hy, by cbv, hz, (hzero.out 0 2).1 rfl, by decide⟩

end Numeral

end Tetraglyph
