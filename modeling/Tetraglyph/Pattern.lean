/-
  Tetraglyph.Pattern
  ──────────────────
  **WHAT FOUR SYMBOLS SPELL.**

  An instruction is spelled by four symbols, and only which of them are
  equal counts.  The PATTERN of four things numbers them in the order of
  their first appearance, so abba and xyyx have the pattern 0110.  Read as a
  number in base 3 the pattern is an index into the table of kinds; indexes
  outside the table mean no operation.

      patternOf    — the pattern of four things under an equality
      index, kind  — what a pattern means
      spelling?    — the first pattern of a kind, in the symbols a to d
-/
import Tetraglyph.Kind
import Tetraglyph.Misuse

namespace Tetraglyph

/-! ## §1. Four of a kind. -/

/-- Four things in order. -/
structure Quad (α : Type) where
  /-- The first. -/
  a : α
  /-- The second. -/
  b : α
  /-- The third. -/
  c : α
  /-- The fourth. -/
  d : α
  deriving Repr, DecidableEq

namespace Quad

/-- The four as a list. -/
def toList {α : Type} (q : Quad α) : List α := [q.a, q.b, q.c, q.d]

/-- Applies a function to each. -/
def map {α β : Type} (f : α → β) (q : Quad α) : Quad β := ⟨f q.a, f q.b, f q.c, f q.d⟩

/-- The first four of a list, filled up with a default. -/
def ofList {α : Type} [Inhabited α] (xs : List α) : Quad α :=
  ⟨xs.getD 0 default, xs.getD 1 default, xs.getD 2 default, xs.getD 3 default⟩

end Quad

/-! ## §2. Patterns. -/

/-- For each of four places, which symbol stands there. -/
abbrev Pattern := Quad Int

/-- The pattern of four things: each gets the number of the first thing
equal to it, or the next free number. -/
def patternOf {α : Type} (eq : α → α → Bool) (q : Quad α) : Pattern :=
  let pa : Int := 0
  let pb : Int := if eq q.b q.a then pa else 1
  let seen := pb + 1
  let pc := if eq q.c q.a then pa else if eq q.c q.b then pb else seen
  let seen := max seen (pc + 1)
  let pd := if eq q.d q.a then pa else if eq q.d q.b then pb else if eq q.d q.c then pc else seen
  ⟨pa, pb, pc, pd⟩

namespace Pattern

/-- The pattern as a number in base 3, kept in 64 bits. -/
def index (p : Pattern) : Int := (((p.a * 3 + p.b) * 3 + p.c) * 3 + p.d).bmod 0x10000000000000000

/-- The kind at an index of the table. -/
def kindAt (i : Int) : Kind :=
  match i with
  | 1 => .input
  | 3 => .rot
  | 4 => .swap
  | 5 => .push
  | 9 => .rrot
  | 10 => .dup
  | 11 => .add
  | 12 => .lbrace
  | 13 => .output
  | 14 => .multiply
  | 15 => .execute
  | 16 => .negate
  | 17 => .pop
  | 18 => .rbrace
  | _ => .nop

/-- The kind which a pattern means. -/
def kind (p : Pattern) : Kind := kindAt p.index

/-- The patterns in which every place holds an earlier symbol or the next
one, in increasing order. -/
def canonical : List Pattern :=
  let upTo (n : Nat) : List Nat := List.range (n + 1)
  (upTo 1).flatMap fun b =>
    (upTo (max 1 (b + 1))).flatMap fun c =>
      (upTo (max (max 1 (b + 1)) (c + 1))).map fun (d : Nat) => ⟨0, b, c, d⟩

end Pattern

/-! ## §3. Symbols and codes. -/

/-- A symbol of a source: the number of a code point, or of a byte. -/
abbrev Symbol := Int

/-- The four symbols of an instruction. -/
abbrev Code := Quad Symbol

/-- The code point of a symbol, or the replacement character. -/
def Symbol.toChar (s : Symbol) : Char :=
  if 0 ≤ s ∧ s.toNat.isValidChar then Char.ofNat s.toNat else '\uFFFD'

namespace Code

/-- The symbols as text. -/
def text (c : Code) : String := String.ofList (c.toList.map Symbol.toChar)

/-- The pattern of a code. -/
def pattern (c : Code) : Pattern := patternOf (· == ·) c

/-- The kind which a code spells. -/
def kind (c : Code) : Kind := c.pattern.kind

end Code

/-- The first pattern of a kind, written with the symbols a, b, c and d. -/
def Kind.spelling? (k : Kind) : Option Code :=
  (Pattern.canonical.find? fun p => p.kind == k).map (Quad.map (97 + ·))

/-- The spelling of a kind which must have one. -/
def Kind.spelling (k : Kind) : Except Misuse Code :=
  match k.spelling? with
  | some c => .ok c
  | none => .error (.noSpelling k.name)

end Tetraglyph
