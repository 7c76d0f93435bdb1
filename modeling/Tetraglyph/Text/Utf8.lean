/-
  Tetraglyph.Text.Utf8
  ────────────────────
  **BYTE STRINGS, READ AS UTF-8.**

  Sources and input streams are byte strings which nobody promises to be
  valid UTF-8.  A byte string is therefore read as a sequence of PIECES: a
  code point where a well-formed UTF-8 sequence starts, and otherwise the
  one byte which starts none, kept as it is.  Reading never fails and never
  loses a byte.

  Main results

      uncons?_length_lt   — a piece takes at least one byte
-/

namespace Tetraglyph

/-- A byte string. -/
abbrev Bytes := List UInt8

/-- The UTF-8 bytes of a text. -/
def Bytes.ofText (s : String) : Bytes := s.toUTF8.toList

namespace Text

/-! ## §1. Pieces. -/

/-- What a byte string holds at one place when it is read as UTF-8. -/
inductive Piece where
  /-- A code point, written as a well-formed sequence. -/
  | scalar (c : Char)
  /-- A byte which starts no well-formed sequence. -/
  | stray (b : UInt8)
  deriving Repr, DecidableEq

/-- A continuation byte `10xxxxxx`. -/
def isTail (b : UInt8) : Bool := 0x80 ≤ b && b ≤ 0xBF

/-- The least and the greatest second byte after the lead byte `a`: the
bounds keep out overlong forms, surrogates and values above U+10FFFF. -/
def secondBounds (a : UInt8) : UInt8 × UInt8 :=
  if a == 0xE0 then (0xA0, 0xBF)
  else if a == 0xED then (0x80, 0x9F)
  else if a == 0xF0 then (0x90, 0xBF)
  else if a == 0xF4 then (0x80, 0x8F)
  else (0x80, 0xBF)

/-- Whether `b` may follow the lead byte `a`. -/
def isSecond (a b : UInt8) : Bool :=
  (secondBounds a).1 ≤ b && b ≤ (secondBounds a).2

/-- The payload of a continuation byte. -/
def payload (b : UInt8) : Nat := b.toNat % 0x40

/-- The code point of two or more bytes which starts with the lead byte `a`,
and the bytes after it. -/
def multibyte? (a : UInt8) : Bytes → Option (Char × Bytes)
  | [] => none
  | b :: rest =>
    if isSecond a b then
      if 0xC2 ≤ a && a ≤ 0xDF then
        some (Char.ofNat (a.toNat % 0x20 * 0x40 + payload b), rest)
      else if 0xE0 ≤ a && a ≤ 0xEF then
        match rest with
        | c :: rest =>
          if isTail c then
            some (Char.ofNat ((a.toNat % 0x10 * 0x40 + payload b) * 0x40 + payload c), rest)
          else none
        | [] => none
      else if 0xF0 ≤ a && a ≤ 0xF4 then
        match rest with
        | c :: d :: rest =>
          if isTail c && isTail d then
            some (Char.ofNat
              (((a.toNat % 0x08 * 0x40 + payload b) * 0x40 + payload c) * 0x40 + payload d), rest)
          else none
        | _ => none
      else none
    else none

/-- The first piece of a byte string and the bytes after it. -/
def uncons? : Bytes → Option (Piece × Bytes)
  | [] => none
  | a :: rest =>
    if a < 0x80 then some (.scalar (Char.ofNat a.toNat), rest)
    else
      match multibyte? a rest with
      | some (c, after) => some (.scalar c, after)
      | none => some (.stray a, rest)

/-- A longer sequence takes at least the byte after its lead byte. -/
theorem multibyte?_length_lt {a : UInt8} {bs rest : Bytes} {c : Char}
    (h : multibyte? a bs = some (c, rest)) : rest.length < bs.length := by
  unfold multibyte? at h
  split at h
  · cases h
  · split at h
    · split at h
      · cases h; simp only [List.length_cons]; omega
      · split at h
        · split at h
          · split at h
            · cases h; simp only [List.length_cons]; omega
            · cases h
          · cases h
        · split at h
          · split at h
            · split at h
              · cases h; simp only [List.length_cons]; omega
              · cases h
            · cases h
          · cases h
    · cases h

/-- A piece takes at least one byte. -/
theorem uncons?_length_lt {bs rest : Bytes} {p : Piece}
    (h : uncons? bs = some (p, rest)) : rest.length < bs.length := by
  unfold uncons? at h
  split at h
  · cases h
  · split at h
    · cases h; simp only [List.length_cons]; omega
    · split at h
      · next hm =>
        cases h
        have := multibyte?_length_lt hm
        simp; omega
      · cases h; simp only [List.length_cons]; omega

/-! ## §2. Reading a whole byte string. -/

/-- The pieces of a byte string, from left to right. -/
def pieces (bs : Bytes) : List Piece :=
  (go bs #[]).toList
where
  /-- Adds the pieces of `bs` to those already read. -/
  go (bs : Bytes) (done : Array Piece) : Array Piece :=
    match _h : uncons? bs with
    | none => done
    | some (p, rest) => go rest (done.push p)
  termination_by bs.length
  decreasing_by exact uncons?_length_lt _h

/-- Whether a piece is a code point. -/
def Piece.isScalar : Piece → Bool
  | .scalar _ => true
  | .stray _ => false

/-- The code point of a piece, if it is one. -/
def Piece.scalar? : Piece → Option Char
  | .scalar c => some c
  | .stray _ => none

/-- Whether a byte string is valid UTF-8. -/
def isValid (bs : Bytes) : Bool := (pieces bs).all Piece.isScalar

/-- The text of a byte string, if it is valid UTF-8. -/
def decode? (bs : Bytes) : Option (List Char) :=
  let ps := pieces bs
  if ps.all Piece.isScalar then some (ps.filterMap Piece.scalar?) else none

end Text

end Tetraglyph
