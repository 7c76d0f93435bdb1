/-
  Tetraglyph.Text.Quoted
  ──────────────────────
  **QUOTED TEXT.**

  Messages show foreign text between double quotes, so that it can be told
  from the message around it and nothing in it is invisible:

      "  and  \                      — after a backslash
      \a \b \f \n \r \t \v           — the seven named control characters
      other code points below U+0080 — \x and two hexadecimal digits
      non-printable code points      — \u and four, or \U and eight digits
      stray bytes                    — \x and two hexadecimal digits
      everything else                — as it is
-/
import Tetraglyph.Text.Utf8
import Tetraglyph.Text.Printable

namespace Tetraglyph.Text

/-- A hexadecimal digit, in lower case. -/
def hexDigit (n : Nat) : Char :=
  if n < 10 then Char.ofNat (48 + n) else Char.ofNat (87 + n)

/-- The last `width` hexadecimal digits of `n`. -/
def hexDigits : Nat → Nat → List Char
  | 0, _ => []
  | width + 1, n => hexDigits width (n / 16) ++ [hexDigit (n % 16)]

/-- The letter which names a control character after a backslash. -/
def controlLetter? (c : Char) : Option Char :=
  match c.toNat with
  | 0x07 => some 'a'
  | 0x08 => some 'b'
  | 0x09 => some 't'
  | 0x0A => some 'n'
  | 0x0B => some 'v'
  | 0x0C => some 'f'
  | 0x0D => some 'r'
  | _ => none

/-- A code point inside quotes. -/
def quoteChar (c : Char) : List Char :=
  if c == '"' || c == '\\' then ['\\', c]
  else if isPrintable c then [c]
  else
    match controlLetter? c with
    | some l => ['\\', l]
    | none =>
      if c.toNat < 0x80 then '\\' :: 'x' :: hexDigits 2 c.toNat
      else if c.toNat < 0x10000 then '\\' :: 'u' :: hexDigits 4 c.toNat
      else '\\' :: 'U' :: hexDigits 8 c.toNat

/-- A piece inside quotes. -/
def quotePiece : Piece → List Char
  | .scalar c => quoteChar c
  | .stray b => '\\' :: 'x' :: hexDigits 2 b.toNat

/-- A sequence of pieces between quotes. -/
def quotePieces (ps : List Piece) : String :=
  String.ofList ('"' :: ps.flatMap quotePiece ++ ['"'])

/-- A byte string between quotes. -/
def quoteBytes (bs : Bytes) : String := quotePieces (pieces bs)

/-- A text between quotes. -/
def quote (s : String) : String := quotePieces (s.toList.map .scalar)

end Tetraglyph.Text
