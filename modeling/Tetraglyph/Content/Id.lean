/-
  Tetraglyph.Content.Id
  ─────────────────────
  **CONTENT IDS.**

  A source is known by an id of 32 bytes, a hash of what is in it.  The text
  of an id is its bytes in base 64 without padding, over an alphabet in
  increasing order, so that texts sort as the bytes do.
-/
import Tetraglyph.Text.Utf8

namespace Tetraglyph.Content

/-- The id of some data: 32 bytes. -/
structure Id where
  /-- The bytes. -/
  bytes : Bytes
  deriving Repr, DecidableEq

/-- The 64 characters of an id's text, in increasing order. -/
def alphabet : List Char :=
  "-0123456789ABCDEFGHIJKLMNOPQRSTUVWXYZ_abcdefghijklmnopqrstuvwxyz".toList

/-- The numbers below 64 that three bytes, or the last one or two, make: six
bits each, the most significant first, filled up with zeros. -/
def sextets : Bytes → List Nat
  | a :: b :: c :: rest =>
    a.toNat / 4 :: (a.toNat % 4 * 16 + b.toNat / 16) :: (b.toNat % 16 * 4 + c.toNat / 64) ::
      c.toNat % 64 :: sextets rest
  | [a, b] => [a.toNat / 4, a.toNat % 4 * 16 + b.toNat / 16, b.toNat % 16 * 4]
  | [a] => [a.toNat / 4, a.toNat % 4 * 16]
  | [] => []

/-- The character for a number below 64. -/
def sextetChar (n : Nat) : Char := alphabet.getD n '-'

namespace Id

/-- The text of an id. -/
def text (id : Id) : String := String.ofList ((sextets id.bytes).map sextetChar)

/-- The first eight characters of the text. -/
def short (id : Id) : String := String.ofList (((sextets id.bytes).map sextetChar).take 8)

end Id

end Tetraglyph.Content
