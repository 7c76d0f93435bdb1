/-
  Tetraglyph.Tokens
  ─────────────────
  **THE INPUT STREAM, TOKEN BY TOKEN.**

  A stream of bytes is split at white space into tokens.  When no token is
  left every further request is answered with the ending of the stream: that
  there is no more input, or the error with which reading failed.  A token
  that is cut short by the end of the stream still counts.

  A token has to be complete, with the white space behind it, within 2^24
  bytes.  One that is not closes the stream: the request fails, the bytes
  looked at are the last token of the stream, and the failure its ending.
-/
import Tetraglyph.Failure
import Tetraglyph.Text.Utf8
import Tetraglyph.Text.Blank

namespace Tetraglyph

/-! ## §1. Words of a byte string. -/

namespace Text

/-- Whether a piece separates words; a stray byte does not. -/
def Piece.isBlank : Piece → Bool
  | .scalar c => Text.isBlank c
  | .stray _ => false

/-- The bytes after all white space in front. -/
def skipBlank (bs : Bytes) : Bytes :=
  match _h : uncons? bs with
  | none => bs
  | some (p, rest) => if p.isBlank then skipBlank rest else bs
termination_by bs.length
decreasing_by exact uncons?_length_lt _h

/-- How many bytes of the first `room` bytes of a byte string come before
white space, all of them if there is none.  White space counts only if it
lies within the `room` bytes as a whole. -/
def wordLength (room : Nat) (bs : Bytes) : Nat :=
  go room bs 0
where
  /-- Goes on behind `n` bytes, with room for `room` more. -/
  go (room : Nat) (bs : Bytes) (n : Nat) : Nat :=
    match room, bs with
    | 0, _ => n
    | _, [] => n
    | room + 1, b :: rest =>
      if b < 0x80 then
        if isBlankByte b then n else go room rest (n + 1)
      else
        let window := (b :: rest).take (min 4 (room + 1))
        match uncons? window with
        | some (p, after) =>
          if p.isBlank then n
          else
            let used := window.length - after.length - 1
            go (room - used) (rest.drop used) (n + 1 + used)
        | none => n
  termination_by room

end Text

/-! ## §2. Streams of tokens. -/

/-- A stream of bytes that is read token by token. -/
structure Tokens where
  /-- The bytes not read yet. -/
  rest : Bytes
  /-- What a request gets when there is no token left. -/
  ending : Failure
  /-- Whether the length of tokens is no longer limited, because the bytes
  left were all looked at before. -/
  closed : Bool

namespace Tokens

/-- The number of bytes within which a token has to end. -/
def maxTokenSize : Nat := 0x1000000

/-- What a token that is too long is answered with. -/
def tooLong : Failure := .plain "bufio.Scanner: token too long"

/-- The tokens of a byte string, which ends with an error if there is one. -/
def ofBytes (bs : Bytes) (failure : Option Failure) : Tokens :=
  ⟨bs, failure.getD (.known .endOfInput), false⟩

/-- The next token. -/
def next (t : Tokens) : Except Failure Bytes × Tokens :=
  let body := Text.skipBlank t.rest
  let room := if t.closed then body.length else maxTokenSize
  let n := Text.wordLength room body
  if n = 0 then (.error t.ending, { t with rest := [] })
  else if !t.closed && n = maxTokenSize then (.error tooLong, ⟨body.take n, tooLong, true⟩)
  else (.ok (body.take n), { t with rest := body.drop n })

end Tokens

end Tetraglyph
