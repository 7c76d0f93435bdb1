/-
  Tetraglyph.Proofs.Tokens
  ────────────────────────
  **THE TOKENS THAT A STREAM GIVES.**

  A token takes at least one byte off the stream, so a stream gives a number
  of tokens and then refuses one.  To DRAIN a stream is to ask until it
  refuses: this gives the list of its tokens, and why there is no other.

  The simplest stream has one word on each line.  A word of plain bytes is
  found as a whole, however long it is, if the newline behind it is within
  the room of a token.  So such a stream is drained as its words.

  Main results

      length_next    — a token takes at least one byte off the stream
      next_word      — the word in front of a newline is a token
      drain_lines    — lines of one word each are drained as the words
-/
import Tetraglyph.Tokens

namespace Tetraglyph

/-! ## §1. Draining a stream. -/

namespace Text

theorem length_skipBlank_le (bs : Bytes) : (skipBlank bs).length ≤ bs.length := by
  fun_induction skipBlank bs with
  | case1 bs h => exact Nat.le_refl _
  | case2 bs p rest h hblank ih => exact Nat.le_trans ih (Nat.le_of_lt (uncons?_length_lt h))
  | case3 bs p rest h hblank => exact Nat.le_refl _

theorem wordLength_go_nil (room n : Nat) : wordLength.go room [] n = n := by
  cases room <;> rw [wordLength.go]
  simp

theorem wordLength_nil (room : Nat) : wordLength room [] = 0 := wordLength_go_nil room 0

end Text

namespace Tokens

/-- **A token takes at least one byte off the stream.** -/
theorem length_next {t t' : Tokens} {w : Bytes} (h : t.next = (.ok w, t')) :
    t'.rest.length < t.rest.length := by
  have hle := Text.length_skipBlank_le t.rest
  unfold next at h
  dsimp only at h
  generalize Text.skipBlank t.rest = body at h hle
  generalize (if t.closed then body.length else maxTokenSize) = room at h
  split at h
  next => exact absurd h (by simp)
  next hn =>
      split at h
      next => exact absurd h (by simp)
      next =>
          obtain ⟨-, rfl⟩ := Prod.mk.inj h
          -- no word is found in front of nothing
          have hbody : body.length ≠ 0 := by
            intro hnil
            rw [List.eq_nil_of_length_eq_zero hnil, Text.wordLength_nil] at hn
            exact hn rfl
          show (body.drop _).length < _
          rw [List.length_drop]
          omega

/-- The tokens that a stream gives before it refuses one, and why it does. -/
def drain (t : Tokens) : List Bytes × Failure :=
  match _h : t.next with
  | (.error f, _) => ([], f)
  | (.ok w, t') => (w :: t'.drain.1, t'.drain.2)
termination_by t.rest.length
decreasing_by all_goals exact length_next _h

theorem drain_error {t t' : Tokens} {f : Failure} (h : t.next = (.error f, t')) :
    t.drain = ([], f) := by
  rw [drain]
  split
  next g t'' hnext =>
      rw [h] at hnext
      cases hnext
      rfl
  next w t'' hnext =>
      rw [h] at hnext
      cases hnext

theorem drain_ok {t t' : Tokens} {w : Bytes} (h : t.next = (.ok w, t')) :
    t.drain = (w :: t'.drain.1, t'.drain.2) := by
  rw [drain]
  split
  next g t'' hnext =>
      rw [h] at hnext
      cases hnext
  next v t'' hnext =>
      rw [h] at hnext
      cases hnext
      rfl

/-- The first token of those that a stream gives comes next. -/
theorem next_of_drain {t : Tokens} {w : Bytes} {ws : List Bytes} {f : Failure}
    (h : t.drain = (w :: ws, f)) : ∃ t', t.next = (.ok w, t') ∧ t'.drain = (ws, f) := by
  rcases hnext : t.next with ⟨g | v, t'⟩
  · rw [drain_error hnext] at h
    cases h
  · rw [drain_ok hnext] at h
    obtain ⟨hcons, hf⟩ := Prod.mk.inj h
    obtain ⟨rfl, hws⟩ := List.cons.inj hcons
    exact ⟨t', rfl, Prod.ext hws hf⟩

end Tokens

/-! ## §2. Words of plain bytes. -/

namespace Text

/-- A byte that is one character of a word: ASCII, and no white space. -/
def IsPlain (b : UInt8) : Prop := b < 0x80 ∧ isBlank (Char.ofNat b.toNat) = false

/-- A word of plain bytes. -/
def IsWord (w : Bytes) : Prop := w ≠ [] ∧ ∀ b ∈ w, IsPlain b

theorem skipBlank_nil : skipBlank [] = [] := by
  rw [skipBlank]
  rfl

/-- White space in front is skipped piece by piece. -/
theorem skipBlank_uncons? {bs rest : Bytes} {p : Piece} (h : uncons? bs = some (p, rest)) :
    skipBlank bs = if p.isBlank then skipBlank rest else bs := by
  rw [skipBlank]
  split
  next hp =>
      rw [h] at hp
      cases hp
  next q after hq =>
      rw [h] at hq
      cases hq
      rfl

theorem skipBlank_plain {b : UInt8} (h : IsPlain b) (rest : Bytes) :
    skipBlank (b :: rest) = b :: rest := by
  have huncons : uncons? (b :: rest) = some (.scalar (Char.ofNat b.toNat), rest) := if_pos h.1
  rw [skipBlank_uncons? huncons, if_neg (by rw [Piece.isBlank, h.2]; decide)]

theorem skipBlank_newline (rest : Bytes) : skipBlank (10 :: rest) = skipBlank rest := by
  have huncons : uncons? (10 :: rest) = some (.scalar (Char.ofNat 10), rest) := rfl
  rw [skipBlank_uncons? huncons, if_pos (by decide)]

/-- The count passes over plain bytes and ends at the newline. -/
theorem wordLength_go_word {w : Bytes} (h : ∀ b ∈ w, IsPlain b) (rest : Bytes) :
    ∀ {room : Nat}, w.length < room → ∀ n,
      wordLength.go room (w ++ 10 :: rest) n = n + w.length := by
  induction w with
  | nil =>
      intro room hroom n
      obtain ⟨room, rfl⟩ : ∃ k, room = k + 1 := ⟨room - 1, by omega⟩
      rw [List.nil_append, wordLength.go, if_pos (by decide), if_pos (by decide)]
      rfl
  | cons b w ih =>
      intro room hroom n
      obtain ⟨room, rfl⟩ : ∃ k, room = k + 1 := ⟨room - 1, by omega⟩
      obtain ⟨hb, hw⟩ := List.forall_mem_cons.1 h
      have hblank : isBlankByte b = false := by
        unfold isBlankByte
        rw [hb.2, Bool.and_false]
      rw [List.length_cons] at hroom ⊢
      rw [List.cons_append, wordLength.go, if_pos hb.1, if_neg (by rw [hblank]; decide),
        ih hw (by omega)]
      omega

theorem wordLength_word {w : Bytes} (h : IsWord w) {room : Nat} (hroom : w.length < room)
    (rest : Bytes) : wordLength room (w ++ 10 :: rest) = w.length := by
  unfold wordLength
  rw [wordLength_go_word h.2 rest hroom, Nat.zero_add]

end Text

/-! ## §3. Lines of one word each. -/

namespace Tokens

/-- A newline in front makes no difference. -/
theorem next_newline (bs : Bytes) (ending : Failure) (closed : Bool) :
    next ⟨10 :: bs, ending, closed⟩ = next ⟨bs, ending, closed⟩ := by
  unfold next
  dsimp only
  rw [Text.skipBlank_newline]

theorem drain_newline (bs : Bytes) (ending : Failure) (closed : Bool) :
    drain ⟨10 :: bs, ending, closed⟩ = drain ⟨bs, ending, closed⟩ := by
  have hnext := next_newline bs ending closed
  rcases h : next ⟨bs, ending, closed⟩ with ⟨f | w, t'⟩
  · rw [drain_error h, drain_error (hnext.trans h)]
  · rw [drain_ok h, drain_ok (hnext.trans h)]

/-- **The word in front of a newline is a token**, if the newline is within
its room. -/
theorem next_word {w : Bytes} (hw : Text.IsWord w) (hlen : w.length < maxTokenSize) (bs : Bytes)
    (ending : Failure) :
    next ⟨w ++ 10 :: bs, ending, false⟩ = (.ok w, ⟨10 :: bs, ending, false⟩) := by
  have hskip : Text.skipBlank (w ++ 10 :: bs) = w ++ 10 :: bs := by
    obtain ⟨b, rest, rfl⟩ := List.exists_cons_of_ne_nil hw.1
    exact Text.skipBlank_plain (hw.2 b List.mem_cons_self) _
  have hpos : w.length ≠ 0 := fun h => hw.1 (List.eq_nil_of_length_eq_zero h)
  have hroom : (if false then (w ++ 10 :: bs).length else maxTokenSize) = maxTokenSize := rfl
  unfold next
  dsimp only
  rw [hskip, hroom, Text.wordLength_word hw hlen, if_neg hpos,
    if_neg (by simpa using Nat.ne_of_lt hlen), List.take_left, List.drop_left]

/-- Words on lines of their own. -/
def lines (ws : List Bytes) : Bytes := ws.flatMap (· ++ [10])

/-- **Lines of one word each are drained as the words.** -/
theorem drain_lines {ws : List Bytes} (hws : ∀ w ∈ ws, Text.IsWord w)
    (hlen : ∀ w ∈ ws, w.length < maxTokenSize) (ending : Failure) :
    drain ⟨lines ws, ending, false⟩ = (ws, ending) := by
  induction ws with
  | nil =>
      have hnext : next ⟨lines [], ending, false⟩ = (.error ending, ⟨[], ending, false⟩) := by
        unfold next
        rw [show lines [] = [] from rfl, Text.skipBlank_nil]
        dsimp only
        rw [Text.wordLength_nil]
        rfl
      exact drain_error hnext
  | cons w ws ih =>
      obtain ⟨hw, hws⟩ := List.forall_mem_cons.1 hws
      obtain ⟨hlt, hlen⟩ := List.forall_mem_cons.1 hlen
      have hcons : lines (w :: ws) = w ++ 10 :: lines ws := by
        unfold lines
        rw [List.flatMap_cons, List.append_assoc]
        rfl
      rw [hcons, drain_ok (next_word hw hlt (lines ws) ending), drain_newline, ih hws hlen]

end Tokens

end Tetraglyph
