/-
  Tetraglyph.Proofs.Text.Utf8
  ───────────────────────────
  **READING THE BYTES OF A TEXT.**

  The bytes of a text are those of its code points, one after the other, one
  to four for each.  Reading takes them off the front again: the bytes of a
  code point are one PIECE, whatever follows them, and the piece is the code
  point itself.  So the bytes of a text are valid UTF-8 and are read as the
  text they came from.

  Main results

      Bytes.ofText_eq    — the bytes of a text, code point by code point
      isSecond_iff       — which second bytes follow a lead byte
      uncons?_encode     — the bytes of a code point are one piece
      decode?_ofText     — the bytes of a text are read as the text
-/
import Tetraglyph.Text.Utf8

namespace Tetraglyph

/-! ## §1. The bytes of a text. -/

namespace Bytes

/-- There are 256 bytes: what holds of these holds of every byte. -/
theorem forall_byte {P : UInt8 → Prop} (h : ∀ n < 256, P (UInt8.ofNat n)) (b : UInt8) : P b := by
  have hb := h b.toNat b.toNat_lt_size
  rw [UInt8.ofNat_toNat] at hb
  exact hb

theorem toList_loop (bs : ByteArray) (i : Nat) (r : List UInt8) :
    ByteArray.toList.loop bs i r = r.reverse ++ bs.data.toList.drop i := by
  fun_induction ByteArray.toList.loop bs i r with
  | case1 i r hi ih =>
      have hget : bs.get! i = bs.data.toList[i] := getElem!_pos bs.data i hi
      rw [ih, List.drop_eq_getElem_cons hi, hget, List.reverse_cons, List.append_assoc]
      rfl
  | case2 i r hi =>
      rw [List.drop_eq_nil_of_le (Nat.le_of_not_lt hi), List.append_nil]

/-- **The bytes of a text** are those of its code points. -/
theorem ofText_eq (s : String) : ofText s = s.toList.flatMap String.utf8EncodeChar := by
  rw [← String.ofList_toList (s := s)]
  show ByteArray.toList.loop (String.ofList s.toList).toByteArray 0 [] = _
  rw [toList_loop, String.toByteArray_ofList, String.toList_ofList]
  exact List.toList_data_toByteArray

end Bytes

namespace Text

/-! ## §2. One code point. -/

/-- A byte between two bounds. -/
theorem between_iff (a lo hi : UInt8) :
    (decide (lo ≤ a) && decide (a ≤ hi)) = true ↔ lo.toNat ≤ a.toNat ∧ a.toNat ≤ hi.toNat := by
  rw [Bool.and_eq_true, decide_eq_true_eq, decide_eq_true_eq, UInt8.le_iff_toNat_le,
    UInt8.le_iff_toNat_le]

theorem not_between {a lo hi : UInt8} (h : hi.toNat < a.toNat) :
    ¬ (decide (lo ≤ a) && decide (a ≤ hi)) = true := by
  rw [between_iff]
  omega

theorem isTail_iff (b : UInt8) : isTail b = true ↔ 0x80 ≤ b.toNat ∧ b.toNat ≤ 0xBF :=
  between_iff b 0x80 0xBF

/-- **Which second bytes follow a lead byte**: continuation bytes, as far as
they make no overlong form, no surrogate and no value above U+10FFFF. -/
theorem isSecond_iff (a b : UInt8) :
    isSecond a b = true ↔ (0x80 ≤ b.toNat ∧ b.toNat ≤ 0xBF) ∧
      (a.toNat = 0xE0 → 0xA0 ≤ b.toNat) ∧ (a.toNat = 0xED → b.toNat ≤ 0x9F) ∧
      (a.toNat = 0xF0 → 0x90 ≤ b.toNat) ∧ (a.toNat = 0xF4 → b.toNat ≤ 0x8F) := by
  have hcase : ∀ n : UInt8, (a == n) = true ↔ a.toNat = n.toNat := by
    intro n
    rw [beq_iff_eq, UInt8.toNat_inj]
  unfold isSecond secondBounds
  rw [between_iff]
  simp only [hcase]
  split
  next hE0 => simp at hE0 ⊢; omega
  next hE0 =>
      split
      next hED => simp at hE0 hED ⊢; omega
      next hED =>
          split
          next hF0 => simp at hE0 hED hF0 ⊢; omega
          next hF0 =>
              split
              next hF4 => simp at hE0 hED hF0 hF4 ⊢; omega
              next hF4 => simp at hE0 hED hF0 hF4 ⊢; omega

/-- A sequence of two bytes. -/
theorem multibyte?_two {a b : UInt8} (ha : 0xC2 ≤ a.toNat ∧ a.toNat ≤ 0xDF)
    (hb : isSecond a b = true) (rest : Bytes) :
    multibyte? a (b :: rest) = some (Char.ofNat (a.toNat % 0x20 * 0x40 + payload b), rest) := by
  unfold multibyte?
  dsimp only
  rw [if_pos hb, if_pos ((between_iff a 0xC2 0xDF).2 ha)]

/-- A sequence of three bytes. -/
theorem multibyte?_three {a b c : UInt8} (ha : 0xE0 ≤ a.toNat ∧ a.toNat ≤ 0xEF)
    (hb : isSecond a b = true) (hc : isTail c = true) (rest : Bytes) :
    multibyte? a (b :: c :: rest)
      = some (Char.ofNat ((a.toNat % 0x10 * 0x40 + payload b) * 0x40 + payload c), rest) := by
  have htwo : ¬ (0xC2 ≤ a && a ≤ 0xDF) = true := not_between (show 0xDF < a.toNat by omega)
  unfold multibyte?
  dsimp only
  rw [if_pos hb, if_neg htwo, if_pos ((between_iff a 0xE0 0xEF).2 ha), if_pos hc]

/-- A sequence of four bytes. -/
theorem multibyte?_four {a b c d : UInt8} (ha : 0xF0 ≤ a.toNat ∧ a.toNat ≤ 0xF4)
    (hb : isSecond a b = true) (hc : isTail c = true) (hd : isTail d = true) (rest : Bytes) :
    multibyte? a (b :: c :: d :: rest) = some (Char.ofNat
      (((a.toNat % 0x08 * 0x40 + payload b) * 0x40 + payload c) * 0x40 + payload d), rest) := by
  have htwo : ¬ (0xC2 ≤ a && a ≤ 0xDF) = true := not_between (show 0xDF < a.toNat by omega)
  have hthree : ¬ (0xE0 ≤ a && a ≤ 0xEF) = true := not_between (show 0xEF < a.toNat by omega)
  unfold multibyte?
  dsimp only
  rw [if_pos hb, if_neg htwo, if_neg hthree, if_pos ((between_iff a 0xF0 0xF4).2 ha),
    if_pos (by rw [hc, hd]; rfl)]

/-- A sequence of several bytes is a piece. -/
theorem uncons?_of_multibyte? {a : UInt8} {bs rest : Bytes} {c : Char} (ha : 0x80 ≤ a.toNat)
    (h : multibyte? a bs = some (c, rest)) : uncons? (a :: bs) = some (.scalar c, rest) := by
  have hlead : ¬ a < 0x80 := by
    rw [UInt8.lt_iff_toNat_lt]
    show ¬ a.toNat < 0x80
    omega
  unfold uncons?
  dsimp only
  rw [if_neg hlead, h]

/-- **The bytes of a code point are one piece**, whatever follows them. -/
theorem uncons?_encode (c : Char) (rest : Bytes) :
    uncons? (String.utf8EncodeChar c ++ rest) = some (.scalar c, rest) := by
  have hvalid : c.val.toNat < 0xD800 ∨ 0xDFFF < c.val.toNat ∧ c.val.toNat < 0x110000 := c.valid
  have hback : ∀ n, n = c.val.toNat → Char.ofNat n = c := by
    rintro n rfl
    exact Char.ofNat_toNat c
  have hbyte : ∀ n, n < 256 → (UInt8.ofNat n).toNat = n := fun n hn => UInt8.toNat_ofNat_of_lt' hn
  unfold String.utf8EncodeChar
  dsimp only
  generalize c.val.toNat = v at hvalid hback ⊢
  -- how many bytes there are depends on how large the number is
  split
  next h1 =>
      have ha := hbyte v (by omega)
      show uncons? (UInt8.ofNat v :: rest) = _
      have hlead : UInt8.ofNat v < 0x80 := by
        rw [UInt8.lt_iff_toNat_lt, ha]
        show v < 0x80
        omega
      unfold uncons?
      dsimp only
      rw [if_pos hlead, hback _ ha]
  next h1 =>
      split
      next h2 =>
          have ha := hbyte (v / 64 % 32 + 192) (by omega)
          have hb := hbyte (v % 64 + 128) (by omega)
          refine uncons?_of_multibyte? (by omega)
            ((multibyte?_two (by omega) ?_ rest).trans ?_)
          · rw [isSecond_iff]
            omega
          · unfold payload
            rw [hback _ (by omega)]
      next h2 =>
          split
          next h3 =>
              have ha := hbyte (v / 4096 % 16 + 224) (by omega)
              have hb := hbyte (v / 64 % 64 + 128) (by omega)
              have hc := hbyte (v % 64 + 128) (by omega)
              refine uncons?_of_multibyte? (by omega)
                ((multibyte?_three (by omega) ?_ ?_ rest).trans ?_)
              · rw [isSecond_iff]
                omega
              · rw [isTail_iff]
                omega
              · unfold payload
                rw [hback _ (by omega)]
          next h3 =>
              have ha := hbyte (v / 262144 % 8 + 240) (by omega)
              have hb := hbyte (v / 4096 % 64 + 128) (by omega)
              have hc := hbyte (v / 64 % 64 + 128) (by omega)
              have hd := hbyte (v % 64 + 128) (by omega)
              refine uncons?_of_multibyte? (by omega)
                ((multibyte?_four (by omega) ?_ ?_ ?_ rest).trans ?_)
              · rw [isSecond_iff]
                omega
              · rw [isTail_iff]
                omega
              · rw [isTail_iff]
                omega
              · unfold payload
                rw [hback _ (by omega)]

/-! ## §3. A whole text. -/

theorem pieces_go_encode (cs : List Char) (done : Array Piece) :
    pieces.go (cs.flatMap String.utf8EncodeChar) done = done ++ (cs.map Piece.scalar).toArray := by
  induction cs generalizing done with
  | nil =>
      show pieces.go [] done = _
      rw [pieces.go]
      simp [uncons?]
  | cons c cs ih =>
      rw [List.flatMap_cons, pieces.go]
      split
      next h =>
          rw [uncons?_encode] at h
          exact absurd h (by simp)
      next p rest h =>
          rw [uncons?_encode, Option.some.injEq, Prod.mk.injEq] at h
          obtain ⟨rfl, rfl⟩ := h
          rw [ih]
          simp

/-- **The bytes of a text are read as the text.** -/
theorem decode?_ofText (s : String) : decode? (Bytes.ofText s) = some s.toList := by
  have hpieces : pieces (Bytes.ofText s) = s.toList.map Piece.scalar := by
    unfold pieces
    rw [Bytes.ofText_eq, pieces_go_encode]
    simp
  unfold decode?
  dsimp only
  rw [hpieces, if_pos (by simp [Piece.isScalar]), List.filterMap_map]
  exact congrArg some List.filterMap_some

end Text

end Tetraglyph
