/-
  Tetraglyph.Proofs.Text.Pieces
  ─────────────────────────────
  **WHAT A BYTE STRING IS READ AS.**

  Reading goes from left to right.  Where the bytes of a code point stand,
  this code point is read; where those of none do, one byte is read as it
  is.  This says what reading is without a word about lead bytes and
  continuation bytes, and it is what the reader does: every byte string is
  read, no byte of it is lost, and it is decoded if and only if it holds the
  bytes of some text.

  A code point below U+0080 is its own byte, and no byte of any other code
  point is below 0x80.  So an ASCII byte stands alone wherever it stands,
  and a text can be cut in front of it and behind it.

      Piece.bytes    — the bytes of a piece
      Reads          — what a byte string is read as, from left to right
      IsUtf8         — the byte string holds the bytes of a text

  Main results

      encode_of_uncons?    — a code point is read off its own bytes
      encode_ascii         — an ASCII byte of a code point is its only one
      reads_cons_iff       — which piece is read first
      reads_pieces         — every byte string is read, as its pieces
      decode?_eq_none_iff  — what is not decoded holds the bytes of no text
      exists_cut_ascii     — a text can be cut around an ASCII byte
-/
import Tetraglyph.Proofs.Text.Utf8

namespace Tetraglyph

namespace Text

/-! ## §1. Pieces and their bytes. -/

/-- The bytes of a piece. -/
def Piece.bytes : Piece → Bytes
  | .scalar c => String.utf8EncodeChar c
  | .stray b => [b]

/-- **What a byte string is read as**, from left to right. -/
inductive Reads : Bytes → List Piece → Prop where
  /-- Nothing is read as nothing. -/
  | nil : Reads [] []
  /-- Where the bytes of a code point stand, it is read. -/
  | scalar (c : Char) {rest : Bytes} {ps : List Piece} (h : Reads rest ps) :
      Reads (String.utf8EncodeChar c ++ rest) (.scalar c :: ps)
  /-- Where those of none do, the byte is read as it is. -/
  | stray {b : UInt8} {rest : Bytes} {ps : List Piece}
      (hb : ∀ c after, b :: rest ≠ String.utf8EncodeChar c ++ after) (h : Reads rest ps) :
      Reads (b :: rest) (.stray b :: ps)

/-- No byte is lost. -/
theorem Reads.flatMap_bytes {bs : Bytes} {ps : List Piece} (h : Reads bs ps) :
    ps.flatMap Piece.bytes = bs := by
  induction h with
  | nil => rfl
  | scalar c _ ih => rw [List.flatMap_cons, ih, Piece.bytes]
  | stray _ _ ih =>
      rw [List.flatMap_cons, ih, Piece.bytes]
      rfl

/-! ## §2. The bytes of one code point. -/

theorem val_ofNat {v : Nat} (h : v < 0xD800 ∨ 0xDFFF < v ∧ v < 0x110000) :
    (Char.ofNat v).val.toNat = v := by
  have hvalid : v.isValidChar := h
  unfold Char.ofNat
  rw [dif_pos hvalid]
  rfl

/-- A byte is given by its number. -/
theorem byte_eq {n : Nat} {b : UInt8} (h : n = b.toNat) : UInt8.ofNat n = b := by
  rw [h, UInt8.ofNat_toNat]

/-- What a longer sequence is: two, three or four bytes, by its lead byte. -/
theorem multibyte?_cases {a : UInt8} {bs rest : Bytes} {c : Char}
    (h : multibyte? a bs = some (c, rest)) : ∃ b, isSecond a b = true ∧
      (((0xC2 ≤ a.toNat ∧ a.toNat ≤ 0xDF) ∧ bs = b :: rest ∧
          c = Char.ofNat (a.toNat % 0x20 * 0x40 + payload b)) ∨
        (∃ d, isTail d = true ∧ (0xE0 ≤ a.toNat ∧ a.toNat ≤ 0xEF) ∧ bs = b :: d :: rest ∧
          c = Char.ofNat ((a.toNat % 0x10 * 0x40 + payload b) * 0x40 + payload d)) ∨
        ∃ d e, isTail d = true ∧ isTail e = true ∧ (0xF0 ≤ a.toNat ∧ a.toNat ≤ 0xF4) ∧
          bs = b :: d :: e :: rest ∧ c = Char.ofNat
            (((a.toNat % 0x08 * 0x40 + payload b) * 0x40 + payload d) * 0x40 + payload e)) := by
  unfold multibyte? at h
  split at h
  next => exact absurd h (by simp)
  next b tail =>
      split at h
      next hsecond =>
          refine ⟨b, hsecond, ?_⟩
          split at h
          next htwo =>
              cases h
              exact .inl ⟨(between_iff a 0xC2 0xDF).1 htwo, rfl, rfl⟩
          next =>
              split at h
              next hthree =>
                  split at h
                  next d tail =>
                      split at h
                      next hd =>
                          cases h
                          exact .inr (.inl ⟨d, hd, (between_iff a 0xE0 0xEF).1 hthree, rfl, rfl⟩)
                      next => exact absurd h (by simp)
                  next => exact absurd h (by simp)
              next =>
                  split at h
                  next hfour =>
                      split at h
                      next d e tail =>
                          split at h
                          next htails =>
                              rw [Bool.and_eq_true] at htails
                              cases h
                              exact .inr (.inr ⟨d, e, htails.1, htails.2,
                                (between_iff a 0xF0 0xF4).1 hfour, rfl, rfl⟩)
                          next => exact absurd h (by simp)
                      next => exact absurd h (by simp)
                  next => exact absurd h (by simp)
      next => exact absurd h (by simp)

/-- The bytes of a longer sequence are those of the code point that it makes: the
bounds of the second byte leave no two ways to write one. -/
theorem encode_of_multibyte? {a : UInt8} {bs rest : Bytes} {c : Char}
    (h : multibyte? a bs = some (c, rest)) : a :: bs = String.utf8EncodeChar c ++ rest := by
  obtain ⟨b, hsecond, h⟩ := multibyte?_cases h
  obtain ⟨hb, hE0, hED, hF0, hF4⟩ := (isSecond_iff a b).1 hsecond
  unfold String.utf8EncodeChar
  dsimp only
  rcases h with ⟨ha, rfl, rfl⟩ | ⟨d, hd, ha, rfl, rfl⟩ | ⟨d, e, hd, he, ha, rfl, rfl⟩
  · unfold payload
    rw [val_ofNat (by omega), if_neg (by omega), if_pos (by omega), byte_eq (b := a) (by omega),
      byte_eq (b := b) (by omega)]
    rfl
  · rw [isTail_iff] at hd
    unfold payload
    rw [val_ofNat (by omega), if_neg (by omega), if_neg (by omega), if_pos (by omega),
      byte_eq (b := a) (by omega), byte_eq (b := b) (by omega), byte_eq (b := d) (by omega)]
    rfl
  · rw [isTail_iff] at hd he
    unfold payload
    rw [val_ofNat (by omega), if_neg (by omega), if_neg (by omega), if_neg (by omega),
      byte_eq (b := a) (by omega), byte_eq (b := b) (by omega), byte_eq (b := d) (by omega),
      byte_eq (b := e) (by omega)]
    rfl

theorem encode_byte {a : UInt8} (h : a < 0x80) :
    String.utf8EncodeChar (Char.ofNat a.toNat) = [a] := by
  have hlt : a.toNat < 0x80 := UInt8.lt_iff_toNat_lt.1 h
  unfold String.utf8EncodeChar
  dsimp only
  rw [val_ofNat (by omega), if_pos (by omega), UInt8.ofNat_toNat]

/-- **A code point is read off its own bytes.** -/
theorem encode_of_uncons? {bs rest : Bytes} {c : Char}
    (h : uncons? bs = some (.scalar c, rest)) : bs = String.utf8EncodeChar c ++ rest := by
  unfold uncons? at h
  split at h
  next => exact absurd h (by simp)
  next a tail =>
      split at h
      next hlt =>
          cases h
          rw [encode_byte hlt]
          rfl
      next =>
          split at h
          next c' after hm =>
              cases h
              exact encode_of_multibyte? hm
          next => exact absurd h (by simp)

theorem eq_cons_of_uncons? {bs rest : Bytes} {b : UInt8}
    (h : uncons? bs = some (.stray b, rest)) : bs = b :: rest := by
  unfold uncons? at h
  split at h
  next => exact absurd h (by simp)
  next a tail =>
      split at h
      next => exact absurd h (by simp)
      next =>
          split at h
          next => exact absurd h (by simp)
          next =>
              cases h
              rfl

/-- **An ASCII byte of a code point is its only one.** -/
theorem encode_ascii {c : Char} {b : UInt8} (hmem : b ∈ String.utf8EncodeChar c) (hb : b < 0x80) :
    String.utf8EncodeChar c = [b] ∧ c = Char.ofNat b.toNat := by
  have hlt : b.toNat < 0x80 := UInt8.lt_iff_toNat_lt.1 hb
  have hbyte : ∀ n, n < 256 → (UInt8.ofNat n).toNat = n := fun n hn => UInt8.toNat_ofNat_of_lt' hn
  -- every byte of a longer sequence has its highest bit set
  have hhigh : ∀ n, 0x80 ≤ n → n < 256 → b ≠ UInt8.ofNat n := by
    rintro n hlo hhi rfl
    rw [hbyte n hhi] at hlt
    omega
  unfold String.utf8EncodeChar at hmem ⊢
  dsimp only at hmem ⊢
  split at hmem
  next hone =>
      rw [if_pos hone]
      obtain rfl := List.mem_singleton.1 hmem
      rw [hbyte _ (by omega)]
      exact ⟨rfl, (Char.ofNat_toNat c).symm⟩
  next =>
      split at hmem
      next =>
          simp only [List.mem_cons, List.not_mem_nil, or_false] at hmem
          rcases hmem with h | h <;> exact absurd h (hhigh _ (by omega) (by omega))
      next =>
          split at hmem
          next =>
              simp only [List.mem_cons, List.not_mem_nil, or_false] at hmem
              rcases hmem with h | h | h <;> exact absurd h (hhigh _ (by omega) (by omega))
          next =>
              simp only [List.mem_cons, List.not_mem_nil, or_false] at hmem
              rcases hmem with h | h | h | h <;> exact absurd h (hhigh _ (by omega) (by omega))

/-! ## §3. Piece by piece. -/

theorem bytes_of_uncons? {bs rest : Bytes} {p : Piece} (h : uncons? bs = some (p, rest)) :
    bs = p.bytes ++ rest := by
  cases p with
  | scalar c => exact encode_of_uncons? h
  | stray b => exact eq_cons_of_uncons? h

theorem uncons?_eq_none_iff {bs : Bytes} : uncons? bs = none ↔ bs = [] := by
  cases bs with
  | nil => exact ⟨fun _ => rfl, fun _ => rfl⟩
  | cons b rest =>
      unfold uncons?
      dsimp only
      split
      next => simp
      next => split <;> simp

/-- A byte is read as it is if no code point stands there. -/
theorem uncons?_stray {b : UInt8} {rest : Bytes}
    (h : ∀ c after, b :: rest ≠ String.utf8EncodeChar c ++ after) :
    uncons? (b :: rest) = some (.stray b, rest) := by
  have hne : uncons? (b :: rest) ≠ none := by simp [uncons?_eq_none_iff]
  obtain ⟨⟨p, after⟩, huncons⟩ := Option.ne_none_iff_exists'.1 hne
  cases p with
  | scalar c => exact absurd (encode_of_uncons? huncons) (h c after)
  | stray a =>
      obtain ⟨rfl, rfl⟩ := List.cons.inj (eq_cons_of_uncons? huncons)
      exact huncons

/-- **Which piece is read first**, and that reading goes on behind it. -/
theorem reads_cons_iff {bs : Bytes} {p : Piece} {ps : List Piece} :
    Reads bs (p :: ps) ↔ ∃ rest, uncons? bs = some (p, rest) ∧ Reads rest ps := by
  constructor
  · intro h
    cases h with
    | scalar c h => exact ⟨_, uncons?_encode c _, h⟩
    | stray hb h => exact ⟨_, uncons?_stray hb, h⟩
  · rintro ⟨rest, huncons, h⟩
    cases p with
    | scalar c =>
        rw [encode_of_uncons? huncons]
        exact .scalar c h
    | stray b =>
        obtain rfl := eq_cons_of_uncons? huncons
        refine .stray ?_ h
        intro c after heq
        rw [heq, uncons?_encode] at huncons
        exact absurd huncons (by simp)

theorem reads_nil_iff {bs : Bytes} : Reads bs [] ↔ bs = [] := by
  constructor
  · intro h
    cases h
    rfl
  · rintro rfl
    exact .nil

theorem reads_go (bs : Bytes) (done : Array Piece) :
    ∃ ps, Reads bs ps ∧ pieces.go bs done = done ++ ps.toArray := by
  fun_induction pieces.go bs done with
  | case1 bs done h => exact ⟨[], reads_nil_iff.2 (uncons?_eq_none_iff.1 h), by simp⟩
  | case2 bs done p rest h ih =>
      obtain ⟨ps, hps, hgo⟩ := ih
      exact ⟨p :: ps, reads_cons_iff.2 ⟨rest, h, hps⟩, by rw [hgo]; simp⟩

/-- **Every byte string is read**, as its pieces. -/
theorem reads_pieces (bs : Bytes) : Reads bs (pieces bs) := by
  obtain ⟨ps, hps, hgo⟩ := reads_go bs #[]
  unfold pieces
  rw [hgo]
  simpa using hps

/-- There is one way to read it. -/
theorem Reads.unique {bs : Bytes} {ps qs : List Piece} (h : Reads bs ps) (hqs : Reads bs qs) :
    qs = ps := by
  induction ps generalizing bs qs with
  | nil =>
      obtain rfl := reads_nil_iff.1 h
      cases qs with
      | nil => rfl
      | cons q qs =>
          obtain ⟨rest, huncons, _⟩ := reads_cons_iff.1 hqs
          exact absurd huncons (by simp [uncons?_eq_none_iff.2])
  | cons p ps ih =>
      obtain ⟨rest, huncons, h⟩ := reads_cons_iff.1 h
      cases qs with
      | nil =>
          obtain rfl := reads_nil_iff.1 hqs
          exact absurd huncons (by simp [uncons?_eq_none_iff.2])
      | cons q qs =>
          obtain ⟨rest', huncons', hqs⟩ := reads_cons_iff.1 hqs
          rw [huncons, Option.some.injEq, Prod.mk.injEq] at huncons'
          obtain ⟨rfl, rfl⟩ := huncons'
          rw [ih h hqs]

/-! ## §4. Texts. -/

/-- **The byte string is valid UTF-8**: it holds the bytes of a text. -/
def IsUtf8 (bs : Bytes) : Prop := ∃ text : String, Bytes.ofText text = bs

theorem isUtf8_flatMap (cs : List Char) : IsUtf8 (cs.flatMap String.utf8EncodeChar) :=
  ⟨String.ofList cs, by rw [Bytes.ofText_eq, String.toList_ofList]⟩

/-- **A byte string is not decoded if and only if it is not valid.** -/
theorem decode?_eq_none_iff {bs : Bytes} : decode? bs = none ↔ ¬IsUtf8 bs := by
  constructor
  · rintro h ⟨text, rfl⟩
    rw [decode?_ofText] at h
    exact absurd h (by simp)
  · intro h
    unfold decode?
    dsimp only
    split
    next hall =>
        -- pieces which are all code points are those of a text
        refine absurd ?_ h
        have hbytes : (pieces bs).flatMap Piece.bytes
            = ((pieces bs).filterMap Piece.scalar?).flatMap String.utf8EncodeChar := by
          generalize pieces bs = ps at hall
          induction ps with
          | nil => rfl
          | cons p ps ih =>
              rw [List.all_cons, Bool.and_eq_true] at hall
              cases p with
              | scalar c =>
                  rw [List.flatMap_cons, ih hall.2]
                  rfl
              | stray b => exact absurd hall.1 (by simp [Piece.isScalar])
        rw [← (reads_pieces bs).flatMap_bytes, hbytes]
        exact isUtf8_flatMap _
    next => rfl

/-- **A text can be cut around an ASCII byte**: what is in front of it and
what is behind it are texts. -/
theorem exists_cut_ascii {cs : List Char} {before after : Bytes} {b : UInt8} (hb : b < 0x80)
    (h : cs.flatMap String.utf8EncodeChar = before ++ b :: after) :
    ∃ cs₁ cs₂ : List Char, before = cs₁.flatMap String.utf8EncodeChar ∧
      after = cs₂.flatMap String.utf8EncodeChar := by
  induction cs generalizing before with
  | nil => exact absurd h (by simp)
  | cons c cs ih =>
      rw [List.flatMap_cons, List.append_eq_append_iff] at h
      rcases h with ⟨more, rfl, hrest⟩ | ⟨part, hpart, hrest⟩
      · -- the byte is behind the first code point
        obtain ⟨cs₁, cs₂, rfl, hafter⟩ := ih hrest
        exact ⟨c :: cs₁, cs₂, by rw [List.flatMap_cons], hafter⟩
      · cases part with
        | nil =>
            obtain ⟨cs₁, cs₂, hbefore, hafter⟩ := ih (show _ = [] ++ b :: after from hrest.symm)
            rw [List.append_nil] at hpart
            refine ⟨c :: cs₁, cs₂, ?_, hafter⟩
            rw [List.flatMap_cons, ← hbefore, List.append_nil, hpart]
        | cons b' part =>
            -- it is one of its bytes, and so the only one
            obtain ⟨rfl, hafter⟩ := List.cons.inj hrest
            have hmem : b ∈ String.utf8EncodeChar c := by rw [hpart]; simp
            rw [(encode_ascii hmem hb).1, List.singleton_eq_append_iff] at hpart
            rcases hpart with ⟨rfl, hpart⟩ | ⟨_, hnil⟩
            · obtain rfl : part = [] := (List.cons.inj hpart).2
              exact ⟨[], cs, rfl, hafter⟩
            · exact absurd hnil (by simp)

end Text

end Tetraglyph
