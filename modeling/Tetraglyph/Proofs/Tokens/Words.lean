/-
  Tetraglyph.Proofs.Tokens.Words
  ──────────────────────────────
  **THE TOKENS OF A STREAM ARE ITS WORDS.**

  A stream of bytes is read piece by piece, and some pieces are white space.
  The WORDS of the stream are the longest runs of pieces without any.  A
  request skips the white space in front and counts the bytes of the first
  word.  It looks at four bytes at a time and at no more of the stream than
  a token may have; as long as four bytes are left of that, it sees the
  pieces that are there, and so it stops behind the word.

  So the requests give the words one after the other, byte for byte, and
  then the ending of the stream as often as one asks.

      words    — the longest runs without white space
      answer   — what one request after some others gets

  Main results

      words_cases           — the first word, and what is behind it
      wordLength_go_piece   — the count, one piece further
      wordLength_go_run     — the count over a word
      next_reads            — one request gives the first word, or the ending
      answer_reads          — what each request gets
      splits_exactly        — all of this of a stream from its start
-/
import Mathlib.Logic.ExistsUnique
import Tetraglyph.Proofs.Text.Pieces
import Tetraglyph.Proofs.Tokens

namespace Tetraglyph

namespace Text

/-! ## §1. Words. -/

/-- **The words of some pieces**: the longest runs without white space. -/
def words (ps : List Piece) : List (List Piece) :=
  (ps.splitOnP Piece.isBlank).filter fun w => !w.isEmpty

theorem words_nil : words [] = [] := by
  simp [words]

theorem words_blank {p : Piece} (h : p.isBlank = true) (ps : List Piece) :
    words (p :: ps) = words ps := by
  unfold words
  rw [List.splitOnP_cons_eq_if_modifyHead, if_pos h, List.filter_cons_of_neg (by simp)]

/-- White space in front belongs to no word. -/
theorem words_dropWhile (ps : List Piece) : words (ps.dropWhile Piece.isBlank) = words ps := by
  induction ps with
  | nil => rfl
  | cons p ps ih =>
      by_cases h : p.isBlank = true
      · rw [List.dropWhile_cons_of_pos h, words_blank h, ih]
      · rw [List.dropWhile_cons_of_neg h]

/-- A run up to white space, or up to the end, is a word. -/
theorem words_append {w tail : List Piece} (hne : w ≠ []) (hw : ∀ p ∈ w, p.isBlank = false)
    (htail : ∀ p ∈ tail.head?, p.isBlank = true) : words (w ++ tail) = w :: words tail := by
  cases tail with
  | nil =>
      rw [List.append_nil, words_nil]
      unfold words
      rw [List.splitOnP_eq_singleton hw, List.filter_cons_of_pos (by simpa using hne)]
      rfl
  | cons p tail =>
      have hp : p.isBlank = true := htail p rfl
      rw [words_blank hp]
      unfold words
      rw [List.splitOnP_append_cons_of_forall_mem hw p hp, List.filter_cons_of_pos (by simpa using hne)]

/-- There is no word, or the first one comes behind the white space in front. -/
theorem words_cases (ps : List Piece) :
    (ps.dropWhile Piece.isBlank = [] ∧ words ps = []) ∨
      ∃ w tail, ps.dropWhile Piece.isBlank = w ++ tail ∧ w ≠ [] ∧ (∀ p ∈ w, p.isBlank = false) ∧
        (∀ p ∈ tail.head?, p.isBlank = true) ∧ words ps = w :: words tail := by
  have hhead := List.head?_dropWhile_not Piece.isBlank ps
  have hwords := words_dropWhile ps
  generalize ps.dropWhile Piece.isBlank = qs at hhead hwords
  cases qs with
  | nil => exact .inl ⟨rfl, hwords.symm.trans words_nil⟩
  | cons q qs =>
      have hq : q.isBlank = false := hhead
      let w := (q :: qs).takeWhile fun p => !p.isBlank
      let tail := (q :: qs).dropWhile fun p => !p.isBlank
      have hsplit : w ++ tail = q :: qs := List.takeWhile_append_dropWhile
      have hne : w ≠ [] := by
        show (q :: qs).takeWhile _ ≠ []
        rw [List.takeWhile_cons_of_pos (by simp [hq])]
        simp
      have hw : ∀ p ∈ w, p.isBlank = false := by
        intro p hp
        simpa using List.all_eq_true.1 List.all_takeWhile p hp
      have htail : ∀ p ∈ tail.head?, p.isBlank = true := by
        intro p hp
        have hstop := List.head?_dropWhile_not (fun p => !p.isBlank) (q :: qs)
        rw [show ((q :: qs).dropWhile fun p => !p.isBlank).head? = some p from hp] at hstop
        simpa using hstop
      refine .inr ⟨w, tail, hsplit.symm, hne, hw, htail, ?_⟩
      rw [← hwords, ← hsplit, words_append hne hw htail]

theorem ne_nil_of_mem_words {ps w : List Piece} (h : w ∈ words ps) : w ≠ [] := by
  simpa using (List.mem_filter.1 h).2

/-- The words have all pieces that are not white space, in order. -/
theorem flatten_words (ps : List Piece) :
    (words ps).flatten = ps.filter fun p => !p.isBlank := by
  unfold words
  rw [List.flatten_filter_not_isEmpty]
  induction ps with
  | nil => simp
  | cons p ps ih =>
      rw [List.splitOnP_cons_eq_if_modifyHead]
      by_cases h : p.isBlank = true
      · rw [if_pos h, List.filter_cons_of_neg (by simp [h]), List.flatten_cons, ih]
        rfl
      · rw [if_neg h, List.filter_cons_of_pos (by simpa using h), ← ih]
        -- the piece goes in front of the first run
        obtain ⟨run, runs, hruns⟩ := List.exists_cons_of_ne_nil (List.splitOnP_ne_nil Piece.isBlank ps)
        rw [hruns]
        rfl

/-! ## §2. Looking at four bytes. -/

theorem Piece.length_bytes (p : Piece) : 0 < p.bytes.length ∧ p.bytes.length ≤ 4 := by
  cases p with
  | scalar c =>
      show 0 < (String.utf8EncodeChar c).length ∧ (String.utf8EncodeChar c).length ≤ 4
      rw [String.length_utf8EncodeChar]
      exact ⟨c.utf8Size_pos, c.utf8Size_le_four⟩
  | stray b =>
      show 0 < 1 ∧ 1 ≤ 4
      decide

theorem flatMap_bytes_ne_nil {w : List Piece} (h : w ≠ []) : w.flatMap Piece.bytes ≠ [] := by
  obtain ⟨p, w, rfl⟩ := List.exists_cons_of_ne_nil h
  have hp := p.length_bytes
  intro hnil
  rw [List.flatMap_cons, List.append_eq_nil_iff] at hnil
  rw [hnil.1] at hp
  exact absurd hp.1 (by decide)

/-- The first four bytes tell the first piece. -/
theorem uncons?_take {bs rest : Bytes} {p : Piece} (h : uncons? bs = some (p, rest)) :
    uncons? (bs.take 4) = some (p, rest.take (4 - p.bytes.length)) := by
  have hlen := p.length_bytes
  have htake : bs.take 4 = p.bytes ++ rest.take (4 - p.bytes.length) := by
    rw [bytes_of_uncons? h, List.take_append, List.take_of_length_le hlen.2]
  rw [htake]
  cases p with
  | scalar c => exact uncons?_encode c _
  | stray b =>
      apply uncons?_stray
      intro c after heq
      -- a code point in the first bytes would be one in all of them
      have hall : bs = String.utf8EncodeChar c ++ (after ++ bs.drop 4) := by
        rw [← List.append_assoc, ← heq]
        show bs = (Piece.stray b).bytes ++ rest.take 3 ++ bs.drop 4
        exact (List.take_append_drop 4 bs).symm.trans (by rw [htake]; rfl)
      rw [hall, uncons?_encode] at h
      exact absurd h (by simp)

/-- **The count, one piece further.** -/
theorem wordLength_go_piece {bs rest : Bytes} {p : Piece} (h : uncons? bs = some (p, rest))
    {room : Nat} (hroom : 4 ≤ room) (n : Nat) :
    wordLength.go room bs n
      = if p.isBlank then n
        else wordLength.go (room - p.bytes.length) rest (n + p.bytes.length) := by
  obtain ⟨room, rfl⟩ : ∃ k, room = k + 1 := ⟨room - 1, by omega⟩
  have hbytes := bytes_of_uncons? h
  have hlen := p.length_bytes
  cases bs with
  | nil => exact absurd h (by simp [uncons?_eq_none_iff.2])
  | cons b tail =>
      rw [wordLength.go]
      by_cases hb : b < 0x80
      · -- an ASCII byte is a piece by itself
        have hone : uncons? (b :: tail) = some (.scalar (Char.ofNat b.toNat), tail) := if_pos hb
        rw [h] at hone
        cases hone
        have hblank : isBlankByte b = (Piece.scalar (Char.ofNat b.toNat)).isBlank := by
          unfold isBlankByte Piece.isBlank
          rw [decide_eq_true hb, Bool.true_and]
        rw [if_pos hb, hblank, Piece.bytes, encode_byte hb]
        rfl
      · have hmin : min 4 (room + 1) = 4 := by omega
        have hwindow := uncons?_take h
        have hused : ((b :: tail).take 4).length
            = p.bytes.length + (rest.take (4 - p.bytes.length)).length := by
          rw [bytes_of_uncons? hwindow, List.length_append]
        rw [if_neg hb]
        dsimp only
        rw [hmin, hwindow]
        dsimp only
        by_cases hblank : p.isBlank = true
        · rw [if_pos hblank, if_pos hblank]
        · obtain ⟨k, hk⟩ : ∃ k, p.bytes.length = k + 1 := ⟨p.bytes.length - 1, by omega⟩
          have hrest : tail.drop k = rest := by
            have hdrop : (b :: tail).drop p.bytes.length = rest := by rw [hbytes, List.drop_left]
            rw [hk, List.drop_succ_cons] at hdrop
            exact hdrop
          -- the bytes used behind the first one are those of the piece
          have hwidth : ((b :: tail).take 4).length
              - (rest.take (4 - p.bytes.length)).length - 1 = k := by omega
          rw [if_neg hblank, if_neg hblank, hwidth, hrest, hk]
          congr 1
          · omega
          · omega

/-- **The count over a word**, if there is room for four bytes behind it. -/
theorem wordLength_go_run {w tail : List Piece} {bs : Bytes} (h : Reads bs (w ++ tail))
    (hw : ∀ p ∈ w, p.isBlank = false) (htail : ∀ p ∈ tail.head?, p.isBlank = true) {room : Nat}
    (hroom : (w.flatMap Piece.bytes).length + 4 ≤ room) (n : Nat) :
    wordLength.go room bs n = n + (w.flatMap Piece.bytes).length := by
  induction w generalizing bs room n with
  | nil =>
      cases tail with
      | nil =>
          obtain rfl := reads_nil_iff.1 h
          exact wordLength_go_nil room n
      | cons p tail =>
          obtain ⟨rest, hp, _⟩ := reads_cons_iff.1 h
          rw [wordLength_go_piece hp (by omega), if_pos (htail p rfl)]
          rfl
  | cons p w ih =>
      obtain ⟨rest, hp, hrest⟩ := reads_cons_iff.1 h
      obtain ⟨hblank, hw⟩ := List.forall_mem_cons.1 hw
      rw [List.flatMap_cons, List.length_append] at hroom ⊢
      rw [wordLength_go_piece hp (by omega), if_neg (by simp [hblank]), ih hrest hw (by omega)]
      omega

/-- Behind some of the pieces the others are read. -/
theorem Reads.append {w tail : List Piece} {bs : Bytes} (h : Reads bs (w ++ tail)) :
    ∃ rest, bs = w.flatMap Piece.bytes ++ rest ∧ Reads rest tail := by
  induction w generalizing bs with
  | nil => exact ⟨bs, rfl, h⟩
  | cons p w ih =>
      obtain ⟨after, hp, hafter⟩ := reads_cons_iff.1 h
      obtain ⟨rest, rfl, hrest⟩ := ih hafter
      refine ⟨rest, ?_, hrest⟩
      rw [bytes_of_uncons? hp, List.flatMap_cons, List.append_assoc]

/-- What is left without the white space in front. -/
theorem reads_skipBlank {bs : Bytes} {ps : List Piece} (h : Reads bs ps) :
    Reads (skipBlank bs) (ps.dropWhile Piece.isBlank) := by
  induction ps generalizing bs with
  | nil =>
      obtain rfl := reads_nil_iff.1 h
      rw [skipBlank_nil]
      exact h
  | cons p ps ih =>
      obtain ⟨rest, hp, hrest⟩ := reads_cons_iff.1 h
      rw [skipBlank_uncons? hp]
      by_cases hblank : p.isBlank = true
      · rw [if_pos hblank, List.dropWhile_cons_of_pos hblank]
        exact ih hrest
      · rw [if_neg hblank, List.dropWhile_cons_of_neg hblank]
        exact h

end Text

namespace Tokens

/-! ## §3. Requests. -/

/-- **What one request after some others gets.** -/
def answer : Nat → Tokens → Except Failure Bytes
  | 0, t => t.next.1
  | i + 1, t => answer i t.next.2

open Text

/-- **One request gives the first word**, or the ending if there is none. -/
theorem next_reads {t : Tokens} {ps : List Piece} (hopen : t.closed = false)
    (h : Reads t.rest ps)
    (hlen : ∀ w ∈ words ps, (w.flatMap Piece.bytes).length < maxTokenSize - 3) :
    (words ps = [] ∧ t.next = (.error t.ending, { t with rest := [] })) ∨
      ∃ w tail rest, words ps = w :: words tail ∧
        t.next = (.ok (w.flatMap Piece.bytes), { t with rest := rest }) ∧ Reads rest tail := by
  have hbody := reads_skipBlank h
  rcases words_cases ps with ⟨hnil, hwords⟩ | ⟨w, tail, hsplit, hne, hw, htail, hwords⟩
  · left
    rw [hnil] at hbody
    refine ⟨hwords, ?_⟩
    unfold next
    rw [reads_nil_iff.1 hbody]
    dsimp only
    rw [wordLength_nil]
    rfl
  · right
    rw [hsplit] at hbody
    obtain ⟨rest, hbytes, hrest⟩ := hbody.append
    have hshort := hlen w (by rw [hwords]; exact List.mem_cons_self)
    have hcount : wordLength maxTokenSize (skipBlank t.rest) = (w.flatMap Piece.bytes).length := by
      unfold wordLength
      rw [wordLength_go_run hbody hw htail (by omega), Nat.zero_add]
    have hpos : (w.flatMap Piece.bytes).length ≠ 0 := fun hzero =>
      flatMap_bytes_ne_nil hne (List.eq_nil_of_length_eq_zero hzero)
    refine ⟨w, tail, rest, hwords, ?_, hrest⟩
    have hroom : (if t.closed then (skipBlank t.rest).length else maxTokenSize) = maxTokenSize := by
      rw [hopen]
      rfl
    have hlimit : ¬(!t.closed && decide ((w.flatMap Piece.bytes).length = maxTokenSize)) = true := by
      rw [Bool.and_eq_true, decide_eq_true_iff]
      omega
    unfold next
    dsimp only
    rw [hroom, hcount, if_neg hpos, if_neg hlimit, hbytes, List.take_left, List.drop_left]

/-- **What each request gets**: the words in order, and from then on the ending. -/
theorem answer_reads (i : Nat) {t : Tokens} {ps : List Piece} (hopen : t.closed = false)
    (h : Reads t.rest ps)
    (hlen : ∀ w ∈ words ps, (w.flatMap Piece.bytes).length < maxTokenSize - 3) :
    answer i t = match (words ps)[i]? with
      | some w => .ok (w.flatMap Piece.bytes)
      | none => .error t.ending := by
  -- a request leaves a stream whose words are those behind the first one
  induction i generalizing t ps with
  | zero =>
      show t.next.1 = _
      rcases next_reads hopen h hlen with ⟨hwords, hnext⟩ | ⟨w, tail, rest, hwords, hnext, _⟩
      · rw [hnext, hwords]
        rfl
      · rw [hnext, hwords]
        rfl
  | succ i ih =>
      show answer i t.next.2 = _
      rcases next_reads hopen h hlen with ⟨hwords, hnext⟩ | ⟨w, tail, rest, hwords, hnext, hrest⟩
      · have hnone : ∀ v ∈ words [], (v.flatMap Piece.bytes).length < maxTokenSize - 3 := by
          simp [words_nil]
        rw [hnext, hwords, ih (t := { t with rest := [] }) hopen .nil hnone, words_nil]
        rfl
      · have htail : ∀ v ∈ words tail, (v.flatMap Piece.bytes).length < maxTokenSize - 3 := by
          intro v hv
          exact hlen v (by rw [hwords]; exact List.mem_cons_of_mem w hv)
        rw [hnext, hwords, ih (t := { t with rest := rest }) hopen hrest htail,
          List.getElem?_cons_succ]

/-- **The tokens of a stream are its words.**  Every stream is read, and in one
way, without losing a byte.  If each of its words is shorter than 2^24 - 3 bytes,
the requests give the bytes of the words, in order, and every further request gets
the end of the input, or the error with which reading failed.  No token is empty,
and all of them together are the stream without its white space. -/
theorem splits_exactly (bs : Bytes) (failure : Option Failure) :
    (∃! ps, Reads bs ps) ∧ ∀ ps, Reads bs ps → ps.flatMap Piece.bytes = bs ∧
      ((∀ w ∈ words ps, (w.flatMap Piece.bytes).length < maxTokenSize - 3) →
        (∀ i, answer i (ofBytes bs failure) = match (words ps)[i]? with
          | some w => .ok (w.flatMap Piece.bytes)
          | none => .error (failure.getD (.known .endOfInput))) ∧
        (∀ w ∈ words ps, w.flatMap Piece.bytes ≠ []) ∧
        ((words ps).map fun w => w.flatMap Piece.bytes).flatten
          = (ps.filter fun p => !p.isBlank).flatMap Piece.bytes) := by
  constructor
  · exact ⟨pieces bs, reads_pieces bs, fun ps h => (reads_pieces bs).unique h⟩
  · intro ps h
    refine ⟨h.flatMap_bytes, fun hlen => ⟨?_, ?_, ?_⟩⟩
    · intro i
      exact answer_reads i (t := ofBytes bs failure) rfl h hlen
    · intro w hw
      exact flatMap_bytes_ne_nil (ne_nil_of_mem_words hw)
    · rw [← flatten_words, ← List.flatMap_def, List.flatten_eq_flatMap, List.flatMap_assoc]
      rfl

/-- A stream whose white space has several bytes, with stray bytes in two of its
words, the last of which could have become white space; reading it fails then. -/
theorem splits_exactly_stray :
    let bs : Bytes := [32, 97, 98, 227, 128, 128, 99, 255, 10, 227, 128]
    let ps : List Piece := [.scalar ' ', .scalar 'a', .scalar 'b', .scalar '\u3000', .scalar 'c',
      .stray 255, .scalar '\n', .stray 227, .stray 128]
    let t := ofBytes bs (some (.plain "closed"))
    Reads bs ps ∧ (∀ w ∈ words ps, (w.flatMap Piece.bytes).length < maxTokenSize - 3) ∧
      answer 0 t = .ok [97, 98] ∧ answer 1 t = .ok [99, 255] ∧ answer 2 t = .ok [227, 128] ∧
      ∀ i, answer (i + 3) t = .error (.plain "closed") := by
  intro bs ps t
  have hreads : Reads bs ps := by
    iterate 9 refine reads_cons_iff.2 ⟨_, rfl, ?_⟩
    exact .nil
  have hwords : words ps = [[.scalar 'a', .scalar 'b'], [.scalar 'c', .stray 255],
    [.stray 227, .stray 128]] := by decide +kernel
  have hlen : ∀ w ∈ words ps, (w.flatMap Piece.bytes).length < maxTokenSize - 3 := by
    rw [hwords]
    decide +kernel
  obtain ⟨hanswer, _⟩ := ((splits_exactly bs (some (.plain "closed"))).2 ps hreads).2 hlen
  rw [hwords] at hanswer
  exact ⟨hreads, hlen, (hanswer 0).trans (congrArg Except.ok (by decide +kernel)),
    (hanswer 1).trans (congrArg Except.ok (by decide +kernel)),
    (hanswer 2).trans (congrArg Except.ok (by decide +kernel)), fun i => hanswer (i + 3)⟩

end Tokens

end Tetraglyph
