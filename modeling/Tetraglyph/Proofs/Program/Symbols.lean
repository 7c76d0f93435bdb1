/-
  Tetraglyph.Proofs.Program.Symbols
  ─────────────────────────────────
  **A SOURCE IS ITS SYMBOLS.**

  A source which holds the bytes of a text has the code points of the text
  as its symbols, without the white space; any other source has its bytes,
  without the ASCII white space.  Reading finds all of them, in order, and
  groups them by four; it fails if this leaves some over.

  So white space makes no difference, however much of it there is and
  wherever it stands.  In a text this is plain.  In bytes which are no text
  there is one thing to see: white space does not make a text of them.  An
  ASCII byte of a text stands between two texts, and what is left without it
  is a text again.

      Holds       — the symbols of a source
      Insertion   — one more thing in a list, at any place

  Main results

      codes_eq_ok_iff        — the codes of a source have its symbols
      holds_iff              — the symbols that reading finds
      symbols_lossless       — no symbol is lost and none is made up
      isUtf8_of_insertion    — white space does not make a text of bytes
      layout_ignored         — white space makes no difference
-/
import Mathlib.Logic.Relation
import Tetraglyph.Proofs.Program.Spelling
import Tetraglyph.Proofs.Text.Pieces

namespace Tetraglyph

namespace Source

/-! ## §1. Grouping by four. -/

/-- Grouping fails if and only if symbols are left over. -/
theorem group_eq_none_iff (syms : List Symbol) (done : Array Code) :
    group syms done = none ↔ ¬4 ∣ syms.length := by
  fun_induction group syms done with
  | case1 done => simp
  | case2 a b c d rest done ih =>
      rw [ih]
      simp only [List.length_cons]
      omega
  | case3 syms done hnil hcons =>
      -- one, two or three symbols are left
      match syms, hnil, hcons with
      | [], hnil, _ => exact absurd rfl hnil
      | [_], _, _ => simp
      | [_, _], _, _ => simp
      | [_, _, _], _, _ => simp
      | a :: b :: c :: d :: rest, _, hcons => exact absurd rfl (hcons a b c d rest)

/-- The codes that are found have the symbols that were grouped. -/
theorem group_eq_some_iff {syms : List Symbol} {done cs : Array Code} :
    group syms done = some cs ↔
      ∃ new : List Code, cs = done ++ new.toArray ∧ new.flatMap Quad.toList = syms := by
  constructor
  · intro h
    fun_induction group syms done with
    | case1 done =>
        obtain rfl : done = cs := Option.some.inj h
        exact ⟨[], by simp, rfl⟩
    | case2 a b c d rest done ih =>
        obtain ⟨new, rfl, rfl⟩ := ih h
        exact ⟨⟨a, b, c, d⟩ :: new, by simp, rfl⟩
    | case3 => exact absurd h (by simp)
  · rintro ⟨new, rfl, rfl⟩
    exact group_flatMap new done

/-- **The codes of a source have its symbols.** -/
theorem codes_eq_ok_iff {src : Bytes} {cs : Array Code} :
    codes src = .ok cs ↔ cs.toList.flatMap Quad.toList = symbols src := by
  have hgroup : codes src = .ok cs ↔ group (symbols src) #[] = some cs := by
    unfold codes
    split
    next cs' hcs => rw [hcs, Except.ok.injEq, Option.some.injEq]
    next hnone => simp [hnone]
  rw [hgroup, group_eq_some_iff]
  constructor
  · rintro ⟨new, rfl, hnew⟩
    simpa using hnew
  · intro h
    exact ⟨cs.toList, by simp, h⟩

theorem codes_eq_error {src : Bytes} (h : ¬4 ∣ (symbols src).length) :
    codes src = .error (.syntactic .codeLengthInvalid (-1)) := by
  unfold codes
  rw [(group_eq_none_iff _ _).2 h]

/-! ## §2. The symbols of a source. -/

/-- ASCII white space: the bytes from tab to carriage return, and the space. -/
def asciiBlanks : List UInt8 := [9, 10, 11, 12, 13, 32]

theorem isBlankByte_iff (b : UInt8) : Text.isBlankByte b = true ↔ b ∈ asciiBlanks := by
  revert b
  exact Bytes.forall_byte (by decide +kernel)

theorem lt_of_mem_asciiBlanks {b : UInt8} (h : b ∈ asciiBlanks) : b < 0x80 := by
  have hall : ∀ b ∈ asciiBlanks, b < 0x80 := by decide +kernel
  exact hall b h

/-- **The symbols of a source**, in order, each as a number. -/
inductive Holds (src : Bytes) : List Symbol → Prop where
  /-- Of a text all code points which are not white space. -/
  | text (text : String) (h : Bytes.ofText text = src) :
      Holds src ((text.toList.filter fun c => !Text.isBlank c).map fun c => (c.toNat : Int))
  /-- Of anything else all bytes which are not ASCII white space. -/
  | bytes (h : ¬Text.IsUtf8 src) :
      Holds src ((src.filter fun b => b ∉ asciiBlanks).map fun b => (b.toNat : Int))

theorem symbols_of_not_isUtf8 {src : Bytes} (h : ¬Text.IsUtf8 src) :
    symbols src = (src.filter fun b => b ∉ asciiBlanks).map fun b => (b.toNat : Int) := by
  unfold symbols
  rw [Text.decode?_eq_none_iff.2 h]
  dsimp only
  congr 1
  apply List.filter_congr
  intro b _
  rw [Bool.eq_iff_iff, Bool.not_eq_true', decide_eq_true_iff, ← isBlankByte_iff,
    Bool.not_eq_true]

/-- **The symbols that reading finds** are those of the source. -/
theorem holds_iff {src : Bytes} {syms : List Symbol} : Holds src syms ↔ symbols src = syms := by
  constructor
  · intro h
    cases h with
    | text text h => rw [← h, symbols_ofText]
    | bytes h => exact symbols_of_not_isUtf8 h
  · rintro rfl
    by_cases h : Text.IsUtf8 src
    · obtain ⟨text, rfl⟩ := h
      rw [symbols_ofText]
      exact .text text rfl
    · rw [symbols_of_not_isUtf8 h]
      exact .bytes h

/-- **No symbol is lost and none is made up.**  Every source has its symbols.
It is read if and only if their number is a multiple of four, and then the codes,
one after the other, are exactly these symbols; otherwise the number is what it
is refused for, without a place. -/
theorem symbols_lossless (src : Bytes) :
    (∃! syms, Holds src syms) ∧ ∀ syms, Holds src syms →
      ((∃ cs, codes src = .ok cs) ↔ 4 ∣ syms.length) ∧
      (∀ cs, codes src = .ok cs → cs.toList.flatMap Quad.toList = syms) ∧
      (¬4 ∣ syms.length → codes src = .error (.syntactic .codeLengthInvalid (-1))) := by
  constructor
  · exact ⟨symbols src, holds_iff.2 rfl, fun syms h => (holds_iff.1 h).symm⟩
  · intro syms h
    obtain rfl := holds_iff.1 h
    refine ⟨⟨?_, ?_⟩, fun cs => codes_eq_ok_iff.1, codes_eq_error⟩
    · rintro ⟨cs, hcs⟩
      by_contra hlength
      rw [codes_eq_error hlength] at hcs
      exact absurd hcs (by simp)
    · intro hlength
      have hsome : group (symbols src) #[] ≠ none := by
        rw [ne_eq, group_eq_none_iff, not_not]
        exact hlength
      obtain ⟨cs, hcs⟩ := Option.ne_none_iff_exists'.1 hsome
      obtain ⟨new, rfl, hnew⟩ := group_eq_some_iff.1 hcs
      exact ⟨new.toArray, codes_eq_ok_iff.2 hnew⟩

/-- Bytes of no text, two of which are white space only as code points; and a
source whose last code is incomplete. -/
theorem symbols_lossless_bytes :
    let src : Bytes := [255, 254, 255, 254, 32, 133, 160, 133, 133, 10]
    Holds src [255, 254, 255, 254, 133, 160, 133, 133] ∧
      (∃ cs, codes src = .ok cs ∧
        cs.toList.flatMap Quad.toList = [255, 254, 255, 254, 133, 160, 133, 133]) ∧
      Holds [97, 98, 227, 128, 128, 99] [97, 98, 99] ∧
      codes [97, 98, 227, 128, 128, 99] = .error (.syntactic .codeLengthInvalid (-1)) := by
  intro src
  have hbytes : Holds src [255, 254, 255, 254, 133, 160, 133, 133] := by
    rw [holds_iff]
    cbv
  have htext : Holds [97, 98, 227, 128, 128, 99] [97, 98, 99] := by
    rw [holds_iff]
    cbv
  obtain ⟨hread, hsymbols, _⟩ := (symbols_lossless src).2 _ hbytes
  obtain ⟨cs, hcs⟩ := hread.2 (by decide)
  exact ⟨hbytes, ⟨cs, hcs, hsymbols cs hcs⟩, htext,
    ((symbols_lossless _).2 _ htext).2.2 (by decide)⟩

/-! ## §3. White space. -/

/-- **One more thing in a list**, at any place. -/
inductive Insertion {α : Type} (p : α → Prop) : List α → List α → Prop where
  /-- Between what is in front of it and what is behind. -/
  | between (before : List α) (x : α) (after : List α) (hx : p x) :
      Insertion p (before ++ after) (before ++ x :: after)

/-- What is filtered out can be inserted without a difference. -/
theorem Insertion.filter_eq {α : Type} {p : α → Prop} {q : α → Bool} {xs ys : List α}
    (hq : ∀ x, p x → q x = false) (h : Relation.ReflTransGen (Insertion p) xs ys) :
    ys.filter q = xs.filter q := by
  induction h with
  | refl => rfl
  | tail _ hlast ih =>
      rw [← ih]
      cases hlast with
      | between before x after hx =>
          rw [List.filter_append, List.filter_append,
            List.filter_cons_of_neg (by simp [hq x hx])]

/-- **White space does not make a text of bytes**: without one ASCII byte a
text is a text again. -/
theorem isUtf8_of_insertion {src src' : Bytes} (h : Insertion (· ∈ asciiBlanks) src src')
    (hutf8 : Text.IsUtf8 src') : Text.IsUtf8 src := by
  obtain ⟨before, b, after, hb⟩ := h
  obtain ⟨text, htext⟩ := hutf8
  rw [Bytes.ofText_eq] at htext
  obtain ⟨cs₁, cs₂, rfl, rfl⟩ := Text.exists_cut_ascii (lt_of_mem_asciiBlanks hb) htext
  rw [← List.flatMap_append]
  exact Text.isUtf8_flatMap _

theorem isUtf8_of_insertions {src src' : Bytes}
    (h : Relation.ReflTransGen (Insertion (· ∈ asciiBlanks)) src src')
    (hutf8 : Text.IsUtf8 src') : Text.IsUtf8 src := by
  induction h with
  | refl => exact hutf8
  | tail _ hlast ih => exact ih (isUtf8_of_insertion hlast hutf8)

/-- **White space makes no difference.**  White space may be inserted between any
two code points of a text, as often as one likes, and the text is read with the
same result as before, be it codes or a failure.  So may ASCII white space between
any two bytes of a source which is no text, even inside what would have been the
bytes of a code point. -/
theorem layout_ignored :
    (∀ text text' : String,
      Relation.ReflTransGen (Insertion fun c => Text.isBlank c = true) text.toList text'.toList →
        codes (Bytes.ofText text') = codes (Bytes.ofText text)) ∧
    ∀ src src' : Bytes, ¬Text.IsUtf8 src →
      Relation.ReflTransGen (Insertion (· ∈ asciiBlanks)) src src' → codes src' = codes src := by
  constructor
  · intro text text' h
    have hfilter := Insertion.filter_eq (q := fun c => !Text.isBlank c) (by simp) h
    unfold codes
    rw [symbols_ofText, symbols_ofText, hfilter]
  · intro src src' hsrc h
    have hsrc' : ¬Text.IsUtf8 src' := fun hutf8 => hsrc (isUtf8_of_insertions h hutf8)
    have hfilter := Insertion.filter_eq (q := fun b => b ∉ asciiBlanks) (by simp) h
    unfold codes
    rw [symbols_of_not_isUtf8 hsrc, symbols_of_not_isUtf8 hsrc', hfilter]

/-- A text with an ideographic space and a newline more, and bytes that begin a
code point and do not end it, with a space between them. -/
theorem layout_ignored_broken :
    let src : Bytes := [227, 128, 97, 97]
    let src' : Bytes := [227, 32, 128, 97, 97]
    codes (Bytes.ofText (String.ofList ['a', '\u3000', 'b', '\n', 'b', 'a']))
        = codes (Bytes.ofText (String.ofList ['a', 'b', 'b', 'a'])) ∧
      ¬Text.IsUtf8 src ∧ codes src' = codes src ∧ codes src = .ok #[⟨227, 128, 97, 97⟩] := by
  intro src src'
  have hsrc : ¬Text.IsUtf8 src := Text.decode?_eq_none_iff.1 (by cbv)
  obtain ⟨htext, hbytes⟩ := layout_ignored
  refine ⟨htext _ _ ?_, hsrc, hbytes src src' hsrc ?_, ?_⟩
  · rw [String.toList_ofList, String.toList_ofList]
    refine .tail (.single ?_) (.between ['a', '\u3000', 'b'] '\n' ['b', 'a'] (by decide))
    exact .between ['a'] '\u3000' ['b', 'b', 'a'] (by decide)
  · exact .single (.between [227] 32 [128, 97, 97] (by decide))
  · rw [codes_eq_ok_iff]
    cbv

end Source

end Tetraglyph
