/-
  Tetraglyph.Proofs.Program.Spelling
  ──────────────────────────────────
  **A PROGRAM CAN BE SPELLED AGAIN.**

  A text SPELLS some kinds if it holds the symbols of their spellings in
  order, with any white space before, between and after them.  Reading drops
  the white space, groups the symbols by four and finds the spellings again,
  and decoding them gives the kinds.  What is linked depends on the kinds
  only.  So a source that loads can be spelled again, and loads to the same
  program; and sources whose codes are alike load alike.

      Spaced    — some symbols, with white space anywhere between them
      Spells    — a text of the spellings of some kinds

  Main results

      symbols_ofText           — the symbols of a text
      group_flatMap            — grouping symbols finds the codes again
      codes_of_spells          — reading a text that spells kinds
      link_congr               — what is linked depends on the kinds only
      respelling_round_trip    — all of this of sources of any length
-/
import Mathlib
import Tetraglyph.Proofs.Pattern
import Tetraglyph.Proofs.Program.Caching
import Tetraglyph.Proofs.Text.Utf8

namespace Tetraglyph

namespace Source

/-! ## §1. Symbols with white space between them. -/

/-- Some symbols, in order, with white space anywhere between them. -/
inductive Spaced : List Char → List Char → Prop where
  /-- No symbols. -/
  | nil : Spaced [] []
  /-- White space in front. -/
  | blank {c : Char} {symbols text : List Char} (hc : Text.isBlank c = true)
      (h : Spaced symbols text) : Spaced symbols (c :: text)
  /-- The next symbol. -/
  | symbol {c : Char} {symbols text : List Char} (h : Spaced symbols text) :
      Spaced (c :: symbols) (c :: text)

/-- There need not be any white space. -/
theorem Spaced.refl (symbols : List Char) : Spaced symbols symbols := by
  induction symbols with
  | nil => exact .nil
  | cons c symbols ih => exact .symbol ih

/-- What is left without the white space are the symbols. -/
theorem Spaced.filter_eq {symbols text : List Char} (h : Spaced symbols text)
    (hsymbols : ∀ c ∈ symbols, Text.isBlank c = false) :
    (text.filter fun c => !Text.isBlank c) = symbols := by
  induction h with
  | nil => rfl
  | blank hc _ ih =>
      rw [List.filter_cons_of_neg (by simp [hc])]
      exact ih hsymbols
  | symbol _ ih =>
      obtain ⟨hc, hrest⟩ := List.forall_mem_cons.1 hsymbols
      rw [List.filter_cons_of_pos (by simp [hc]), ih hrest]

/-- **The symbols of a text** are its code points, without the white space. -/
theorem symbols_ofText (text : String) :
    symbols (Bytes.ofText text)
      = (text.toList.filter fun c => !Text.isBlank c).map fun c => (c.toNat : Int) := by
  unfold symbols
  rw [Text.decode?_ofText]

/-- **Grouping symbols finds the codes again.** -/
theorem group_flatMap (cs : List Code) (done : Array Code) :
    group (cs.flatMap Quad.toList) done = some (done ++ cs.toArray) := by
  induction cs generalizing done with
  | nil => simp [group]
  | cons c cs ih =>
      rw [List.flatMap_cons]
      show group (cs.flatMap Quad.toList) (done.push c) = _
      rw [ih]
      simp

/-! ## §2. Texts that spell kinds. -/

/-- A text spells some kinds: the symbols of their spellings in order, with
white space anywhere between them. -/
def Spells (ks : List Kind) (text : String) : Prop :=
  ∃ cs, ks.mapM Kind.spelling = .ok cs ∧ Spaced (cs.flatMap fun c => c.text.toList) text.toList

theorem exists_spells {ks : List Kind} (h : ∀ k ∈ ks, k.Known) : ∃ text, Spells ks text := by
  obtain ⟨cs, hcs⟩ := Kind.exists_spellings h
  refine ⟨String.ofList (cs.flatMap fun c => c.text.toList), cs, hcs, ?_⟩
  rw [String.toList_ofList]
  exact .refl _

/-- The text of a code in letters gives the code back, and has no white
space. -/
theorem text_of_letters {c : Code} (h : ∀ s ∈ c.toList, s.IsLetter) :
    (c.text.toList.map fun x => (x.toNat : Int)) = c.toList ∧
      ∀ x ∈ c.text.toList, Text.isBlank x = false := by
  unfold Code.text
  rw [String.toList_ofList]
  constructor
  · rw [List.map_map]
    calc c.toList.map _ = c.toList.map id := List.map_congr_left fun s hs => (h s hs).toChar.1
      _ = c.toList := List.map_id _
  · intro x hx
    obtain ⟨s, hs, rfl⟩ := List.mem_map.1 hx
    exact (h s hs).toChar.2

/-- **Reading a text that spells kinds** gives their spellings, which spell the
kinds. -/
theorem codes_of_spells {ks : List Kind} {text : String} (h : Spells ks text) :
    ∃ cs, ks.mapM Kind.spelling = .ok cs ∧ codes (Bytes.ofText text) = .ok cs.toArray ∧
      cs.map Code.kind = ks := by
  obtain ⟨cs, hcs, hspaced⟩ := h
  obtain ⟨hkinds, hletters⟩ := Kind.spellings_read_back hcs
  refine ⟨cs, hcs, ?_, hkinds⟩
  have hsymbols : ∀ x ∈ cs.flatMap fun c => c.text.toList, Text.isBlank x = false := by
    intro x hx
    obtain ⟨c, hc, hx⟩ := List.mem_flatMap.1 hx
    exact (text_of_letters (hletters c hc)).2 x hx
  have hread : symbols (Bytes.ofText text) = cs.flatMap Quad.toList := by
    rw [symbols_ofText, hspaced.filter_eq hsymbols, List.map_flatMap, List.flatMap_def,
      List.map_congr_left fun c hc => (text_of_letters (hletters c hc)).1, List.flatMap_def]
  unfold codes
  rw [hread, group_flatMap]
  simp

end Source

/-! ## §3. What depends on the kinds only. -/

theorem Program.kinds_unlinked (ks : List Kind) :
    (Program.unlinked ks).toList.map Instr.kind = ks := by
  unfold Program.unlinked
  rw [List.mapIdx_eq_zipIdx_map]
  simp [Instr.unlinked, Function.comp_def]

namespace Loader

/-- **What is linked depends on the kinds only.** -/
theorem link_congr {cs cs' : Array Code}
    (h : cs.toList.map Code.kind = cs'.toList.map Code.kind) (processors processors' : Nat)
    (workers workers' : Int) (done : Option Failure) :
    link processors workers done cs = link processors' workers' done cs' := by
  unfold link
  cases done with
  | some f => rw [Decoding.decode_done, Decoding.decode_done]
  | none => rw [Decoding.decode_eq_unlinked, Decoding.decode_eq_unlinked, h]

theorem compile_congr {γ γ' : Type} {src src' : Bytes} {cs cs' : Array Code}
    (hcs : Source.codes src = .ok cs) (hcs' : Source.codes src' = .ok cs')
    (h : cs.toList.map Code.kind = cs'.toList.map Code.kind) (l : Loader γ) (l' : Loader γ')
    (done : Option Failure) : l.compile done src = l'.compile done src' := by
  unfold compile
  rw [hcs, hcs']
  exact link_congr h _ _ _ _ _

end Loader

/-- Code sequences of one length that are alike, code by code, spell the same
kinds. -/
theorem Code.kinds_of_alike {cs cs' : Array Code} (hsize : cs.size = cs'.size)
    (h : ∀ (i : Nat) (c c' : Code), cs[i]? = some c → cs'[i]? = some c' → c.Alike c') :
    cs.toList.map Code.kind = cs'.toList.map Code.kind := by
  apply List.ext_getElem
  · simpa using hsize
  · intro i hi hi'
    rw [List.length_map, Array.length_toList] at hi hi'
    have halike := h i cs[i] cs'[i] (Array.getElem?_eq_getElem hi) (Array.getElem?_eq_getElem hi')
    simpa using halike.kind_eq

/-! ## §4. Spelling a program again. -/

namespace Source

/-- **A program can be spelled again.**  Kinds with a meaning can be spelled,
and any text that spells them, with white space anywhere between the symbols, is
read as their spellings and decoded to exactly these kinds.  A source that loads
has kinds with a meaning, and whatever spells them loads to the same linked
program.  And two sources whose codes are alike, code by code, load to the same
program or fail for the same reason. -/
theorem respelling_round_trip {γ γ' : Type} :
    (∀ ks : List Kind, (∀ k ∈ ks, k.Known) →
      (∃ text, Spells ks text) ∧
      ∀ text, Spells ks text → ∃ cs, ks.mapM Kind.spelling = .ok cs ∧
        codes (Bytes.ofText text) = .ok cs.toArray ∧
        ∀ (processors : Nat) (workers : Int), ∃ p,
          Decoding.decode processors cs.toArray workers none = .ok p ∧
            p.toList.map Instr.kind = ks) ∧
    (∀ (l : Loader γ) (src : Bytes) (p : Program), l.compile none src = .ok p →
      ∃ cs, codes src = .ok cs ∧ (∃ text, Spells (cs.toList.map Code.kind) text) ∧
        ∀ text, Spells (cs.toList.map Code.kind) text →
          ∀ l' : Loader γ', l'.compile none (Bytes.ofText text) = .ok p) ∧
    ∀ (src src' : Bytes) (cs cs' : Array Code), codes src = .ok cs → codes src' = .ok cs' →
      cs.size = cs'.size →
      (∀ (i : Nat) (c c' : Code), cs[i]? = some c → cs'[i]? = some c' → c.Alike c') →
        ∀ (l : Loader γ) (l' : Loader γ') (done : Option Failure),
          l.compile done src = l'.compile done src' := by
  refine ⟨?_, ?_, ?_⟩
  · intro ks hks
    refine ⟨exists_spells hks, ?_⟩
    intro text htext
    obtain ⟨cs, hcs, hcodes, hkinds⟩ := codes_of_spells htext
    refine ⟨cs, hcs, hcodes, ?_⟩
    intro processors workers
    refine ⟨_, Decoding.decode_eq_unlinked processors cs.toArray workers, ?_⟩
    rw [Program.kinds_unlinked]
    exact hkinds
  · intro l src p hp
    obtain ⟨cs, hcs, _⟩ := Linking.except_bind_ok.1 hp
    refine ⟨cs, hcs, ?_, ?_⟩
    · apply exists_spells
      intro k hk
      obtain ⟨c, _, rfl⟩ := List.mem_map.1 hk
      exact Code.kind_known c
    · intro text htext l'
      obtain ⟨cs', _, hcodes, hkinds⟩ := codes_of_spells htext
      rw [← hp]
      exact Loader.compile_congr hcodes hcs hkinds l' l none
  · intro src src' cs cs' hcs hcs' hsize halike l l' done
    exact Loader.compile_congr hcs hcs' (Code.kinds_of_alike hsize halike) l l' done

/-- A text with white space of several bytes between its symbols, the same kinds
in Greek letters, and again in bytes that are no text at all. -/
theorem respelling_round_trip_bytes :
    let ks : List Kind := [.dup, .swap]
    let text :=
      String.ofList ['a', 'b', '\u3000', 'a', '\n', 'b', 'a', 'a', ' ', 'b', 'b', '\u2003']
    let greek : Bytes := [206, 177, 206, 178, 206, 177, 206, 178, 32, 206, 177, 206, 177, 206, 178,
      206, 178]
    let bytes : Bytes := [255, 254, 255, 254, 133, 133, 160, 160]
    let p : Program := #[⟨.dup, 0, 1, 1, 0⟩, ⟨.swap, 1, halt, halt, 1⟩]
    let l := Loader.new Program.Store.standard 2 0 1
    (∀ k ∈ ks, k.Known) ∧ Spells ks text ∧
      codes (Bytes.ofText text) = .ok #[⟨97, 98, 97, 98⟩, ⟨97, 97, 98, 98⟩] ∧
      l.compile none greek = .ok p ∧ l.compile none (Bytes.ofText text) = .ok p ∧
      l.compile none bytes = .ok p := by
  intro ks text greek bytes p l
  have hknown : ∀ k ∈ ks, k.Known := by decide
  have hspells : Spells ks text := by
    refine ⟨[⟨97, 98, 97, 98⟩, ⟨97, 97, 98, 98⟩], rfl, ?_⟩
    rw [String.toList_ofList]
    show Spaced ['a', 'b', 'a', 'b', 'a', 'a', 'b', 'b'] _
    exact .symbol (.symbol (.blank (by decide) (.symbol (.blank (by decide) (.symbol (.symbol
      (.symbol (.blank (by decide) (.symbol (.symbol (.blank (by decide) .nil)))))))))))
  have hgreek : l.compile none greek = .ok p := by
    rw [Loader.compile_eq]
    cbv
  have hcodes : codes greek = .ok #[⟨945, 946, 945, 946⟩, ⟨945, 945, 946, 946⟩] := by cbv
  have hbytes : codes bytes = .ok #[⟨255, 254, 255, 254⟩, ⟨133, 133, 160, 160⟩] := by cbv
  obtain ⟨hread, hagain, halike⟩ := respelling_round_trip
  obtain ⟨cs, hcs, hread, _⟩ := (hread ks hknown).2 text hspells
  obtain rfl : [⟨97, 98, 97, 98⟩, ⟨97, 97, 98, 98⟩] = cs := Except.ok.inj hcs
  obtain ⟨cs', hcs', _, hloads⟩ := hagain l greek p hgreek
  rw [hcodes, Except.ok.injEq] at hcs'
  subst hcs'
  refine ⟨hknown, hspells, hread, hgreek, hloads text hspells l, ?_⟩
  rw [← hgreek]
  refine halike _ _ _ _ hbytes hcodes rfl ?_ l l none
  -- both have equal symbols at the same places
  have hab : ∀ a b a' b' : Symbol, a ≠ b → a' ≠ b' →
      Code.Alike ⟨a, b, a, b⟩ ⟨a', b', a', b'⟩ ∧ Code.Alike ⟨a, a, b, b⟩ ⟨a', a', b', b'⟩ := by
    intro a b a' b' hne hne'
    constructor
    all_goals
      rintro (_ | _ | _ | _ | i) (_ | _ | _ | _ | j)
      all_goals simp [Quad.toList, hne, hne', hne.symm, hne'.symm]
  rintro (_ | _ | i) c c' hc hc'
  · rw [← Option.some.inj hc, ← Option.some.inj hc']
    exact (hab _ _ _ _ (by decide) (by decide)).1
  · rw [← Option.some.inj hc, ← Option.some.inj hc']
    exact (hab _ _ _ _ (by decide) (by decide)).2
  · exact absurd hc (by simp)

end Source

end Tetraglyph
