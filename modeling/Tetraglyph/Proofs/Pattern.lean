/-
  Tetraglyph.Proofs.Pattern
  ─────────────────────────
  **SPELLINGS THAT READ BACK.**

  Only which of four things are equal counts for their pattern.  So codes
  that are ALIKE, with equal symbols at the same places, spell one kind.  The
  spelling of a kind is one of its patterns, written with the letters a to d;
  such a pattern is its own pattern, and the letters are no white space.
  Hence the spelling of a kind spells that kind, and the fifteen kinds all
  have one.

      Code.Alike   — which of the four symbols are equal is the same

  Main results

      patternOf_congr     — only which of four things are equal counts
      Code.Alike.kind_eq  — codes that are alike spell one kind
      spelling_reads_back — the spelling of a kind spells it, in letters
      exists_spellings    — kinds with a meaning have spellings
-/
import Tetraglyph.Pattern
import Tetraglyph.Text.Blank

namespace Tetraglyph

/-! ## §1. What is equal. -/

/-- Patterns are equal if each of the four things is equal to the same ones
before it. -/
theorem patternOf_eq {α β : Type} {eq : α → α → Bool} {eq' : β → β → Bool} {q : Quad α}
    {q' : Quad β} (hba : eq q.b q.a = eq' q'.b q'.a) (hca : eq q.c q.a = eq' q'.c q'.a)
    (hcb : eq q.c q.b = eq' q'.c q'.b) (hda : eq q.d q.a = eq' q'.d q'.a)
    (hdb : eq q.d q.b = eq' q'.d q'.b) (hdc : eq q.d q.c = eq' q'.d q'.c) :
    patternOf eq q = patternOf eq' q' := by
  unfold patternOf
  rw [hba, hca, hcb, hda, hdb, hdc]

/-- **Only which of four things are equal counts.** -/
theorem patternOf_congr {α β : Type} {eq : α → α → Bool} {eq' : β → β → Bool} {f : α → β}
    {q : Quad α} (h : ∀ x ∈ q.toList, ∀ y ∈ q.toList, eq x y = eq' (f x) (f y)) :
    patternOf eq q = patternOf eq' (q.map f) := by
  have ha : q.a ∈ q.toList := by simp [Quad.toList]
  have hb : q.b ∈ q.toList := by simp [Quad.toList]
  have hc : q.c ∈ q.toList := by simp [Quad.toList]
  have hd : q.d ∈ q.toList := by simp [Quad.toList]
  exact patternOf_eq (h _ hb _ ha) (h _ hc _ ha) (h _ hc _ hb) (h _ hd _ ha) (h _ hd _ hb)
    (h _ hd _ hc)

/-- Two codes have equal symbols at the same places. -/
def Code.Alike (c c' : Code) : Prop :=
  ∀ i j : Nat, c.toList[i]? = c.toList[j]? ↔ c'.toList[i]? = c'.toList[j]?

/-- **Codes that are alike spell one kind.** -/
theorem Code.Alike.kind_eq {c c' : Code} (h : c.Alike c') : c.kind = c'.kind := by
  have hpair : ∀ {x y x' y' : Symbol}, (some x = some y ↔ some x' = some y') →
      (x == y) = (x' == y') := by
    intro x y x' y' hxy
    rw [Bool.eq_iff_iff, beq_iff_eq, beq_iff_eq]
    simpa using hxy
  exact congrArg Pattern.kind (patternOf_eq (hpair (h 1 0)) (hpair (h 2 0)) (hpair (h 2 1))
    (hpair (h 3 0)) (hpair (h 3 1)) (hpair (h 3 2)))

/-! ## §2. The spelling of a kind. -/

/-- A symbol that is one of the letters a to d. -/
def Symbol.IsLetter (s : Symbol) : Prop := 97 ≤ s ∧ s ≤ 100

instance (s : Symbol) : Decidable s.IsLetter := inferInstanceAs (Decidable (_ ∧ _))

/-- A letter is its own code point, and no white space. -/
theorem Symbol.IsLetter.toChar {s : Symbol} (h : s.IsLetter) :
    (s.toChar.toNat : Int) = s ∧ Text.isBlank s.toChar = false := by
  have hcases : ∀ n : Int, 97 ≤ n ∧ n ≤ 100 → n = 97 ∨ n = 98 ∨ n = 99 ∨ n = 100 := by omega
  rcases hcases s h with rfl | rfl | rfl | rfl
  all_goals exact ⟨by decide, by decide⟩

/-- A canonical pattern in the letters a to d is a code with this pattern. -/
theorem Pattern.canonical_letters : ∀ p ∈ Pattern.canonical,
    Code.pattern (p.map (97 + ·)) = p ∧ ∀ s ∈ (p.map (97 + ·)).toList, Symbol.IsLetter s := by
  decide

/-- **The spelling of a kind spells it**, in letters. -/
theorem Kind.spelling_reads_back {k : Kind} {c : Code} (h : k.spelling = .ok c) :
    c.kind = k ∧ ∀ s ∈ c.toList, s.IsLetter := by
  unfold spelling spelling? at h
  cases hfind : Pattern.canonical.find? fun p => p.kind == k with
  | none =>
      rw [hfind] at h
      exact absurd h (by simp)
  | some p =>
      rw [hfind] at h
      obtain rfl : p.map (97 + ·) = c := Except.ok.inj h
      obtain ⟨hpattern, hletters⟩ :=
        Pattern.canonical_letters p (List.mem_of_find?_eq_some hfind)
      refine ⟨?_, hletters⟩
      unfold Code.kind
      rw [hpattern]
      simpa using List.find?_some hfind

/-- The fifteen kinds have a spelling. -/
theorem Kind.exists_spelling {k : Kind} (h : k ∈ Kind.all) : ∃ c, k.spelling = .ok c := by
  have hall : ∀ k ∈ Kind.all, k.spelling?.isSome = true := by decide
  obtain ⟨c, hc⟩ := Option.isSome_iff_exists.1 (hall k h)
  refine ⟨c, ?_⟩
  unfold spelling
  rw [hc]

/-! ## §3. The spellings of many kinds. -/

/-- **Kinds with a meaning have spellings.** -/
theorem Kind.exists_spellings {ks : List Kind} (h : ∀ k ∈ ks, k ∈ Kind.all) :
    ∃ cs, ks.mapM Kind.spelling = .ok cs := by
  induction ks with
  | nil => exact ⟨[], rfl⟩
  | cons k ks ih =>
      obtain ⟨hk, hks⟩ := List.forall_mem_cons.1 h
      obtain ⟨c, hc⟩ := exists_spelling hk
      obtain ⟨cs, hcs⟩ := ih hks
      refine ⟨c :: cs, ?_⟩
      rw [List.mapM_cons, hc, hcs]
      rfl

/-- Spellings of kinds spell them, in letters. -/
theorem Kind.spellings_read_back {ks : List Kind} {cs : List Code}
    (h : ks.mapM Kind.spelling = .ok cs) :
    cs.map Code.kind = ks ∧ ∀ c ∈ cs, ∀ s ∈ c.toList, s.IsLetter := by
  induction ks generalizing cs with
  | nil =>
      obtain rfl : [] = cs := Except.ok.inj h
      exact ⟨rfl, fun c hc => absurd hc List.not_mem_nil⟩
  | cons k ks ih =>
      rw [List.mapM_cons] at h
      cases hc : k.spelling with
      | error e =>
          rw [hc] at h
          exact absurd h (by simp [bind, Except.bind])
      | ok c =>
          cases hcs : ks.mapM Kind.spelling with
          | error e =>
              rw [hc, hcs] at h
              exact absurd h (by simp [bind, Except.bind])
          | ok rest =>
              rw [hc, hcs] at h
              obtain rfl : c :: rest = cs := Except.ok.inj h
              obtain ⟨hkind, hletters⟩ := spelling_reads_back hc
              obtain ⟨hkinds, hrest⟩ := ih hcs
              refine ⟨?_, List.forall_mem_cons.2 ⟨hletters, hrest⟩⟩
              rw [List.map_cons, hkind, hkinds]

end Tetraglyph
