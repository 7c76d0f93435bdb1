/-
  Tetraglyph.Proofs.Pattern.Equality
  ──────────────────────────────────
  **PATTERNS SAY WHAT IS EQUAL, AND NOTHING ELSE.**

  The pattern of four things is made one thing after another.  Each gets the
  number of the first thing before it that is equal to it, or the next free
  number.  It is enough to look for the FIRST such thing, because things that
  are equal to one thing are equal to each other, and so have one number.
  Hence two places have one number exactly if the things there are equal.

  Patterns made in this way are canonical, and the fifteen canonical patterns
  have fifteen different kinds.  So the kind says all that the pattern says.

      Quad.get   — the thing at one of the four places
      numberOf   — the number of a thing behind others
      Numbered   — numbers that say which things are equal

  Main results

      numberOf_cases           — a number is that of an equal thing, or free
      Numbered.concat          — one more thing keeps things numbered
      patternOf_get_eq_iff     — equal numbers stand at equal things
      kind_injective           — canonical patterns have different kinds
      kind_patternOf_eq_iff    — one kind means the same things are equal
      patterns_capture_equality — all of this of codes and of numerals
-/
import Tetraglyph.Proofs.Machine.Ideal
import Tetraglyph.Proofs.Pattern

namespace Tetraglyph

/-- The thing at one of the four places. -/
def Quad.get {α : Type} (q : Quad α) : Fin 4 → α
  | 0 => q.a
  | 1 => q.b
  | 2 => q.c
  | 3 => q.d

/-! ## §1. Numbering things. -/

section

variable {α : Type} {eq : α → α → Bool}

/-- The number of a thing behind others that have numbers: that of the first
one equal to it, or else the free one. -/
def numberOf (eq : α → α → Bool) (x : α) (free : Int) : List (α × Int) → Int
  | [] => free
  | (y, n) :: seen => if eq x y then n else numberOf eq x free seen

/-- A pattern is made of numbers, one after another. -/
theorem patternOf_eq_numberOf (eq : α → α → Bool) (q : Quad α) :
    patternOf eq q =
      let pb := numberOf eq q.b 1 [(q.a, 0)]
      let pc := numberOf eq q.c (pb + 1) [(q.a, 0), (q.b, pb)]
      let pd := numberOf eq q.d (max (pb + 1) (pc + 1)) [(q.a, 0), (q.b, pb), (q.c, pc)]
      ⟨0, pb, pc, pd⟩ := rfl

/-- **A number is that of an equal thing, or free** if there is none. -/
theorem numberOf_cases (eq : α → α → Bool) (x : α) (free : Int) (seen : List (α × Int)) :
    (∃ u ∈ seen, eq x u.1 = true ∧ numberOf eq x free seen = u.2) ∨
      ((∀ u ∈ seen, eq x u.1 = false) ∧ numberOf eq x free seen = free) := by
  induction seen with
  | nil => exact .inr ⟨fun u hu => absurd hu List.not_mem_nil, rfl⟩
  | cons v seen ih =>
      show (∃ u ∈ v :: seen, _ ∧ (if eq x v.1 then v.2 else numberOf eq x free seen) = u.2) ∨
        (_ ∧ (if eq x v.1 then v.2 else numberOf eq x free seen) = free)
      cases hv : eq x v.1 with
      | true => exact .inl ⟨v, List.mem_cons_self, hv, if_pos rfl⟩
      | false =>
          rw [if_neg (by decide)]
          rcases ih with ⟨u, hu, heq, hn⟩ | ⟨hnone, hn⟩
          · exact .inl ⟨u, List.mem_cons_of_mem v hu, heq, hn⟩
          · exact .inr ⟨List.forall_mem_cons.2 ⟨hv, hnone⟩, hn⟩

/-- Things with numbers below `free` that say which of them are equal. -/
structure Numbered (eq : α → α → Bool) (seen : List (α × Int)) (free : Int) : Prop where
  captures : ∀ u ∈ seen, ∀ v ∈ seen, u.2 = v.2 ↔ eq u.1 v.1 = true
  below : ∀ u ∈ seen, u.2 < free

variable (heq : Equivalence fun x y => eq x y = true)

include heq

/-- The number of one more thing says what it is equal to. -/
theorem Numbered.numberOf_eq_iff {seen : List (α × Int)} {free : Int}
    (h : Numbered eq seen free) (x : α) {u : α × Int} (hu : u ∈ seen) :
    numberOf eq x free seen = u.2 ↔ eq x u.1 = true := by
  rcases numberOf_cases eq x free seen with ⟨v, hv, hxv, hn⟩ | ⟨hnone, hn⟩
  · -- what is equal to the first one found is equal to `x`, and the other way
    rw [hn, h.captures v hv u hu]
    exact ⟨fun hvu => heq.trans hxv hvu, fun hxu => heq.trans (heq.symm hxv) hxu⟩
  · rw [hn, hnone u hu]
    have := h.below u hu
    exact iff_of_false (by omega) (by decide)

/-- **One more thing keeps things numbered.** -/
theorem Numbered.concat {seen : List (α × Int)} {free free' : Int} (h : Numbered eq seen free)
    (x : α) (hle : free ≤ free') (hlt : numberOf eq x free seen < free') :
    Numbered eq (seen ++ [(x, numberOf eq x free seen)]) free' := by
  have hnew := fun {u : α × Int} (hu : u ∈ seen) => h.numberOf_eq_iff heq x hu
  refine ⟨?_, ?_⟩
  · intro u hu v hv
    rw [List.mem_append, List.mem_singleton] at hu hv
    rcases hu with hu | rfl <;> rcases hv with hv | rfl
    · exact h.captures u hu v hv
    · rw [eq_comm, hnew hu]
      exact ⟨fun hxu => heq.symm hxu, fun hux => heq.symm hux⟩
    · exact hnew hv
    · exact iff_of_true rfl (heq.refl x)
  · intro u hu
    rw [List.mem_append, List.mem_singleton] at hu
    rcases hu with hu | rfl
    · have := h.below u hu
      omega
    · exact hlt

theorem numbered_singleton (x : α) : Numbered eq [(x, 0)] 1 := by
  refine ⟨?_, ?_⟩
  · intro u hu v hv
    rw [List.mem_singleton.1 hu, List.mem_singleton.1 hv]
    exact iff_of_true rfl (heq.refl x)
  · intro u hu
    rw [List.mem_singleton.1 hu]
    exact Int.zero_lt_one

/-- The four things of a pattern are numbered. -/
theorem patternOf_numbered (q : Quad α) :
    let p := patternOf eq q
    ∃ free, Numbered eq [(q.a, p.a), (q.b, p.b), (q.c, p.c), (q.d, p.d)] free := by
  rw [patternOf_eq_numberOf]
  intro p
  have hb : 0 ≤ p.b := by
    rcases numberOf_cases eq q.b 1 [(q.a, 0)] with ⟨u, hu, _, hn⟩ | ⟨_, hn⟩
    · rw [List.mem_singleton.1 hu] at hn
      exact Int.le_of_eq hn.symm
    · exact Int.le_trans (by decide) (Int.le_of_eq hn.symm)
  have h₁ := numbered_singleton heq q.a
  have h₂ : Numbered eq [(q.a, p.a), (q.b, p.b)] (p.b + 1) :=
    h₁.concat heq q.b (by omega) (Int.lt_succ p.b)
  have h₃ : Numbered eq [(q.a, p.a), (q.b, p.b), (q.c, p.c)] (max (p.b + 1) (p.c + 1)) :=
    h₂.concat heq q.c (Int.le_max_left _ _)
      (Int.lt_of_lt_of_le (Int.lt_succ p.c) (Int.le_max_right _ _))
  exact ⟨max (max (p.b + 1) (p.c + 1)) (p.d + 1), h₃.concat heq q.d (Int.le_max_left _ _)
    (Int.lt_of_lt_of_le (Int.lt_succ p.d) (Int.le_max_right _ _))⟩

/-- **Equal numbers stand at equal things.** -/
theorem patternOf_get_eq_iff (q : Quad α) (i j : Fin 4) :
    (patternOf eq q).get i = (patternOf eq q).get j ↔ eq (q.get i) (q.get j) = true := by
  obtain ⟨free, h⟩ := patternOf_numbered heq q
  have hmem : ∀ i : Fin 4, (q.get i, (patternOf eq q).get i) ∈
      [(q.a, (patternOf eq q).a), (q.b, (patternOf eq q).b), (q.c, (patternOf eq q).c),
        (q.d, (patternOf eq q).d)] := by
    intro i
    match i with
    | 0 | 1 | 2 | 3 => simp [Quad.get]
  exact h.captures _ (hmem i) _ (hmem j)

end

/-! ## §2. Canonical patterns. -/

namespace Pattern

/-- Every place of a canonical pattern holds an earlier number or the next. -/
theorem canonical_grows : ∀ p ∈ canonical,
    Quad.get p 0 = 0 ∧ ∀ i, 0 < i → ∃ j < i, Quad.get p i ≤ Quad.get p j + 1 := by
  decide

/-- **Canonical patterns have different kinds.** -/
theorem kind_injective : ∀ p ∈ canonical, ∀ p' ∈ canonical, kind p = kind p' → p = p' := by
  decide

end Pattern

theorem patternOf_mem_canonical {α : Type} (eq : α → α → Bool) (q : Quad α) :
    patternOf eq q ∈ Pattern.canonical := by
  unfold patternOf
  -- only the outcomes of the comparisons count
  generalize eq q.b q.a = ba, eq q.c q.a = ca, eq q.c q.b = cb, eq q.d q.a = da,
    eq q.d q.b = db, eq q.d q.c = dc
  revert ba ca cb da db dc
  decide

/-- **One kind means that the same things are equal**, whatever they are. -/
theorem kind_patternOf_eq_iff {α β : Type} {eq : α → α → Bool} {eq' : β → β → Bool}
    (heq : Equivalence fun x y => eq x y = true) (heq' : Equivalence fun x y => eq' x y = true)
    (q : Quad α) (q' : Quad β) :
    (patternOf eq q).kind = (patternOf eq' q').kind ↔
      ∀ i j, eq (q.get i) (q.get j) = true ↔ eq' (q'.get i) (q'.get j) = true := by
  constructor
  · intro hkind i j
    have hpattern := Pattern.kind_injective _ (patternOf_mem_canonical eq q) _
      (patternOf_mem_canonical eq' q') hkind
    rw [← patternOf_get_eq_iff heq, ← patternOf_get_eq_iff heq', hpattern]
  · intro h
    have hpair : ∀ i j, eq (q.get i) (q.get j) = eq' (q'.get i) (q'.get j) :=
      fun i j => Bool.eq_iff_iff.2 (h i j)
    exact congrArg Pattern.kind (patternOf_eq (hpair 1 0) (hpair 2 0) (hpair 2 1) (hpair 3 0)
      (hpair 3 1) (hpair 3 2))

/-! ## §3. Codes and numerals. -/

theorem equivalence_symbols : Equivalence fun x y : Symbol => (x == y) = true := by
  simp only [beq_iff_eq]
  exact ⟨fun _ => rfl, fun h => h.symm, fun h h' => h.trans h'⟩

theorem equivalence_integers : Equivalence fun x y : Int => decide (x = y) = true := by
  simp only [decide_eq_true_iff]
  exact ⟨fun _ => rfl, fun h => h.symm, fun h h' => h.trans h'⟩

/-- Well-formed numerals spell what the integers they denote spell. -/
theorem Machine.spelled_toList {q : Quad Numeral} (hq : ∀ i, (q.get i).WellFormed) :
    Machine.spelled q.toList = Ideal.spelled (q.map Numeral.toInt) := by
  refine Machine.spelled_eq ?_
  intro v hv
  simp only [List.mem_cons, List.not_mem_nil, or_false] at hv
  rcases hv with rfl | rfl | rfl | rfl
  · exact hq 0
  · exact hq 1
  · exact hq 2
  · exact hq 3

/-- **Patterns say what is equal, and nothing else.**  Under any equality the
pattern of four things has one number at two places exactly if the things
there are equal; it begins with 0, and every later number is by one larger at
most than some number before it.  So two codes spell one kind exactly if they
have equal symbols at the same places; four well-formed numerals spell the
kind of a code exactly if they denote equal integers where the code has equal
symbols; and every kind is spelled by its spelling. -/
theorem patterns_capture_equality :
    (∀ (α : Type) (eq : α → α → Bool), Equivalence (fun x y => eq x y = true) →
      ∀ q : Quad α, let p := patternOf eq q
        (∀ i j, p.get i = p.get j ↔ eq (q.get i) (q.get j) = true) ∧
          p.get 0 = 0 ∧ ∀ i, 0 < i → ∃ j < i, p.get i ≤ p.get j + 1) ∧
    (∀ c c' : Code, c.kind = c'.kind ↔ ∀ i j, c.get i = c.get j ↔ c'.get i = c'.get j) ∧
    (∀ q : Quad Numeral, (∀ i, (q.get i).WellFormed) → ∀ c : Code,
      Machine.spelled q.toList = c.kind ↔
        ∀ i j, (q.get i).toInt = (q.get j).toInt ↔ c.get i = c.get j) ∧
    ∀ k ∈ Kind.all, ∃ c, k.spelling = .ok c ∧ c.kind = k := by
  refine ⟨?_, ?_, ?_, ?_⟩
  · intro α eq heq q p
    exact ⟨patternOf_get_eq_iff heq q, Pattern.canonical_grows p (patternOf_mem_canonical eq q)⟩
  · intro c c'
    have h := kind_patternOf_eq_iff equivalence_symbols equivalence_symbols c c'
    simp only [beq_iff_eq] at h
    exact h
  · intro q hq c
    have h := kind_patternOf_eq_iff equivalence_integers equivalence_symbols
      (q.map Numeral.toInt) c
    have hget : ∀ i, (q.map Numeral.toInt).get i = (q.get i).toInt := by
      intro i
      match i with
      | 0 | 1 | 2 | 3 => rfl
    simp only [beq_iff_eq, decide_eq_true_iff, hget] at h
    rw [Machine.spelled_toList hq]
    exact h
  · intro k hk
    obtain ⟨c, hc⟩ := Kind.exists_spelling hk
    exact ⟨c, hc, (Kind.spelling_reads_back hc).1⟩

/-- The empty numeral and the digit 0 are one symbol: with a 1 between them
they spell what abaa spells. -/
theorem patterns_capture_equality_zero :
    let q : Quad Numeral := ⟨Numeral.empty, Numeral.one, Numeral.zero, Numeral.empty⟩
    (∀ i, (q.get i).WellFormed) ∧ Machine.spelled q.toList = Code.kind ⟨97, 98, 97, 97⟩ ∧
      Machine.spelled q.toList ≠ Code.kind ⟨97, 98, 99, 97⟩ := by
  intro q
  have hq : ∀ i, (q.get i).WellFormed := by
    intro i
    match i with
    | 0 | 3 => exact .inl rfl
    | 1 => exact Numeral.canonical_one.wellFormed
    | 2 => exact Numeral.canonical_zero.wellFormed
  refine ⟨hq, ((patterns_capture_equality.2.2.1 q hq _).2 (by decide)), ?_⟩
  rw [Ne, patterns_capture_equality.2.2.1 q hq]
  decide

end Tetraglyph
