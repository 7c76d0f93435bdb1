/-
  Tetraglyph.Proofs.Program.Caching
  ─────────────────────────────────
  **A CACHE THAT MAKES NO DIFFERENCE.**

  A loader knows a source by its id.  As long as ids tell the sources apart
  and the cache is one of what was used last, what it finds there is the
  program of the very source that is asked for: a load gives the program of
  the source, whatever was loaded before, however many programs are remembered
  and whoever decodes them.  A load that fails has not found the source, and
  fails as the source does.

      Source.program   — the program of a source, without loader and cache
      BraceFailure     — what is wrong with the braces of a program
      Faithful         — all that a loader remembers are programs of the
                         sources, under their ids

  Main results

      compile_eq       — workers and processors make no difference
      load_faithful    — nor does the cache
      load_error_iff   — which loads fail
      link_error       — linking fails for the braces alone
      program_error    — a source fails for a reason of its syntax
-/
import Tetraglyph.Proofs.Program.Loaded

namespace Tetraglyph

/-! ## §1. The program of a source. -/

/-- The program of a source: its codes, decoded and linked. -/
def Source.program (src : Bytes) : Except Failure Program := do
  let cs ← codes src
  Linking.link (Program.unlinked (cs.toList.map Code.kind))

/-- **The source is rejected**, because its symbols do not make up codes, or
because the braces of its codes do not match. -/
def Source.Rejected (src : Bytes) : Prop :=
  (∃ f, codes src = .error f) ∨
    ∃ cs f, codes src = .ok cs ∧
      Linking.link (Program.unlinked (cs.toList.map Code.kind)) = .error f

theorem Source.rejected_iff {src : Bytes} : Rejected src ↔ ∃ f, program src = .error f := by
  unfold Rejected program
  cases hcs : codes src with
  | error f => exact ⟨fun _ => ⟨f, rfl⟩, fun _ => .inl ⟨f, rfl⟩⟩
  | ok cs =>
      constructor
      · rintro (⟨f, hf⟩ | ⟨cs', f, hcs', hlink⟩)
        · exact absurd hf (by simp)
        · obtain rfl : cs = cs' := Except.ok.inj hcs'
          exact ⟨f, hlink⟩
      · rintro ⟨f, hlink⟩
        exact .inr ⟨cs, f, rfl, hlink⟩

/-- **Workers and processors make no difference.** -/
theorem Loader.compile_eq {γ : Type} (l : Loader γ) (src : Bytes) :
    l.compile none src = Source.program src := by
  unfold compile Source.program
  congr 1
  funext cs
  unfold link
  rw [Decoding.decode_eq_unlinked]
  rfl

/-! ## §2. Reasons of syntax. -/

namespace Linking

/-- What is wrong with the braces of a program. -/
def BraceFailure (f : Failure) : Prop :=
  ∃ id, f = .syntactic .openingBraceExpected id ∨ f = .syntactic .closingBraceExpected id

theorem linkOne_error {st : Progress} {id : Nat} {f : Failure} (h : linkOne st id = .error f) :
    BraceFailure f := by
  unfold linkOne at h
  split at h
  next => exact absurd h (by simp)
  next ix _ =>
      dsimp only at h
      split at h
      next => exact absurd h (by simp)
      next =>
          split at h
          next => exact ⟨_, .inl (Except.error.inj h).symm⟩
          next => exact absurd h (by simp)
      next => exact absurd h (by simp)

theorem pass_error {ids : List Nat} {st : Progress} {f : Failure}
    (h : ids.foldlM linkOne st = .error f) : BraceFailure f := by
  induction ids generalizing st with
  | nil => exact absurd h (by simp [pure, Except.pure])
  | cons id ids ih =>
      rw [List.foldlM_cons] at h
      cases hone : linkOne st id with
      | error g =>
          rw [hone] at h
          obtain rfl : g = f := Except.error.inj h
          exact linkOne_error hone
      | ok st' =>
          rw [hone] at h
          exact ih h

/-- Linking fails for what is wrong with the braces. -/
theorem link_error {p : Program} {f : Failure} (h : link p = .error f) : BraceFailure f := by
  unfold link at h
  cases hpass : (List.range p.size).foldlM linkOne ⟨p, []⟩ with
  | error g =>
      rw [hpass] at h
      obtain rfl : g = f := Except.error.inj h
      exact pass_error hpass
  | ok st =>
      rw [hpass] at h
      dsimp only [bind, Except.bind] at h
      split at h
      next => exact absurd h (by simp [pure, Except.pure])
      next => exact ⟨_, .inr (Except.error.inj h).symm⟩

end Linking

theorem Source.codes_error {src : Bytes} {f : Failure} (h : codes src = .error f) :
    f = .syntactic .codeLengthInvalid (-1) := by
  unfold codes at h
  split at h
  next => exact absurd h (by simp)
  next => exact (Except.error.inj h).symm

/-- **A source fails for a reason of its syntax.** -/
theorem Source.program_error {src : Bytes} {f : Failure} (h : program src = .error f) :
    ∃ kind i, f = .syntactic kind i := by
  unfold program at h
  cases hcs : codes src with
  | error g =>
      rw [hcs] at h
      obtain rfl : g = f := Except.error.inj h
      exact ⟨_, _, codes_error hcs⟩
  | ok cs =>
      rw [hcs] at h
      obtain ⟨i, hf | hf⟩ := Linking.link_error h
      · exact ⟨_, i, hf⟩
      · exact ⟨_, i, hf⟩

/-! ## §3. Loads through a cache. -/

namespace Loader

variable {γ : Type} {view : γ → Cache Content.Id Program} {l : Loader γ}

/-- **A loader remembers nothing but programs of some sources**, under their
ids, in a cache of what was used last.  The ids tell the sources apart. -/
structure Faithful (view : γ → Cache Content.Id Program) (srcs : List Bytes) (l : Loader γ) :
    Prop where
  /-- What is asked of the cache. -/
  lru : l.store.IsLru view
  /-- What is asked of the ids. -/
  apart : Content.TellApart l.store.hash srcs
  /-- What is remembered. -/
  entries : ∀ e ∈ (view l.cache).entries, ∃ src ∈ srcs,
    e.1 = l.store.hash src ∧ Source.program src = .ok e.2

theorem faithful_new {store : Program.Store γ} (hlru : store.IsLru view) {srcs : List Bytes}
    (hids : Content.TellApart store.hash srcs) (processors : Nat) (workers cacheSize : Int) :
    (Loader.new store processors workers cacheSize).Faithful view srcs := by
  refine ⟨hlru, hids, fun e he => ?_⟩
  rw [hlru.new_loader] at he
  exact absurd he List.not_mem_nil

/-- What is found under the id of a source is its program. -/
theorem Faithful.program_eq {srcs : List Bytes} (hl : l.Faithful view srcs) {src : Bytes}
    (hsrc : src ∈ srcs) {p : Program} {cache : γ} (hfind : l.find? src = some (p, cache)) :
    Source.program src = .ok p := by
  obtain ⟨src', hsrc', hid, hp⟩ := hl.entries _ (Cache.mem_of_get? (hl.lru.found hfind)).1
  obtain rfl : src = src' := hl.apart src hsrc src' hsrc' hid
  exact hp

/-- A look leaves a loader that remembers nothing else. -/
theorem Faithful.found {srcs : List Bytes} (hl : l.Faithful view srcs) {src : Bytes} {p : Program}
    {cache : γ} (hfind : l.find? src = some (p, cache)) :
    ({ l with cache } : Loader γ).Faithful view srcs :=
  ⟨hl.lru, hl.apart, fun e he => hl.entries e ((Cache.mem_of_get? (hl.lru.found hfind)).2 e he)⟩

/-- The program of a source may be remembered. -/
theorem Faithful.remember {srcs : List Bytes} (hl : l.Faithful view srcs) {src : Bytes}
    (hsrc : src ∈ srcs) {p : Program} (hp : Source.program src = .ok p) :
    (l.remember src p).Faithful view srcs := by
  refine ⟨hl.lru, hl.apart, fun e he => ?_⟩
  rw [hl.lru.remember] at he
  rcases Cache.mem_of_add he with rfl | he
  · exact ⟨src, hsrc, rfl, hp⟩
  · exact hl.entries e he

/-- Which way a load goes that is not called off. -/
theorem load_cases (l : Loader γ) (src : Bytes) :
    (∃ p cache, l.find? src = some (p, cache) ∧
      l.load none src = ⟨.ok p, true, none, { l with cache }⟩) ∨
    (∃ p, Source.program src = .ok p ∧
      l.load none src = ⟨.ok p, false, l.workersFor src, l.remember src p⟩) ∨
    ∃ f, Source.program src = .error f ∧
      l.load none src = ⟨.error f, false, l.workersFor src, l⟩ := by
  rw [← l.compile_eq src]
  rcases l.load_ways none src with hfound | ⟨p, _, hp, hload⟩ | ⟨f, _, hf, hload⟩
  · exact .inl hfound
  · exact .inr (.inl ⟨p, hp, hload⟩)
  · exact .inr (.inr ⟨f, hf, hload⟩)

/-- **The cache makes no difference.** -/
theorem load_faithful {srcs : List Bytes} (hl : l.Faithful view srcs) {src : Bytes}
    (hsrc : src ∈ srcs) : (l.load none src).result = Source.program src ∧
      (l.load none src).loader.Faithful view srcs := by
  rcases l.load_cases src with ⟨p, cache, hfind, hload⟩ | ⟨p, hp, hload⟩ | ⟨f, hf, hload⟩
  · rw [hload, hl.program_eq hsrc hfind]
    exact ⟨rfl, hl.found hfind⟩
  · rw [hload, hp]
    exact ⟨rfl, hl.remember hsrc hp⟩
  · rw [hload, hf]
    exact ⟨rfl, hl⟩

/-- **A load fails if the source is not found and is rejected.** -/
theorem load_error_iff (l : Loader γ) (src : Bytes) :
    (∃ f, (l.load none src).result = .error f) ↔
      (l.load none src).hit = false ∧ Source.Rejected src := by
  rw [Source.rejected_iff]
  rcases l.load_cases src with ⟨p, cache, _, hload⟩ | ⟨p, hp, hload⟩ | ⟨f, hf, hload⟩
  · rw [hload]
    simp
  · rw [hload, hp]
    simp
  · rw [hload, hf]
    simp

/-- What a load fails with is a reason of syntax. -/
theorem load_error {src : Bytes} {f : Failure} (h : (l.load none src).result = .error f) :
    ∃ kind i, f = .syntactic kind i := by
  rcases l.load_cases src with ⟨p, cache, _, hload⟩ | ⟨p, _, hload⟩ | ⟨g, hg, hload⟩
  · rw [hload] at h
    exact absurd h (by simp)
  · rw [hload] at h
    exact absurd h (by simp)
  · rw [hload] at h
    obtain rfl : g = f := Except.error.inj h
    exact Source.program_error hg

end Loader

end Tetraglyph
