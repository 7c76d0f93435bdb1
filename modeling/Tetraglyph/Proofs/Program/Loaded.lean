/-
  Tetraglyph.Proofs.Program.Loaded
  ────────────────────────────────
  **PROGRAMS THAT CAN BE RUN.**

  A program is `Loaded` if codes were decoded and linked to it, or if a
  loader gave it out.  A loader gives out what it has just linked, or what
  it remembers; with a cache of what was used last, it remembers nothing but
  what it has linked before.  So a loaded program is the linked program of
  some kinds, each of them known.

      Loader.Client    — the loaders a client can hold: a new one, and what
                         any load leaves
      Program.Loaded   — the programs that loading gives out

  Main results

      Code.kind_known  — no code spells an unknown kind
      Loaded.linked    — a loaded program is linked, of known kinds
-/
import Tetraglyph.Loader
import Tetraglyph.Proofs.Cache
import Tetraglyph.Proofs.Program.Linking

namespace Tetraglyph

/-! ## §1. Codes spell known kinds. -/

/-- One of the fifteen kinds with a meaning. -/
def Kind.Known (k : Kind) : Prop := k ∈ Kind.all

instance (k : Kind) : Decidable k.Known := inferInstanceAs (Decidable (k ∈ Kind.all))

theorem Kind.eq_unknown {k : Kind} (h : ¬ k.Known) : ∃ code, k = .unknown code := by
  cases k with
  | unknown code => exact ⟨code, rfl⟩
  | _ => exact absurd (by decide) h

theorem Pattern.kindAt_known (i : Int) : (Pattern.kindAt i).Known := by
  unfold Pattern.kindAt
  split <;> decide

/-- Every pattern means a known kind. -/
theorem Pattern.kind_known (q : Pattern) : (Pattern.kind q).Known := Pattern.kindAt_known _

/-- **No code spells an unknown kind.** -/
theorem Code.kind_known (c : Code) : (Code.kind c).Known := Pattern.kind_known _

/-! ## §2. What loading gives out. -/

/-- A loader as a client can hold it: a new one, with any store that keeps
what was used last, or what a load leaves. -/
inductive Loader.Client {γ : Type} : Loader γ → Prop where
  | new {store : Program.Store γ} {view : γ → Cache Content.Id Program} (hlru : store.IsLru view)
      (processors : Nat) (workers cacheSize : Int) :
      Client (Loader.new store processors workers cacheSize)
  | load {l : Loader γ} (h : Client l) (done : Option Failure) (src : Bytes) :
      Client (l.load done src).loader

/-- A program which loading gives out. -/
inductive Program.Loaded : Program → Prop where
  /-- Codes were decoded and linked. -/
  | codes {p : Program} (processors : Nat) (workers : Int) (done : Option Failure)
      (cs : Array Code) (h : Loader.link processors workers done cs = .ok p) : Loaded p
  /-- A loader loaded a source. -/
  | source {p : Program} {γ : Type} {l : Loader γ} (hl : l.Client) (done : Option Failure)
      (src : Bytes) (h : (l.load done src).result = .ok p) : Loaded p

/-- The linked program of some known kinds. -/
def Program.OfKnown (p : Program) : Prop := ∃ ks : List Kind, (∀ k ∈ ks, k.Known) ∧ p.Linked ks

namespace Loader

theorem link_ofKnown {processors : Nat} {workers : Int} {done : Option Failure} {cs : Array Code}
    {p : Program} (h : link processors workers done cs = .ok p) : p.OfKnown := by
  obtain ⟨q, hq, hlink⟩ := Linking.except_bind_ok.1 h
  cases done with
  | some f => exact absurd hq (by simp [Decoding.decode_done])
  | none =>
      rw [Decoding.decode_eq_unlinked, Except.ok.injEq] at hq
      subst hq
      refine ⟨cs.toList.map Code.kind, ?_, Linking.link_linked hlink⟩
      intro k hk
      obtain ⟨c, _, rfl⟩ := List.mem_map.1 hk
      exact Code.kind_known c

variable {γ : Type} {l : Loader γ}

theorem compile_ofKnown {done : Option Failure} {src : Bytes} {p : Program}
    (h : l.compile done src = .ok p) : p.OfKnown := by
  obtain ⟨cs, _, hlink⟩ := Linking.except_bind_ok.1 h
  exact link_ofKnown hlink

/-- Which way a load goes: the source is found; or it is not, and it is
compiled and remembered, or fails. -/
theorem load_ways (l : Loader γ) (done : Option Failure) (src : Bytes) :
    (∃ p cache, l.find? src = some (p, cache) ∧
      l.load done src = ⟨.ok p, true, none, { l with cache }⟩) ∨
    (∃ p, l.find? src = none ∧ l.compile done src = .ok p ∧
      l.load done src = ⟨.ok p, false, l.workersFor src, l.remember src p⟩) ∨
    ∃ f, l.find? src = none ∧ l.compile done src = .error f ∧
      l.load done src = ⟨.error f, false, l.workersFor src, l⟩ := by
  unfold load
  cases hfind : l.find? src with
  | some found => exact .inl ⟨found.1, found.2, rfl, rfl⟩
  | none =>
      cases hcompile : l.compile done src with
      | ok p => exact .inr (.inl ⟨p, rfl, rfl, rfl⟩)
      | error f => exact .inr (.inr ⟨f, rfl, rfl, rfl⟩)

/-- A load keeps the store. -/
theorem load_store (l : Loader γ) (done : Option Failure) (src : Bytes) :
    (l.load done src).loader.store = l.store := by
  rcases l.load_ways done src with ⟨p, cache, _, hload⟩ | ⟨p, _, _, hload⟩ | ⟨f, _, _, hload⟩
  · rw [hload]
  · rw [hload]
    rfl
  · rw [hload]

/-- Every program a loader remembers is linked, of known kinds. -/
def Remembers (l : Loader γ) : Prop :=
  ∃ view, l.store.IsLru view ∧ (view l.cache).All Program.OfKnown

/-- A load gives out a linked program, and remembers no other. -/
theorem load_ofKnown (hl : l.Remembers) (done : Option Failure) (src : Bytes) :
    (∀ p, (l.load done src).result = .ok p → p.OfKnown) ∧ (l.load done src).loader.Remembers := by
  obtain ⟨view, hlru, hall⟩ := hl
  rcases l.load_ways done src with ⟨q, cache, hfind, hload⟩ | ⟨q, _, hq, hload⟩ |
    ⟨f, _, _, hload⟩
  · -- a hit gives out what some load before remembered
    obtain ⟨hq, hcache⟩ := hall.get? (hlru.found hfind)
    rw [hload]
    exact ⟨fun p hp => Except.ok.inj hp ▸ hq, view, hlru, hcache⟩
  · have hknown := compile_ofKnown hq
    rw [hload]
    refine ⟨fun p hp => Except.ok.inj hp ▸ hknown, view, hlru, ?_⟩
    rw [hlru.remember]
    exact hall.add _ hknown
  · -- a load that fails remembers nothing
    rw [hload]
    exact ⟨fun p hp => absurd hp (by simp), view, hlru, hall⟩

theorem Client.remembers (h : l.Client) : l.Remembers := by
  induction h with
  | new hlru processors workers cacheSize =>
      refine ⟨_, hlru, ?_⟩
      rw [hlru.new_loader]
      exact fun e he => absurd he List.not_mem_nil
  | load _ done src ih => exact (load_ofKnown ih done src).2

end Loader

/-- **A loaded program is linked, of known kinds.** -/
theorem Program.Loaded.linked {p : Program} (h : p.Loaded) : p.OfKnown := by
  cases h with
  | codes processors workers done cs h => exact Loader.link_ofKnown h
  | source hl done src h => exact (Loader.load_ofKnown hl.remembers done src).1 p h

end Tetraglyph
