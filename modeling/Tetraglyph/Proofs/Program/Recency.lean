/-
  Tetraglyph.Proofs.Program.Recency
  ─────────────────────────────────
  **WHAT A LOADER REMEMBERS.**

  A loader is asked for one source after another.  Some of these loads are
  called off, and some sources are rejected: a load that fails leaves the
  loader as it was.  A load that succeeds brings its source to the front,
  whether it was found or not, and the source at the back is forgotten if
  there is no room for it.  So the loader remembers the sources whose last
  success is LATEST, as many as it has room for, the latest one first.

      Request         — a load that is asked for
      outcomes, after — what comes of a sequence of loads
      successes       — the sources that were loaded, in order
      latestFirst     — every source once, by its last success
      Recent          — the invariant: the entries are those of the sources
                        whose last success is latest
      Uncached        — what comes of a source that is not found
      HoldsLatest     — what a loader remembers, told without the invariant
      Serves          — what comes of one more load

  Main results

      take_latest      — only what has room can come back to the front
      load_uses        — a load that succeeds is a use of its source
      Recent.load      — one load keeps the invariant
      Recent.after     — and so does a sequence of loads
      Recent.hit_iff   — a source is found if it is among the latest ones
      compile_uncached — the order of the reasons to fail
      Recent.holds     — what a loader remembers
      Recent.serves    — what comes of one more load
-/
import Mathlib
import Tetraglyph.Proofs.Program.SharedCache

namespace Tetraglyph

/-! ## §1. Every element once, the latest first. -/

section

variable {α : Type} [DecidableEq α]

/-- The elements of a list, each of them once, and the one that occurs last
first. -/
def latestFirst (xs : List α) : List α := xs.dedup.reverse

theorem latestFirst_nodup (xs : List α) : (latestFirst xs).Nodup :=
  List.nodup_reverse.2 xs.nodup_dedup

theorem mem_latestFirst {xs : List α} {a : α} : a ∈ latestFirst xs ↔ a ∈ xs := by
  unfold latestFirst
  rw [List.mem_reverse, List.mem_dedup]

theorem dedup_concat (xs : List α) (a : α) :
    (xs ++ [a]).dedup = xs.dedup.filter (· ≠ a) ++ [a] := by
  induction xs with
  | nil => rfl
  | cons x xs ih =>
      rw [List.cons_append]
      by_cases hmem : x ∈ xs
      · -- `x` comes again, and is counted there
        rw [List.dedup_cons_of_mem hmem, List.dedup_cons_of_mem (List.mem_append_left _ hmem), ih]
      · rw [List.dedup_cons_of_notMem hmem]
        by_cases hx : x = a
        · subst hx
          rw [List.dedup_cons_of_mem (by simp), ih, List.filter_cons_of_neg (by simp)]
        · rw [List.dedup_cons_of_notMem (by simp [hmem, hx]), ih,
            List.filter_cons_of_pos (by simpa using hx), List.cons_append]

/-- A new occurrence comes to the front, and the element is not repeated. -/
theorem latestFirst_concat (xs : List α) (a : α) :
    latestFirst (xs ++ [a]) = a :: (latestFirst xs).filter (· ≠ a) := by
  unfold latestFirst
  rw [dedup_concat, List.reverse_append, List.filter_reverse]
  rfl

example : latestFirst [1, 2, 1, 3, 3] = [3, 1, 2] := by decide

theorem take_filter_ne {xs : List α} (h : xs.Nodup) (a : α) (n : Nat) :
    ((xs.take (n + 1)).filter (· ≠ a)).take n = (xs.filter (· ≠ a)).take n := by
  induction xs generalizing n with
  | nil => rfl
  | cons x xs ih =>
      obtain ⟨hx, hxs⟩ := List.nodup_cons.1 h
      rw [List.take_succ_cons]
      by_cases hxa : x = a
      · -- what is left has no `a`, and all that was taken of it stays
        subst hxa
        have hself : ∀ ys : List α, x ∉ ys → ys.filter (· ≠ x) = ys := by
          intro ys hys
          refine List.filter_eq_self.2 fun y hy => ?_
          simpa using fun heq : y = x => hys (heq ▸ hy)
        rw [List.filter_cons_of_neg (by simp), List.filter_cons_of_neg (by simp), hself xs hx,
          hself _ fun hmem => hx (List.mem_of_mem_take hmem), List.take_take, Nat.min_self]
      · rw [List.filter_cons_of_pos (by simpa using hxa),
          List.filter_cons_of_pos (by simpa using hxa)]
        -- `x` takes one place on both sides
        cases n with
        | zero => rfl
        | succ n => rw [List.take_succ_cons, List.take_succ_cons, ih hxs]

/-- **Only what has room can come back to the front**: what is cut off makes
no difference to what is kept behind a new occurrence. -/
theorem take_latest (xs : List α) (a : α) (n : Nat) :
    (a :: ((latestFirst xs).take n).filter (· ≠ a)).take n
      = (latestFirst (xs ++ [a])).take n := by
  rw [latestFirst_concat]
  cases n with
  | zero => rfl
  | succ n =>
      rw [List.take_succ_cons, List.take_succ_cons, take_filter_ne (latestFirst_nodup xs)]

end

/-! ## §2. A sequence of loads. -/

namespace Loader

/-- A load that is asked for. -/
structure Request where
  /-- The source. -/
  src : Bytes
  /-- The error that the load was called off with, if it was. -/
  done : Option Failure
  deriving Repr, DecidableEq

section

variable {γ : Type}

/-- What comes of loads that are asked for, one after another. -/
def outcomes (l : Loader γ) : List Request → List (Request × Outcome γ)
  | [] => []
  | r :: rs =>
    let o := l.load r.done r.src
    (r, o) :: outcomes o.loader rs

/-- The loader after a number of loads. -/
def after (l : Loader γ) (rs : List Request) : Loader γ :=
  rs.foldl (fun l r => (l.load r.done r.src).loader) l

/-- The source of a load that succeeded. -/
def success? (load : Request × Outcome γ) : Option Bytes :=
  match load.2.result with
  | .ok _ => some load.1.src
  | .error _ => none

/-- The sources that were loaded, in the order of the loads that succeeded. -/
def successes (loads : List (Request × Outcome γ)) : List Bytes := loads.filterMap success?

end

variable {γ : Type} {view : γ → Cache Content.Id Program} {l : Loader γ}

/-- **A load that succeeds is a use of its source**, with the program of it:
nothing else is put in place, and in view the program is added.  A load that
fails leaves the loader. -/
theorem load_uses {srcs : List Bytes} (hl : l.Faithful view srcs)
    (hwell : (view l.cache).WellFormed) {r : Request} (hsrc : r.src ∈ srcs) :
    (∃ p cache, Source.program r.src = .ok p ∧ (l.load r.done r.src).result = .ok p ∧
      (l.load r.done r.src).loader = { l with cache } ∧
      view cache = (view l.cache).add (l.store.hash r.src) p) ∨
    ∃ f, (l.load r.done r.src).result = .error f ∧ (l.load r.done r.src).loader = l := by
  rcases l.load_ways r.done r.src with ⟨p, cache, hfind, hload⟩ | ⟨p, _, hp, hload⟩ |
    ⟨f, _, _, hload⟩
  · rw [hload]
    exact .inl ⟨p, cache, hl.program_eq hsrc hfind, rfl, rfl,
      hwell.get?_eq_add (hl.lru.found hfind)⟩
  · rw [hload]
    exact .inl ⟨p, _, (l.compile_cases r.done r.src).1 p hp, rfl, rfl, hl.lru.remember _ p⟩
  · rw [hload]
    exact .inr ⟨f, rfl, rfl⟩

/-! ## §3. The invariant. -/

/-- An entry, with the program as what comes of a source. -/
def entryOf (e : Content.Id × Program) : Content.Id × Except Failure Program := (e.1, .ok e.2)

/-- The entry that a source has, if it has a program. -/
def entryFor (hash : Bytes → Content.Id) (src : Bytes) : Content.Id × Except Failure Program :=
  (hash src, Source.program src)

/-- Behind the uses of some sources, a loader remembers those whose last use
is latest, as many as it has room for.  Its cache is one of what was used
last, and ids tell the sources apart. -/
structure Recent (view : γ → Cache Content.Id Program) (srcs : List Bytes) (capacity : Nat)
    (uses : List Bytes) (l : Loader γ) : Prop where
  /-- What is asked of the cache. -/
  lru : l.store.IsLru view
  /-- What is asked of the ids. -/
  apart : Content.TellApart l.store.hash srcs
  /-- There is one entry for each id. -/
  wellFormed : (view l.cache).WellFormed
  /-- The room there is. -/
  capacity_eq : (view l.cache).capacity = capacity
  /-- The uses are of these sources. -/
  uses_mem : ∀ src ∈ uses, src ∈ srcs
  /-- The entries, the one used last first. -/
  entries_eq : (view l.cache).entries.map entryOf
    = ((latestFirst uses).take capacity).map (entryFor l.store.hash)

section

variable {srcs : List Bytes} {capacity : Nat} {uses : List Bytes}

theorem recent_new {store : Program.Store γ} (hlru : store.IsLru view)
    (hids : Content.TellApart store.hash srcs) (processors : Nat) (workers cacheSize : Int) :
    Recent view srcs (max 1 cacheSize.toNat) []
      (Loader.new store processors workers cacheSize) := by
  have hview := hlru.new_loader processors workers cacheSize
  refine ⟨hlru, hids, ?_, ?_, by simp, ?_⟩
  · rw [hview]
    exact Cache.wellFormed_new _
  · rw [hview]
    rfl
  · rw [hview]
    show [] = List.map _ ((latestFirst []).take _)
    simp [latestFirst]

variable (h : Recent view srcs capacity uses l)

include h

theorem Recent.mem_kept {src : Bytes} (hsrc : src ∈ (latestFirst uses).take capacity) :
    src ∈ srcs :=
  h.uses_mem src (mem_latestFirst.1 (List.mem_of_mem_take hsrc))

theorem Recent.faithful : l.Faithful view srcs := by
  refine ⟨h.lru, h.apart, fun e he => ?_⟩
  have hmem : entryOf e ∈ ((latestFirst uses).take capacity).map (entryFor l.store.hash) :=
    h.entries_eq ▸ List.mem_map_of_mem he
  obtain ⟨src, hsrc, heq⟩ := List.mem_map.1 hmem
  obtain ⟨hid, hp⟩ := Prod.mk.inj heq
  exact ⟨src, h.mem_kept hsrc, hid.symm, hp⟩

theorem Recent.keys_eq :
    (view l.cache).entries.map Prod.fst
      = ((latestFirst uses).take capacity).map l.store.hash := by
  have hfst := congrArg (List.map Prod.fst) h.entries_eq
  rw [List.map_map, List.map_map] at hfst
  exact hfst

/-- The entries that are not of a source. -/
theorem Recent.others_eq {src : Bytes} (hsrc : src ∈ srcs) :
    ((view l.cache).others (l.store.hash src)).map entryOf
      = (((latestFirst uses).take capacity).filter (· ≠ src)).map (entryFor l.store.hash) := by
  -- an entry is of another source if its id is another one
  have hother : ∀ src' ∈ (latestFirst uses).take capacity,
      (decide (l.store.hash src' ≠ l.store.hash src)) = decide (src' ≠ src) := by
    intro src' hmem
    have hiff : l.store.hash src' = l.store.hash src ↔ src' = src :=
      ⟨h.apart src' (h.mem_kept hmem) src hsrc, fun heq => congrArg _ heq⟩
    simp only [ne_eq, hiff]
  calc ((view l.cache).others (l.store.hash src)).map entryOf
      = ((view l.cache).entries.map entryOf).filter (fun e => e.1 ≠ l.store.hash src) := by
        rw [List.filter_map]
        rfl
    _ = (((latestFirst uses).take capacity).filter
          (fun src' => l.store.hash src' ≠ l.store.hash src)).map (entryFor l.store.hash) := by
        rw [h.entries_eq, List.filter_map]
        rfl
    _ = (((latestFirst uses).take capacity).filter (· ≠ src)).map (entryFor l.store.hash) := by
        rw [List.filter_congr hother]

/-- The use of a source. -/
theorem Recent.use {src : Bytes} (hsrc : src ∈ srcs) {p : Program}
    (hp : Source.program src = .ok p) {cache : γ}
    (hview : view cache = (view l.cache).add (l.store.hash src) p) :
    Recent view srcs capacity (uses ++ [src]) { l with cache } := by
  refine ⟨h.lru, h.apart, ?_, ?_, ?_, ?_⟩
  · rw [hview]
    exact h.wellFormed.add _ p
  · rw [hview]
    exact h.capacity_eq
  · intro src' hmem
    rcases List.mem_append.1 hmem with hmem | hmem
    · exact h.uses_mem src' hmem
    · rw [List.mem_singleton.1 hmem]
      exact hsrc
  · -- adding is putting in front of the others, and cutting off
    have hnew : entryOf (l.store.hash src, p) = entryFor l.store.hash src := by
      unfold entryOf entryFor
      rw [hp]
    rw [hview]
    show List.map entryOf (List.take (view l.cache).capacity (_ :: (view l.cache).others _)) = _
    rw [h.capacity_eq, List.map_take, List.map_cons, h.others_eq hsrc, hnew,
      ← List.map_cons, ← List.map_take, take_latest]

/-- **One load keeps the invariant.** -/
theorem Recent.load {r : Request} (hsrc : r.src ∈ srcs) :
    Recent view srcs capacity (uses ++ (success? (r, l.load r.done r.src)).toList)
      (l.load r.done r.src).loader := by
  unfold success?
  rcases load_uses h.faithful h.wellFormed hsrc with ⟨p, cache, hp, hresult, hloader, hview⟩ |
    ⟨f, hresult, hloader⟩
  · rw [hresult, hloader]
    exact h.use hsrc hp hview
  · rw [hresult, hloader]
    show Recent view srcs capacity (uses ++ []) l
    rw [List.append_nil]
    exact h

/-- **A source is found if it is among those whose last use is latest.** -/
theorem Recent.hit_iff {r : Request} (hsrc : r.src ∈ srcs) :
    (l.load r.done r.src).hit = true ↔ r.src ∈ (latestFirst uses).take capacity := by
  have hkey : l.store.hash r.src ∈ (view l.cache).entries.map Prod.fst ↔
      r.src ∈ (latestFirst uses).take capacity := by
    rw [h.keys_eq]
    constructor
    · intro hmem
      obtain ⟨src, hmem, hid⟩ := List.mem_map.1 hmem
      rw [h.apart r.src hsrc src (h.mem_kept hmem) hid.symm]
      exact hmem
    · intro hmem
      exact List.mem_map_of_mem hmem
  rw [← hkey]
  rcases l.load_ways r.done r.src with ⟨p, cache, hfind, hload⟩ | ⟨p, hfind, _, hload⟩ |
    ⟨f, hfind, _, hload⟩
  · rw [hload]
    simp only [true_iff]
    exact List.mem_map_of_mem (Cache.mem_of_get? (h.lru.found hfind)).1
  · rw [hload]
    simpa using h.lru.missed hfind
  · rw [hload]
    simpa using h.lru.missed hfind

/-- **A sequence of loads keeps the invariant.** -/
theorem Recent.after (rs : List Request) (hsrcs : ∀ r ∈ rs, r.src ∈ srcs) :
    Recent view srcs capacity (uses ++ successes (l.outcomes rs)) (l.after rs) := by
  induction rs generalizing uses l with
  | nil =>
      show Recent view srcs capacity (uses ++ []) l
      rw [List.append_nil]
      exact h
  | cons r rs ih =>
      obtain ⟨hsrc, hrest⟩ := List.forall_mem_cons.1 hsrcs
      -- the first load adds its success, if it is one, to the uses before the others
      have hone := ih (h.load hsrc) hrest
      have hsplit : successes (l.outcomes (r :: rs))
          = (success? (r, l.load r.done r.src)).toList
            ++ successes ((l.load r.done r.src).loader.outcomes rs) := by
        show List.filterMap success? ((r, l.load r.done r.src) :: _) = _
        rw [List.filterMap_cons]
        cases success? (r, l.load r.done r.src) <;> rfl
      rw [hsplit, ← List.append_assoc]
      exact hone

end

/-! ## §4. Sources that are not found. -/

/-- **What comes of a source that is not found**: it is rejected for its
length; else the work stops if it was called off, with the error it was called
off with; else it is linked, and is rejected for its braces if these do not
match. -/
structure Uncached (r : Request) (result : Except Failure Program) : Prop where
  /-- Its symbols do not make up codes. -/
  length : ∀ f, Source.codes r.src = .error f →
    result = .error (.syntactic .codeLengthInvalid (-1))
  /-- The work was called off. -/
  calledOff : ∀ cs f, Source.codes r.src = .ok cs → r.done = some f → result = .error f
  /-- The codes are linked. -/
  linked : ∀ cs, Source.codes r.src = .ok cs → r.done = none →
    result = Linking.link (Program.unlinked (cs.toList.map Code.kind)) ∧
      ∀ f, result = .error f → Linking.BraceFailure f

theorem compile_uncached (l : Loader γ) (r : Request) : Uncached r (l.compile r.done r.src) := by
  unfold compile link
  refine ⟨?_, ?_, ?_⟩
  · intro f hf
    rw [hf, Source.codes_error hf]
    rfl
  · intro cs f hcs hdone
    simp only [hcs, hdone, Decoding.decode_done]
    rfl
  · intro cs hcs hdone
    have hlink : (do
        let codes ← Source.codes r.src
        let unlinked ← Decoding.decode l.processors codes l.workers r.done
        Linking.link unlinked) = Linking.link (Program.unlinked (cs.toList.map Code.kind)) := by
      simp only [hcs, hdone, Decoding.decode_eq_unlinked]
      rfl
    refine ⟨hlink, fun f hf => ?_⟩
    rw [hlink] at hf
    exact Linking.link_error hf

/-! ## §5. What a loader remembers. -/

/-- **A loader holds what was used latest**: as many entries as there are
sources or as it has room for; and these are, for the sources whose last use is
latest and in this order, the id with the program that compiling gives. -/
structure HoldsLatest (view : γ → Cache Content.Id Program) (capacity : Nat) (uses : List Bytes)
    (l : Loader γ) : Prop where
  /-- The number of entries. -/
  size_eq : l.size = min capacity uses.dedup.length
  /-- The entries. -/
  entries_eq : (view l.cache).entries.map (fun e => (e.1, Except.ok e.2))
    = ((latestFirst uses).take capacity).map fun src => (l.store.hash src, l.compile none src)

/-- **What comes of one more load**, by a loader that remembers some
sources. -/
structure Serves (kept : List Bytes) (l : Loader γ) (r : Request) : Prop where
  /-- It is a hit if the source is one of them. -/
  hit_iff : (l.load r.done r.src).hit = true ↔ r.src ∈ kept
  /-- A hit gives out the program, even if the load was called off. -/
  found : (l.load r.done r.src).hit = true →
    ∃ p, (l.load r.done r.src).result = .ok p ∧ l.compile none r.src = .ok p
  /-- A miss is what comes of the source without the cache. -/
  missed : (l.load r.done r.src).hit = false →
    (l.load r.done r.src).result = l.compile r.done r.src ∧
      Uncached r (l.load r.done r.src).result

section

variable {srcs : List Bytes} {capacity : Nat} {uses : List Bytes}

theorem Recent.holds (h : Recent view srcs capacity uses l) : HoldsLatest view capacity uses l := by
  have hentries := h.entries_eq
  refine ⟨?_, ?_⟩
  · have hlength := congrArg List.length hentries
    rw [List.length_map, List.length_map, List.length_take] at hlength
    unfold latestFirst at hlength
    rw [List.length_reverse] at hlength
    exact (h.lru.size_eq _).trans hlength
  · simp only [compile_eq]
    exact hentries

theorem Recent.serves (h : Recent view srcs capacity uses l) {r : Request} (hsrc : r.src ∈ srcs) :
    Serves ((latestFirst uses).take capacity) l r := by
  refine ⟨h.hit_iff hsrc, ?_, ?_⟩
  · intro hhit
    rcases l.load_ways r.done r.src with ⟨p, cache, hfind, hload⟩ | ⟨p, _, _, hload⟩ |
      ⟨f, _, _, hload⟩
    · rw [hload, compile_eq]
      exact ⟨p, rfl, h.faithful.program_eq hsrc hfind⟩
    · rw [hload] at hhit
      exact absurd hhit (by simp)
    · rw [hload] at hhit
      exact absurd hhit (by simp)
  · intro hmiss
    have hresult : (l.load r.done r.src).result = l.compile r.done r.src := by
      rcases l.load_ways r.done r.src with ⟨p, cache, _, hload⟩ | ⟨p, _, hp, hload⟩ |
        ⟨f, _, hf, hload⟩
      · rw [hload] at hmiss
        exact absurd hmiss (by simp)
      · rw [hload, hp]
      · rw [hload, hf]
    rw [hresult]
    exact ⟨rfl, compile_uncached l r⟩

end

end Loader

end Tetraglyph
