/-
  Tetraglyph.Proofs.Cache
  ───────────────────────
  **WHAT A STORE IS COUNTED ON FOR.**

  A loader is handed its store, and two things are asked of one.  Ids TELL the
  sources APART that are loaded.  And the cache keeps what was used last: there
  is a VIEW of it as a list of entries, and looking up and adding do to this
  list what `Cache` does to it.  Nothing more is known of ids and of caches,
  so what is proved of a loader holds with any store of this kind.

      Content.TellApart     — the ids of some sources tell them apart
      Cache.WellFormed      — one entry for each key, and no more than have room
      Program.Store.IsLru   — a cache of what was used last

  Main results

      mem_of_get?, mem_of_add       — where the entries of a cache come from
      WellFormed.get?_eq_add        — a look at an entry is a use of it
      standard_isLru                — the store of the program is of this kind
      IsLru.found, IsLru.missed     — what a look shows of the view
      IsLru.remember                — what remembering does to it
-/
import Tetraglyph.Content.Store

namespace Tetraglyph

/-! ## §1. Sources that are told apart. -/

namespace Content

/-- The ids of some sources tell them apart. -/
def TellApart (hash : Bytes → Id) (srcs : List Bytes) : Prop :=
  ∀ a ∈ srcs, ∀ b ∈ srcs, hash a = hash b → a = b

variable {hash : Bytes → Id} {srcs : List Bytes}

theorem tellApart_of_one {a : Bytes} (h : ∀ src ∈ srcs, src = a) : TellApart hash srcs := by
  intro x hx y hy _
  rw [h x hx, h y hy]

/-- Two sources are told apart by two ids. -/
theorem tellApart_of_two {a b : Bytes} (hne : hash a ≠ hash b)
    (h : ∀ src ∈ srcs, src = a ∨ src = b) : TellApart hash srcs := by
  intro x hx y hy hxy
  rcases h x hx with rfl | rfl <;> rcases h y hy with rfl | rfl
  · rfl
  · exact absurd hxy hne
  · exact absurd hxy.symm hne
  · rfl

end Content

/-! ## §2. The entries of a cache. -/

namespace Cache

variable {κ ν : Type}

/-- Something holds of all that a cache remembers. -/
def All (P : ν → Prop) (c : Cache κ ν) : Prop := ∀ e ∈ c.entries, P e.2

/-- A cache keeps one entry for each key, and no more than it has room for. -/
structure WellFormed (c : Cache κ ν) : Prop where
  /-- No two entries have one key. -/
  keys : (c.entries.map Prod.fst).Nodup
  /-- There is room for all of them. -/
  room : c.size ≤ c.capacity

theorem wellFormed_new (capacity : Nat) : (Cache.new capacity : Cache κ ν).WellFormed :=
  ⟨List.nodup_nil, Nat.zero_le _⟩

variable [DecidableEq κ] {P : ν → Prop} {c c' : Cache κ ν}

/-- What is found was remembered, and nothing is remembered that was not
before. -/
theorem mem_of_get? {k : κ} {v : ν} (hget : c.get? k = some (v, c')) :
    (k, v) ∈ c.entries ∧ ∀ e ∈ c'.entries, e ∈ c.entries := by
  unfold Cache.get? at hget
  split at hget
  next k' v' hfind =>
      have hk : k' = k := by simpa using List.find?_some hfind
      have hmem : (k', v') ∈ c.entries := List.mem_of_find?_eq_some hfind
      rw [hk] at hmem
      injection hget with hget
      injection hget with hv hc
      subst hv hc
      refine ⟨hmem, ?_⟩
      intro e he
      rcases List.mem_cons.1 he with heq | he
      · subst heq
        exact hmem
      · exact (List.mem_filter.1 he).1
  next => exact absurd hget (by simp)

/-- What is remembered was added, or remembered before. -/
theorem mem_of_add {k : κ} {v : ν} {e : κ × ν} (he : e ∈ (c.add k v).entries) :
    e = (k, v) ∨ e ∈ c.entries := by
  rcases List.mem_cons.1 (List.mem_of_mem_take he) with heq | he
  · exact .inl heq
  · exact .inr (List.mem_filter.1 he).1

theorem get?_eq_none_iff {k : κ} : c.get? k = none ↔ k ∉ c.entries.map Prod.fst := by
  unfold get?
  split
  next k' v hfind =>
      have hk : k' = k := by simpa using List.find?_some hfind
      have hmem : (k', v) ∈ c.entries := List.mem_of_find?_eq_some hfind
      simp only [reduceCtorEq, false_iff, Classical.not_not]
      exact hk ▸ List.mem_map_of_mem hmem
  next hfind =>
      simp only [true_iff]
      intro hmem
      obtain ⟨e, he, hk⟩ := List.mem_map.1 hmem
      exact absurd hk (by simpa using List.find?_eq_none.1 hfind e he)

theorem All.get? (h : c.All P) {k : κ} {v : ν} (hget : c.get? k = some (v, c')) :
    P v ∧ c'.All P := by
  obtain ⟨hmem, hkept⟩ := mem_of_get? hget
  exact ⟨h _ hmem, fun e he => h e (hkept e he)⟩

theorem All.add (h : c.All P) (k : κ) {v : ν} (hv : P v) : (c.add k v).All P := by
  intro e he
  rcases mem_of_add he with rfl | he
  · exact hv
  · exact h e he

theorem not_mem_others (c : Cache κ ν) (k : κ) : k ∉ (c.others k).map Prod.fst := by
  intro hmem
  obtain ⟨e, he, hk⟩ := List.mem_map.1 hmem
  exact absurd hk (by simpa using (List.mem_filter.1 he).2)

/-- An entry in front of those with another key. -/
theorem keys_cons_others (h : c.WellFormed) (k : κ) (v : ν) :
    (((k, v) :: c.others k).map Prod.fst).Nodup := by
  refine List.nodup_cons.2 ⟨c.not_mem_others k, ?_⟩
  exact h.keys.sublist (List.Sublist.map _ List.filter_sublist)

/-- Looking a key up brings its entry to the front, and adds none. -/
theorem WellFormed.get? (h : c.WellFormed) {k : κ} {v : ν} (hget : c.get? k = some (v, c')) :
    c'.WellFormed ∧ c'.capacity = c.capacity := by
  have hmem := (mem_of_get? hget).1
  unfold Cache.get? at hget
  split at hget
  next k' v' _ =>
      injection hget with hget
      injection hget with hv hc
      subst hc
      refine ⟨⟨keys_cons_others h k v', ?_⟩, rfl⟩
      -- the entry itself is not among the others
      have hlt : (c.others k).length < c.entries.length := by
        unfold others
        rw [List.length_filter_lt_length_iff_exists]
        exact ⟨_, hmem, by simp⟩
      exact Nat.le_trans hlt h.room
  next => exact absurd hget (by simp)

theorem WellFormed.add (h : c.WellFormed) (k : κ) (v : ν) : (c.add k v).WellFormed := by
  constructor
  · exact (keys_cons_others h k v).sublist (List.Sublist.map _ (List.take_sublist _ _))
  · exact List.length_take_le _ _

/-- **A look at an entry is a use of it**, as if it had been added again. -/
theorem WellFormed.get?_eq_add (h : c.WellFormed) {k : κ} {v : ν}
    (hget : c.get? k = some (v, c')) : c' = c.add k v := by
  have hroom := (h.get? hget).1.room
  unfold Cache.get? at hget
  split at hget
  next k' v' _ =>
      injection hget with hget
      injection hget with hv hc
      subst hv hc
      unfold Cache.add
      rw [List.take_of_length_le hroom]
  next => exact absurd hget (by simp)

end Cache

/-! ## §3. Stores that keep what was used last. -/

/-- **A cache of what was used last**, where `view` shows its entries.  A new
one has room for as many as it is asked to have, if there is to be room at
all; and whatever is done to the cache is done to its view. -/
structure Program.Store.IsLru {γ : Type} (store : Program.Store γ)
    (view : γ → Cache Content.Id Program) : Prop where
  /-- A new cache. -/
  new_eq : ∀ n, 0 < n → view (store.new n) = Cache.new n
  /-- A look, which finds what is in view and is a use of it. -/
  get?_eq : ∀ c id, (view c).get? id = (store.get? c id).map fun r => (r.1, view r.2)
  /-- An addition. -/
  add_eq : ∀ c id p, view (store.add c id p) = (view c).add id p
  /-- The number of entries. -/
  size_eq : ∀ c, store.size c = (view c).size

/-- **The store of the program keeps what was used last.** -/
theorem Program.Store.standard_isLru : Program.Store.standard.IsLru id where
  new_eq _ _ := rfl
  get?_eq c k := by
    show _ = (c.get? k).map id
    rw [Option.map_id]
    rfl
  add_eq _ _ _ := rfl
  size_eq _ := rfl

/-! ## §4. The cache of a loader, in view. -/

namespace Program.Store.IsLru

variable {γ : Type} {view : γ → Cache Content.Id Program} {l : Loader γ}

theorem new_loader {store : Program.Store γ} (h : store.IsLru view) (processors : Nat)
    (workers cacheSize : Int) :
    view (Loader.new store processors workers cacheSize).cache
      = Cache.new (max 1 cacheSize.toNat) :=
  h.new_eq _ (by omega)

/-- A source that is found is in view, and was used by being looked up. -/
theorem found (h : l.store.IsLru view) {src : Bytes} {p : Program} {cache : γ}
    (hfind : l.find? src = some (p, cache)) :
    (view l.cache).get? (l.store.hash src) = some (p, view cache) := by
  rw [h.get?_eq]
  show (l.find? src).map _ = _
  rw [hfind]
  rfl

/-- A source that is not found is not in view. -/
theorem missed (h : l.store.IsLru view) {src : Bytes} (hfind : l.find? src = none) :
    l.store.hash src ∉ (view l.cache).entries.map Prod.fst := by
  rw [← Cache.get?_eq_none_iff, h.get?_eq]
  show (l.find? src).map _ = _
  rw [hfind]
  rfl

/-- What is remembered is added to the view. -/
theorem remember (h : l.store.IsLru view) (src : Bytes) (p : Program) :
    view (l.remember src p).cache = (view l.cache).add (l.store.hash src) p :=
  h.add_eq _ _ _

end Program.Store.IsLru

end Tetraglyph
