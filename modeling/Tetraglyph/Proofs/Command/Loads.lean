/-
  Tetraglyph.Proofs.Command.Loads
  ───────────────────────────────
  **THE LOADS OF A COMMAND.**

  The commands go through their sources in the same way: load the next one,
  do something with its program, and go on unless one of the two fails.  The
  loader of a command has ROOM for all its sources, so what it remembers it
  remembers until the end; and a load that fails is the last one, so a source
  that comes again was loaded before and is found.  No content is decoded
  twice.

      visit        — the loop of a command, with what comes of every load
      running      — what it does with a program to run it
      writing      — and to describe it
      Roomy        — a loader with room for so many more sources
      Economical   — loads that forget nothing, and decode nothing twice

  Main results

      runSources_eq_visit  — running programs is such a loop
      describe_eq_visit    — and so is describing them
      load_roomy           — with room, a load forgets nothing
      visit_economical     — the loads of a loop that has room
      cache_holds_latest   — what a cache holds, and what this means for
                             a command
-/
import Mathlib
import Tetraglyph.Proofs.Command.Programs
import Tetraglyph.Proofs.Program.Recency

namespace Tetraglyph.Command

open Loader

variable {γ : Type} {view : γ → Cache Content.Id Program}

/-! ## §1. The loop of a command. -/

/-- **The loop of a command**: loads sources in order and does something with
each program, up to the first that fails.  What comes of every load stands in
front of what comes of the command. -/
def visit {σ : Type} (s : Setting γ) (act : SourceFile → Program → σ → Verdict × σ) :
    List SourceFile → Loader γ → σ → List (SourceFile × Loader.Outcome γ) × Verdict × σ
  | [], _, x => ([], .done, x)
  | src :: rest, loader, x =>
    let loaded := loader.load s.done src.data
    match loaded.result with
    | .error f => ([(src, loaded)], .failed f, x)
    | .ok program =>
      match act src program x with
      | (.done, x) =>
        let later := visit s act rest loaded.loader x
        ((src, loaded) :: later.1, later.2)
      | (v, x) => ([(src, loaded)], v, x)

/-- Running a program. -/
def running (s : Setting γ) (src : SourceFile) (p : Program) (st : Streams) : Verdict × Streams :=
  runProgram s src.path p st

/-- Writing a text for a program. -/
def writing (text : SourceFile → Program → String) (src : SourceFile) (p : Program)
    (sink : Sink) : Verdict × Sink :=
  match sink.write (text src p) with
  | .error f => (.failed f, sink)
  | .ok sink => (.done, sink)

section

variable {σ : Type} {s : Setting γ} {act : SourceFile → Program → σ → Verdict × σ}
  {src : SourceFile} {rest : List SourceFile} {l : Loader γ} {x x' : σ}

/-- The first source cannot be loaded. -/
theorem visit_rejected {f : Failure} (hload : (l.load s.done src.data).result = .error f) :
    (visit s act (src :: rest) l x).2 = (.failed f, x) := by
  unfold visit
  dsimp only
  rw [hload]

/-- The first program is done, and the loop goes on behind it. -/
theorem visit_done {p : Program} (hload : (l.load s.done src.data).result = .ok p)
    (hact : act src p x = (.done, x')) :
    (visit s act (src :: rest) l x).2
      = (visit s act rest (l.load s.done src.data).loader x').2 := by
  conv_lhs => unfold visit
  dsimp only
  rw [hload]
  dsimp only
  rw [hact]

/-- The loop ends with the first program. -/
theorem visit_stopped {p : Program} (hload : (l.load s.done src.data).result = .ok p)
    {v : Verdict} (hact : act src p x = (v, x')) (hv : v ≠ .done) :
    (visit s act (src :: rest) l x).2 = (v, x') := by
  unfold visit
  dsimp only
  rw [hload]
  dsimp only
  rw [hact]
  cases v with
  | done => exact absurd rfl hv
  | _ => rfl

end

/-- **Running programs is such a loop.** -/
theorem runSources_eq_visit (s : Setting γ) (sources : List SourceFile) (l : Loader γ)
    (st : Streams) : runSources s sources l st = (visit s (running s) sources l st).2 := by
  fun_induction runSources s sources l st with
  | case1 l st => rfl
  | case2 src rest l st loaded f hload => rw [visit_rejected hload]
  | case3 src rest l st loaded p hload st' hrun ih => rw [visit_done hload hrun, ih]
  | case4 src rest l st loaded p hload v st' hv hrun => rw [visit_stopped hload hrun hv]

/-- **Describing programs is such a loop.** -/
theorem describe_eq_visit (s : Setting γ) (text : SourceFile → Program → String)
    (sources : List SourceFile) (l : Loader γ) (sink : Sink) :
    describe s text sources l sink = (visit s (writing text) sources l sink).2 := by
  fun_induction describe s text sources l sink with
  | case1 l sink => rfl
  | case2 src rest l sink loaded f hload => rw [visit_rejected hload]
  | case3 src rest l sink loaded p hload f hwrite =>
      have hact : writing text src p sink = (.failed f, sink) := by
        unfold writing
        rw [hwrite]
      rw [visit_stopped hload hact (by simp)]
  | case4 src rest l sink loaded p hload sink' hwrite ih =>
      have hact : writing text src p sink = (.done, sink') := by
        unfold writing
        rw [hwrite]
      rw [visit_done hload hact, ih]

/-- The sources that are loaded are the first ones. -/
theorem visit_loads {σ : Type} (s : Setting γ) (act : SourceFile → Program → σ → Verdict × σ)
    (sources : List SourceFile) (l : Loader γ) (x : σ) :
    (visit s act sources l x).1.map Prod.fst <+: sources := by
  fun_induction visit s act sources l x with
  | case1 l x => exact List.prefix_rfl
  | case2 src rest l x loaded f hload => simp
  | case3 src rest l x loaded p hload x' hact later ih =>
      rw [List.map_cons]
      exact List.cons_prefix_cons.2 ⟨rfl, ih⟩
  | case4 src rest l x loaded p hload v x' hv hact => simp

/-! ## §2. Loads with room. -/

/-- A loader with room for so many sources more, in a cache of what was used
last. -/
structure Roomy (view : γ → Cache Content.Id Program) (more : Nat) (l : Loader γ) : Prop where
  /-- What is asked of the cache. -/
  lru : l.store.IsLru view
  /-- There is one entry for each id. -/
  wellFormed : (view l.cache).WellFormed
  /-- The room that is left. -/
  room : (view l.cache).size + more ≤ (view l.cache).capacity

theorem roomy_loader {s : Setting γ} (hlru : s.store.IsLru view) (sources : List SourceFile) :
    Roomy view sources.length (s.loader sources) := by
  have hview : view (s.loader sources).cache = Cache.new (max 1 (sources.length : Int).toNat) :=
    hlru.new_loader _ _ _
  refine ⟨hlru, ?_, ?_⟩
  · rw [hview]
    exact Cache.wellFormed_new _
  · rw [hview]
    show 0 + sources.length ≤ max 1 (sources.length : Int).toNat
    omega

/-- With room, an entry is added in front of all the others. -/
theorem add_roomy {l : Loader γ} {more : Nat} (h : Roomy view (more + 1) l) {k : Content.Id}
    {p : Program} (hsame : ∀ e ∈ (view l.cache).entries, e.1 = k → e = (k, p)) {cache : γ}
    (hview : view cache = (view l.cache).add k p) :
    Roomy view more { l with cache } ∧ (k, p) ∈ (view cache).entries ∧
      (view l.cache).entries ⊆ (view cache).entries := by
  have hroom := h.room
  have hothers : ((view l.cache).others k).length ≤ (view l.cache).size :=
    List.length_filter_le _ _
  have hentries : (view cache).entries = (k, p) :: (view l.cache).others k := by
    rw [hview]
    refine List.take_of_length_le ?_
    rw [List.length_cons]
    omega
  have hcapacity : (view cache).capacity = (view l.cache).capacity := by
    rw [hview]
    rfl
  refine ⟨⟨h.lru, ?_, ?_⟩, ?_, ?_⟩
  · rw [hview]
    exact h.wellFormed.add k p
  · show (view cache).entries.length + more ≤ (view cache).capacity
    rw [hentries, hcapacity, List.length_cons]
    omega
  · rw [hentries]
    exact List.mem_cons_self
  · intro e he
    rw [hentries]
    by_cases hk : e.1 = k
    · rw [hsame e he hk]
      exact List.mem_cons_self
    · exact List.mem_cons_of_mem _ (List.mem_filter.2 ⟨he, by simpa using hk⟩)

/-- **With room, a load forgets nothing**, and what is loaded is
remembered. -/
theorem load_roomy {l : Loader γ} {more : Nat} (h : Roomy view (more + 1) l)
    (done : Option Failure) (src : Bytes) :
    Roomy view more (l.load done src).loader ∧
      (view l.cache).entries ⊆ (view (l.load done src).loader.cache).entries ∧
      ∀ p, (l.load done src).result = .ok p →
        (l.store.hash src, p) ∈ (view (l.load done src).loader.cache).entries := by
  rcases l.load_ways done src with ⟨p, cache, hfind, hload⟩ | ⟨p, hfind, _, hload⟩ |
    ⟨f, _, _, hload⟩
  · -- the entry that was found is the only one with its id
    have hget := h.lru.found hfind
    have hmem := (Cache.mem_of_get? hget).1
    obtain ⟨hroomy, hnew, hkept⟩ := add_roomy h
      (fun e he hk => List.inj_on_of_nodup_map h.wellFormed.keys he hmem hk)
      (h.wellFormed.get?_eq_add hget)
    rw [hload]
    refine ⟨hroomy, hkept, fun q hq => ?_⟩
    obtain rfl : p = q := Except.ok.inj hq
    exact hnew
  · -- no entry has the id of a source that was not found
    have hnone := h.lru.missed hfind
    obtain ⟨hroomy, hnew, hkept⟩ := add_roomy h
      (fun e he hk => absurd (List.mem_map.2 ⟨e, he, hk⟩) hnone) (h.lru.remember src p)
    rw [hload]
    refine ⟨hroomy, hkept, fun q hq => ?_⟩
    obtain rfl : p = q := Except.ok.inj hq
    exact hnew
  · rw [hload]
    refine ⟨⟨h.lru, h.wellFormed, ?_⟩, List.Subset.refl _, fun q hq => absurd hq (by simp)⟩
    have hroom := h.room
    show (view l.cache).size + more ≤ (view l.cache).capacity
    omega

/-- What is remembered is found, and not decoded again. -/
theorem load_found {l : Loader γ} (hlru : l.store.IsLru view) {src : Bytes} {p : Program}
    (h : (l.store.hash src, p) ∈ (view l.cache).entries) (done : Option Failure) :
    (l.load done src).hit = true ∧ (l.load done src).workers = none := by
  have hkey : l.store.hash src ∈ (view l.cache).entries.map Prod.fst := List.mem_map_of_mem h
  rcases l.load_ways done src with ⟨p, cache, _, hload⟩ | ⟨p, hfind, _, _⟩ | ⟨f, hfind, _, _⟩
  · rw [hload]
    exact ⟨rfl, rfl⟩
  · exact absurd hkey (hlru.missed hfind)
  · exact absurd hkey (hlru.missed hfind)

/-! ## §3. Loads that forget nothing. -/

/-- **Loads that forget nothing, and decode nothing twice.** -/
structure Economical (view : γ → Cache Content.Id Program)
    (loads : List (SourceFile × Loader.Outcome γ)) : Prop where
  /-- A program that is loaded is remembered. -/
  remembered : ∀ a ∈ loads, ∀ p, a.2.result = .ok p →
    (a.2.loader.store.hash a.1.data, p) ∈ (view a.2.loader.cache).entries
  /-- What is remembered after a load is remembered after all later ones. -/
  kept : loads.Pairwise fun a b =>
    (view a.2.loader.cache).entries ⊆ (view b.2.loader.cache).entries
  /-- What was loaded before is found. -/
  found : loads.Pairwise fun a b => a.1.data = b.1.data → b.2.hit = true ∧ b.2.workers = none

/-- How often a content is decoded. -/
def decodings (loads : List (SourceFile × Loader.Outcome γ)) (data : Bytes) : Nat :=
  loads.countP fun a => a.1.data = data ∧ a.2.workers.isSome

/-- No content is decoded twice. -/
theorem Economical.decodings_le {loads : List (SourceFile × Loader.Outcome γ)}
    (h : Economical view loads) (data : Bytes) : decodings loads data ≤ 1 := by
  have hfound := h.found
  clear h
  unfold decodings
  induction loads with
  | nil => exact Nat.zero_le 1
  | cons a loads ih =>
      obtain ⟨hlater, hrest⟩ := List.pairwise_cons.1 hfound
      by_cases ha : a.1.data = data
      · -- all later loads of this content find it
        have hnone : loads.countP (fun b => b.1.data = data ∧ b.2.workers.isSome) = 0 := by
          refine List.countP_eq_zero.2 fun b hb hdecoded => ?_
          obtain ⟨hdata, hsome⟩ := of_decide_eq_true hdecoded
          rw [(hlater b hb (ha.trans hdata.symm)).2] at hsome
          exact absurd hsome (by simp)
        rw [List.countP_cons, hnone]
        split <;> omega
      · rw [List.countP_cons_of_neg (by simp [ha])]
        exact ih hrest

section

variable {σ : Type} {s : Setting γ} {act : SourceFile → Program → σ → Verdict × σ}

/-- Every load of a loop is made by a loader that has room and has forgotten
nothing. -/
theorem mem_visit {sources : List SourceFile} {l : Loader γ} {x : σ}
    (h : Roomy view sources.length l) {a : SourceFile × Loader.Outcome γ}
    (ha : a ∈ (visit s act sources l x).1) :
    ∃ l' more, Roomy view (more + 1) l' ∧ l'.store = l.store ∧
      (view l.cache).entries ⊆ (view l'.cache).entries ∧ a.2 = l'.load s.done a.1.data := by
  fun_induction visit s act sources l x with
  | case1 l x => exact absurd ha List.not_mem_nil
  | case2 src rest l x loaded f hload =>
      rw [List.mem_singleton.1 ha]
      exact ⟨l, _, h, rfl, List.Subset.refl _, rfl⟩
  | case3 src rest l x loaded p hload x' hact later ih =>
      rcases List.mem_cons.1 ha with rfl | ha
      · exact ⟨l, _, h, rfl, List.Subset.refl _, rfl⟩
      · obtain ⟨hroomy, hkept, _⟩ := load_roomy h s.done src.data
        obtain ⟨l', more, hroomy', hstore, hkept', heq⟩ := ih hroomy ha
        exact ⟨l', more, hroomy', hstore.trans (load_store l s.done src.data),
          List.Subset.trans hkept hkept', heq⟩
  | case4 src rest l x loaded p hload v x' hv hact =>
      rw [List.mem_singleton.1 ha]
      exact ⟨l, _, h, rfl, List.Subset.refl _, rfl⟩

/-- A loop with one load. -/
theorem economical_one {l : Loader γ} {more : Nat} (h : Roomy view (more + 1) l)
    (src : SourceFile) : Economical view [(src, l.load s.done src.data)] := by
  refine ⟨?_, List.pairwise_singleton _ _, List.pairwise_singleton _ _⟩
  intro a ha
  rw [List.mem_singleton.1 ha]
  dsimp only
  rw [load_store]
  exact (load_roomy h s.done src.data).2.2

/-- **The loads of a loop that has room.** -/
theorem visit_economical {sources : List SourceFile} {l : Loader γ}
    (h : Roomy view sources.length l) (x : σ) : Economical view (visit s act sources l x).1 := by
  fun_induction visit s act sources l x with
  | case1 l x => exact ⟨by simp, .nil, .nil⟩
  | case2 src rest l x loaded f hload => exact economical_one h src
  | case3 src rest l x loaded p hload x' hact later ih =>
      obtain ⟨hroomy, hkept, hown⟩ := load_roomy h s.done src.data
      obtain ⟨hremembered, hpairs, hfound⟩ := ih hroomy
      -- the first load against all later ones, which start from what it leaves
      refine ⟨?_, ?_, ?_⟩
      · intro a ha
        rcases List.mem_cons.1 ha with rfl | ha
        · dsimp only
          rw [load_store]
          exact hown
        · exact hremembered a ha
      · refine List.pairwise_cons.2 ⟨fun b hb => ?_, hpairs⟩
        obtain ⟨l', more, hroomy', _, hsub, heq⟩ := mem_visit hroomy hb
        rw [heq]
        exact List.Subset.trans hsub (load_roomy hroomy' s.done b.1.data).2.1
      · refine List.pairwise_cons.2 ⟨fun b hb hdata => ?_, hfound⟩
        -- the loader of a later load still has the entry of this one
        obtain ⟨l', more, hroomy', hstore, hsub, heq⟩ := mem_visit hroomy hb
        have hentry := hsub (hown p hload)
        rw [load_store] at hstore
        rw [hdata, ← hstore] at hentry
        rw [heq]
        exact load_found hroomy'.lru hentry s.done
  | case4 src rest l x loaded p hload v x' hv hact => exact economical_one h src

end

/-! ## §4. What a cache holds. -/

/-- **A cache holds the sources that were loaded latest.**  Behind any sequence
of loads, some of them called off and some of rejected sources, a loader that
was new remembers the sources with a successful load, the one whose last success
is latest first, as many as it has room for.  The next load is a hit if its
source is among these, and then it succeeds even if it was called off; a miss is
what comes of the source without the cache.  This holds for every cache of what
was used last, as long as ids tell the sources apart.  The loader of a command
has room for all its sources, so in one run, check or listing nothing is
forgotten, and no content is decoded twice. -/
theorem cache_holds_latest :
    (∀ (store : Program.Store γ) (processors : Nat) (workers cacheSize : Int)
        (requests : List Request) (next : Request), store.IsLru view →
      Content.TellApart store.hash ((requests ++ [next]).map Request.src) →
      let start := Loader.new store processors workers cacheSize
      let uses := successes (start.outcomes requests)
      let capacity := (max 1 cacheSize).toNat
      let l := start.after requests
      HoldsLatest view capacity uses l ∧ Serves ((latestFirst uses).take capacity) l next) ∧
    ∀ (s : Setting γ) (read : FileReader) (paths : List String) (sources : List SourceFile),
      s.store.IsLru view → readSources read paths = .ok sources →
      let loader := s.loader sources
      (∀ st, run s read paths st = (visit s (running s) sources loader st).2) ∧
      (∀ sink, check s read paths sink
        = (visit s (writing (checkLine sources.length)) sources loader sink).2) ∧
      (∀ sink, disasm s read paths sink
        = (visit s (writing (listing sources.length)) sources loader sink).2) ∧
      ∀ (σ : Type) (act : SourceFile → Program → σ → Verdict × σ) (x : σ),
        let loads := (visit s act sources loader x).1
        loads.map Prod.fst <+: sources ∧ Economical view loads ∧
          ∀ data, decodings loads data ≤ 1 := by
  refine ⟨?_, ?_⟩
  · intro store processors workers cacheSize requests next hlru hids start uses capacity l
    have hcapacity : max 1 cacheSize.toNat = capacity := by
      show max 1 cacheSize.toNat = (max 1 cacheSize).toNat
      omega
    have hsrcs : ∀ r ∈ requests, r.src ∈ (requests ++ [next]).map Request.src :=
      fun r hr => List.mem_map_of_mem (List.mem_append_left _ hr)
    have hrecent := (recent_new hlru hids processors workers cacheSize).after requests hsrcs
    rw [List.nil_append, hcapacity] at hrecent
    exact ⟨hrecent.holds, hrecent.serves (List.mem_map_of_mem (by simp))⟩
  · intro s read paths sources hlru hsources loader
    refine ⟨?_, ?_, ?_, ?_⟩
    · intro st
      unfold run
      rw [hsources]
      exact runSources_eq_visit s sources loader st
    · intro sink
      unfold check describeAll
      rw [hsources]
      exact describe_eq_visit s _ sources loader sink
    · intro sink
      unfold disasm describeAll
      rw [hsources]
      exact describe_eq_visit s _ sources loader sink
    · intro σ act x loads
      have heconomical : Economical view loads := visit_economical (roomy_loader hlru sources) x
      exact ⟨visit_loads s act sources loader x, heconomical, heconomical.decodings_le⟩

/-- With room for one program: a source is loaded, forgotten for another, and
not loaded in time; the other is found although its load was called off.  The
first one is missed after that.  A file that is listed twice is decoded once. -/
theorem cache_holds_latest_one :
    let a : Bytes := [97, 98, 97, 98]
    let b : Bytes := [97, 97, 98, 99]
    let late : Failure := .plain "context deadline exceeded"
    let requests : List Request :=
      [⟨a, none⟩, ⟨b, none⟩, ⟨a, some late⟩, ⟨b, some (.known .cancelled)⟩]
    let next : Request := ⟨a, some late⟩
    let start := Loader.new .standard 2 0 0
    let l := start.after requests
    let read : FileReader := fun _ => .ok a
    let s : Setting (Cache Content.Id Program) := ⟨.default, none, .standard, 2, 0⟩
    let sources : List SourceFile := [⟨"a", a⟩, ⟨"a", a⟩]
    s.store.IsLru id ∧
      Content.TellApart s.store.hash ((requests ++ [next]).map Request.src) ∧
      successes (start.outcomes requests) = [a, b, b] ∧ l.size = 1 ∧
      (l.load next.done a).hit = false ∧ (l.load next.done a).result = .error late ∧
      readSources read ["a", "a"] = .ok sources ∧
      decodings (visit s (writing (listing 2)) sources (s.loader sources) Sink.unlimited).1 a
        ≤ 1 := by
  intro a b late requests next start l read s sources
  have hlru : s.store.IsLru id := Program.Store.standard_isLru
  have hne : Content.Id.ofData none a ≠ Content.Id.ofData none b := by
    show Content.Id.ofData none [97, 98, 97, 98] ≠ Content.Id.ofData none [97, 97, 98, 99]
    decide +kernel
  have hids : Content.TellApart s.store.hash ((requests ++ [next]).map Request.src) := by
    show Content.TellApart s.store.hash [a, b, a, b, a]
    exact Content.tellApart_of_two hne (by simp)
  have hcodes : Source.codes a = .ok #[⟨97, 98, 97, 98⟩] := by
    show Source.codes [97, 98, 97, 98] = _
    cbv
  have ha : ∀ l : Loader (Cache Content.Id Program),
      l.compile none a = .ok #[⟨.dup, 0, halt, halt, 0⟩] := by
    intro l
    rw [compile_eq]
    show Source.program [97, 98, 97, 98] = _
    cbv
  have hb : ∀ l : Loader (Cache Content.Id Program),
      l.compile none b = .ok #[⟨.push, 0, halt, halt, 0⟩] := by
    intro l
    rw [compile_eq]
    show Source.program [97, 97, 98, 99] = _
    cbv
  have hlate : ∀ l : Loader (Cache Content.Id Program), l.compile (some late) a = .error late :=
    fun l => (compile_uncached l next).calledOff _ late hcodes rfl
  -- whatever the two sources are, so that no id is computed here
  have hsequence : ∀ (x y : Bytes) (p q : Program) (f g : Failure),
      Content.Id.ofData none x ≠ Content.Id.ofData none y →
      (∀ l : Loader (Cache Content.Id Program), l.compile none x = .ok p) →
      (∀ l : Loader (Cache Content.Id Program), l.compile none y = .ok q) →
      (∀ l : Loader (Cache Content.Id Program), l.compile (some f) x = .error f) →
      successes ((Loader.new .standard 2 0 0).outcomes
          [⟨x, none⟩, ⟨y, none⟩, ⟨x, some f⟩, ⟨y, some g⟩])
        = [x, y, y] := by
    intro x y p q f g hne hx hy hf
    simp [successes, success?, outcomes, load, find?, remember, Loader.new,
      Program.Store.standard, Cache.new, Cache.get?, Cache.add, Cache.others,
      List.filterMap_cons, hx, hy, hf, hne, hne.symm]
  have huses : successes (start.outcomes requests) = [a, b, b] :=
    hsequence a b _ _ late _ hne ha hb hlate
  obtain ⟨hholds, hserves⟩ := cache_holds_latest.1 .standard 2 0 0 requests next hlru hids
  rw [huses] at hholds hserves
  have hmiss : (l.load next.done a).hit = false := by
    have hnot : a ∉ (latestFirst [a, b, b]).take 1 := by decide
    simpa using fun hhit => hnot (hserves.hit_iff.1 hhit)
  obtain ⟨_, _, _, heconomical⟩ := cache_holds_latest.2 s read ["a", "a"] sources hlru rfl
  exact ⟨hlru, hids, huses, hholds.size_eq, hmiss,
    (hserves.missed hmiss).2.calledOff _ late hcodes rfl, rfl,
    (heconomical Sink (writing (listing 2)) Sink.unlimited).2.2 a⟩

end Tetraglyph.Command
