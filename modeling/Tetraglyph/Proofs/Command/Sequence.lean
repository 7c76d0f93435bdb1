/-
  Tetraglyph.Proofs.Command.Sequence
  ──────────────────────────────────
  **PROGRAMS IN SEQUENCE.**

  Running two lists of programs as one is running the second behind the
  first.  If the first list fails, nothing of the second is started.  If all
  of the first is done, the second starts where the first has left off: it
  reads the tokens that are left, and writes behind what was written.  The
  one loader of the whole run makes no difference to this, so a source that
  was run before is run as if it had just been loaded.

      Ends     — a run that comes to an end, the programs that it starts,
                 and what it leaves
      afresh   — the streams a run leaves, with nothing written yet

  Main results

      Runs.of_le        — more batches make no difference
      Runs.congr        — nor does what the loader remembers
      Runs.behind       — nor does what was written before
      Runs.append       — a run behind a run that is done
      run_sequential    — runs of two lists are runs in sequence
-/
import Tetraglyph.Proofs.Program.Caching
import Tetraglyph.Proofs.Command.Programs

namespace Tetraglyph.Command

open Machine

variable {γ : Type} {view : γ → Cache Content.Id Program}

/-! ## §1. What makes no difference to a run. -/

section

variable {s : Setting γ} {sources : List SourceFile} {l : Loader γ} {st st' : Streams}
  {log : List (SourceFile × Program)} {v : Verdict}

/-- **More batches make no difference** to a run that comes to an end. -/
theorem Runs.of_le {a b : Nat} (h : Runs (s.allowing a) sources l st log v st')
    (hv : v ≠ .unfinished) (hle : a ≤ b) : Runs (s.allowing b) sources l st log v st' := by
  induction h with
  | nil => exact .nil
  | rejected hload => exact .rejected hload
  | stopped hload hrun hdone =>
      refine .stopped hload ?_ hdone
      rw [runProgram_of_le (by rw [hrun]; exact hv) hle, hrun]
  | passed hload hrun hrest ih =>
      refine .passed hload ?_ (ih hv)
      rw [runProgram_of_le (by rw [hrun]; simp) hle, hrun]

/-- **What was written before makes no difference**, and stays in front. -/
theorem Runs.behind (h : Runs s sources l st log v st') (output diagnostics : List String) :
    Runs s sources l (st.behind output diagnostics) log v (st'.behind output diagnostics) := by
  induction h with
  | nil => exact .nil
  | rejected hload => exact .rejected hload
  | stopped hload hrun hdone =>
      refine .stopped hload ?_ hdone
      rw [runProgram_behind, hrun]
  | passed hload hrun hrest ih =>
      refine .passed hload ?_ ih
      rw [runProgram_behind, hrun]

section

variable {srcs : List Bytes} (hs : s.done = none) (hmem : ∀ src ∈ sources, src.data ∈ srcs)
  (hl : l.Faithful view srcs)

include hs hmem hl

/-- **What the loader remembers makes no difference.** -/
theorem Runs.congr (h : Runs s sources l st log v st') {l' : Loader γ}
    (hl' : l'.Faithful view srcs) :
    Runs s sources l' st log v st' := by
  induction h generalizing l' with
  | nil => exact .nil
  | @rejected src rest l st f hload =>
      have hsrc := hmem src List.mem_cons_self
      rw [hs, (Loader.load_faithful hl hsrc).1] at hload
      refine .rejected ?_
      rw [hs, (Loader.load_faithful hl' hsrc).1, hload]
  | @stopped src rest l st st' p v hload hrun hdone =>
      have hsrc := hmem src List.mem_cons_self
      rw [hs, (Loader.load_faithful hl hsrc).1] at hload
      refine .stopped ?_ hrun hdone
      rw [hs, (Loader.load_faithful hl' hsrc).1, hload]
  | @passed src rest l st st' st'' p log v hload hrun hrest ih =>
      obtain ⟨hsrc, hrestmem⟩ := List.forall_mem_cons.1 hmem
      obtain ⟨hresult, hkept⟩ := Loader.load_faithful hl hsrc
      obtain ⟨hresult', hkept'⟩ := Loader.load_faithful hl' hsrc
      rw [hs, hresult] at hload
      refine .passed ?_ hrun (ih hrestmem ?_ ?_)
      · rw [hs, hresult', hload]
      · rw [hs]
        exact hkept
      · rw [hs]
        exact hkept'

/-- **Every program is started as its source has it.** -/
theorem Runs.fresh (h : Runs s sources l st log v st') :
    ∀ e ∈ log, Source.program e.1.data = .ok e.2 := by
  induction h with
  | nil => simp
  | rejected => simp
  | @stopped src rest l st st' p v hload =>
      rw [hs, (Loader.load_faithful hl (hmem src List.mem_cons_self)).1] at hload
      simpa using hload
  | @passed src rest l st st' st'' p log v hload hrun hrest ih =>
      obtain ⟨hsrc, hrestmem⟩ := List.forall_mem_cons.1 hmem
      obtain ⟨hresult, hkept⟩ := Loader.load_faithful hl hsrc
      rw [hs, hresult] at hload
      exact List.forall_mem_cons.2 ⟨hload, ih hrestmem (by rw [hs]; exact hkept)⟩

/-- **A run behind a run that is done**, with any loader of its own. -/
theorem Runs.append (h : Runs s sources l st log v st') (hv : v = .done)
    {more : List SourceFile} (hmore : ∀ src ∈ more, src.data ∈ srcs) {l' : Loader γ}
    (hl' : l'.Faithful view srcs) {log' : List (SourceFile × Program)} {w : Verdict}
    {st'' : Streams}
    (h' : Runs s more l' st' log' w st'') :
    Runs s (sources ++ more) l st (log ++ log') w st'' := by
  induction h with
  | nil => exact h'.congr hs hmore hl' hl
  | rejected => exact absurd hv (by simp)
  | stopped _ _ hdone => exact absurd hv hdone
  | passed hload hrun hrest ih =>
      obtain ⟨hsrc, hrestmem⟩ := List.forall_mem_cons.1 hmem
      refine .passed hload hrun (ih hrestmem ?_ hv h')
      rw [hs]
      exact (Loader.load_faithful hl hsrc).2

end

/-- A run that fails starts nothing of a list behind its own. -/
theorem Runs.append_failed (h : Runs s sources l st log v st') (hv : v ≠ .done)
    (more : List SourceFile) : Runs s (sources ++ more) l st log v st' := by
  induction h with
  | nil => exact absurd rfl hv
  | rejected hload => exact .rejected hload
  | stopped hload hrun hdone => exact .stopped hload hrun hdone
  | passed hload hrun hrest ih => exact .passed hload hrun (ih hv)

/-! ## §2. What a run starts, and how it ends. -/

/-- The programs that are started are the first ones of the list. -/
theorem Runs.started (h : Runs s sources l st log v st') :
    log.map Prod.fst <+: sources ∧ (v = .done → log.map Prod.fst = sources) := by
  induction h with
  | nil => exact ⟨List.prefix_rfl, fun _ => rfl⟩
  | rejected => exact ⟨List.nil_prefix, fun hv => absurd hv (by simp)⟩
  | stopped _ _ hdone => exact ⟨by simp, fun hv => absurd hv hdone⟩
  | passed hload hrun hrest ih =>
      refine ⟨List.cons_prefix_cons.2 ⟨rfl, ih.1⟩, fun hv => ?_⟩
      rw [List.map_cons, ih.2 hv]

theorem conclude_isSome (path : String) (r : Option (Option Failure × Machine)) :
    (conclude s path st r).2.diagnostics.isSome = st.diagnostics.isSome := by
  unfold conclude
  split
  next => rfl
  next =>
      split
      next => rfl
      next =>
          split
          next => rfl
          next hshow =>
              rcases showStack_ok hshow with rfl | ⟨sink, _, sink', hsome, _, rfl⟩
              · rfl
              · rw [hsome]
                rfl

/-- There are diagnostics behind a run if there were some before it. -/
theorem Runs.isSome (h : Runs s sources l st log v st') :
    st'.diagnostics.isSome = st.diagnostics.isSome := by
  have hone : ∀ {path : String} {p : Program} {st st' : Streams} {v : Verdict},
      runProgram s path p st = (v, st') → st'.diagnostics.isSome = st.diagnostics.isSome := by
    intro path p st st' v hrun
    rw [← show (runProgram s path p st).2 = st' by rw [hrun], runProgram_eq]
    split
    next => rfl
    next => exact conclude_isSome path _
  induction h with
  | nil => rfl
  | rejected => rfl
  | stopped _ hrun => exact hone hrun
  | passed _ hrun _ ih => exact ih.trans (hone hrun)

/-- **A run with a base there is ends with a verdict on its programs.** -/
theorem Runs.verdict (hs : s.done = none) (hb : 2 ≤ s.config.base ∧ s.config.base ≤ 36)
    (h : Runs s sources l st log v st') (hl : l.Client) (hv : v ≠ .unfinished) :
    v = .done ∨ ∃ f, v = .failed f := by
  induction h with
  | nil => exact .inl rfl
  | rejected => exact .inr ⟨_, rfl⟩
  | @stopped src rest l st st' p v hload hrun hdone =>
      have hp : p.Loaded := .source hl s.done src.data hload
      obtain ⟨_, r, u, _, _, ⟨_, _, hends⟩ | ⟨f, _, hends⟩⟩ :=
        runProgram_cases hs hb hp src.path st (by rw [hrun]; exact hv)
      · obtain ⟨rfl, _⟩ := Prod.mk.inj (hrun.symm.trans hends)
        cases r with
        | none => exact .inl rfl
        | some f => exact .inr ⟨_, rfl⟩
      · obtain ⟨rfl, _⟩ := Prod.mk.inj (hrun.symm.trans hends)
        exact .inr ⟨f, rfl⟩
  | passed _ _ _ ih => exact ih (.load hl s.done _) hv

end

/-! ## §3. Runs that end. -/

/-- **A run of the programs at some paths comes to an end**, given enough
batches: the programs that it starts, its verdict, and the streams that it
leaves. -/
def Ends (s : Setting γ) (read : FileReader) (paths : List String) (st : Streams)
    (log : List (SourceFile × Program)) (v : Verdict) (st' : Streams) : Prop :=
  v ≠ .unfinished ∧ ∃ limit sources, readSources read paths = .ok sources ∧
    run (s.allowing limit) read paths st = (v, st') ∧
    Runs (s.allowing limit) sources (s.loader sources) st log v st'

section

variable {s : Setting γ} {read : FileReader} {paths : List String} {sources : List SourceFile}
  (hsources : readSources read paths = .ok sources) {st st' : Streams}
  {log : List (SourceFile × Program)} {v : Verdict}

include hsources

/-- A run ends as its sources do. -/
theorem ends_iff : Ends s read paths st log v st' ↔
    v ≠ .unfinished ∧
      ∃ limit, Runs (s.allowing limit) sources (s.loader sources) st log v st' := by
  constructor
  · rintro ⟨hv, limit, sources', hread, -, hruns⟩
    obtain rfl : sources = sources' := Except.ok.inj (hsources.symm.trans hread)
    exact ⟨hv, limit, hruns⟩
  · rintro ⟨hv, limit, hruns⟩
    refine ⟨hv, limit, sources, hsources, ?_, hruns⟩
    exact hruns.run_eq hsources

/-- Enough batches for a run and for another. -/
theorem Ends.runs (h : Ends s read paths st log v st') :
    ∃ limit, ∀ more, limit ≤ more →
      Runs (s.allowing more) sources (s.loader sources) st log v st' := by
  obtain ⟨hv, limit, hruns⟩ := (ends_iff hsources).1 h
  exact ⟨limit, fun more hle => hruns.of_le hv hle⟩

end

/-- The streams that a run leaves, with nothing written yet. -/
def Streams.afresh (st : Streams) : Streams :=
  ⟨st.input, { st.output with written := [] },
    st.diagnostics.map fun d => { d with written := [] }⟩

/-- All that is shown in the diagnostics. -/
def Streams.shown (st : Streams) : String := (st.diagnostics.map Sink.text).getD ""

/-- The streams with what was written to others in front. -/
def Streams.after (st before : Streams) : Streams :=
  st.behind before.output.written ((before.diagnostics.map Sink.written).getD [])

/-- What was written, put in front again. -/
theorem Streams.afresh_after (st : Streams) : st.afresh.after st = st := by
  obtain ⟨input, output, _ | d⟩ := st
  · rfl
  · rfl

/-- Texts behind the texts of other streams. -/
theorem Streams.texts_after {st before : Streams}
    (h : st.diagnostics.isSome = before.diagnostics.isSome) :
    (st.after before).output.text = before.output.text ++ st.output.text ∧
      (st.after before).shown = before.shown ++ st.shown := by
  refine ⟨Sink.text_behind st.output before.output.written, ?_⟩
  obtain ⟨_, _, diagnostics⟩ := st
  obtain ⟨_, _, diagnostics'⟩ := before
  cases diagnostics with
  | none =>
      cases diagnostics' with
      | none => rfl
      | some d' => exact absurd h (by simp)
  | some d =>
      cases diagnostics' with
      | none => exact absurd h (by simp)
      | some d' => exact Sink.text_behind d d'.written

/-! ## §4. Two lists. -/

theorem faithful_loader {s : Setting γ} (hlru : s.store.IsLru view) {srcs : List Bytes}
    (hids : Content.TellApart s.store.hash srcs) (sources : List SourceFile) :
    (s.loader sources).Faithful view srcs :=
  Loader.faithful_new hlru hids _ _ _

/-- A run of a second list from where a run of a first one has left off is a
run of both, each with a loader for its own sources. -/
theorem Runs.join {s : Setting γ} (hlru : s.store.IsLru view) {srcs : List Bytes}
    (hids : Content.TellApart s.store.hash srcs) (hs : s.done = none) {as bs : List SourceFile}
    (hmem : ∀ src ∈ as ++ bs, src.data ∈ srcs) {st st₁ st₂ : Streams}
    {log log' : List (SourceFile × Program)} {w : Verdict}
    (hfirst : Runs s as (s.loader as) st log .done st₁)
    (hsecond : Runs s bs (s.loader bs) st₁.afresh log' w st₂) :
    Runs s (as ++ bs) (s.loader (as ++ bs)) st (log ++ log') w (st₂.after st₁) := by
  have hnew := faithful_loader hlru hids
  obtain ⟨hmema, hmemb⟩ := List.forall_mem_append.1 hmem
  have hbehind : Runs s bs (s.loader bs) (st₁.afresh.after st₁) log' w (st₂.after st₁) :=
    hsecond.behind _ _
  rw [Streams.afresh_after] at hbehind
  have hlarger := hfirst.congr hs hmema (hnew as) (hnew (as ++ bs))
  exact hlarger.append hs hmema (hnew (as ++ bs)) rfl hmemb (hnew bs) hbehind

/-- The sources of two lists of files that can be read. -/
theorem readSources_append {read : FileReader} {ps qs : List String} (hps : ps ≠ [])
    (hqs : qs ≠ []) (hread : ∀ path ∈ ps ++ qs, ∃ data, read path = .ok data) :
    ∃ as bs, readSources read ps = .ok as ∧ readSources read qs = .ok bs ∧
      readSources read (ps ++ qs) = .ok (as ++ bs) ∧ as.map SourceFile.path = ps ∧
      ∀ src ∈ as ++ bs, read src.path = .ok src.data ∧ src.data ∈ contents read (ps ++ qs) := by
  obtain ⟨hreadp, hreadq⟩ := List.forall_mem_append.1 hread
  obtain ⟨as, has, hpaths, hasall⟩ := mapM_readSource hreadp
  obtain ⟨bs, hbs, _, hbsall⟩ := mapM_readSource hreadq
  refine ⟨as, bs, ?_, ?_, ?_, hpaths, ?_⟩
  · rw [readSources_eq hps, has]
  · rw [readSources_eq hqs, hbs]
  · rw [readSources_eq (by simp [hps]), List.mapM_append, has, hbs]
    rfl
  · intro src hsrc
    rcases List.mem_append.1 hsrc with hsrc | hsrc
    · obtain ⟨hpath, hdata⟩ := hasall src hsrc
      exact ⟨hdata, mem_contents (List.mem_append_left qs hpath) hdata⟩
    · obtain ⟨hpath, hdata⟩ := hbsall src hsrc
      exact ⟨hdata, mem_contents (List.mem_append_right ps hpath) hdata⟩

/-- **Running two lists of programs as one is running them in sequence.**  If
the run of the first list fails, the run of both fails in the same way, leaves
the same, and starts the same programs, which are all of the first list.  If
the run of the first list is done, the run of both ends as a run of the second
on the tokens that are left; what it writes is what the first run wrote and
then what the second writes; and it starts the programs of the first list and
then those that the second run starts.  Every program is started as a new
loader gives it out, whatever was started before. -/
theorem run_sequential {s : Setting γ} (hlru : s.store.IsLru view) (hs : s.done = none)
    (hb : 2 ≤ s.config.base ∧ s.config.base ≤ 36) {read : FileReader} {ps qs : List String}
    (hps : ps ≠ []) (hqs : qs ≠ []) (hread : ∀ path ∈ ps ++ qs, ∃ data, read path = .ok data)
    (hids : Content.TellApart s.store.hash (contents read (ps ++ qs))) (st : Streams) :
    (∀ log v st₁, Ends s read ps st log v st₁ →
      (∃ f, v = .failed f ∧ Ends s read (ps ++ qs) st log (.failed f) st₁ ∧
        (log.map fun e => e.1.path) <+: ps) ∨
      (v = .done ∧ (log.map fun e => e.1.path) = ps ∧
        (∀ log' w st₂, Ends s read qs st₁.afresh log' w st₂ →
          ∃ st', Ends s read (ps ++ qs) st (log ++ log') w st' ∧ st'.input = st₂.input ∧
            st'.output.text = st₁.output.text ++ st₂.output.text ∧
            st'.shown = st₁.shown ++ st₂.shown) ∧
        ∀ log' w st', Ends s read (ps ++ qs) st log' w st' →
          ∃ log'' st₂, Ends s read qs st₁.afresh log'' w st₂)) ∧
    ∀ log v st', Ends s read (ps ++ qs) st log v st' → ∀ e ∈ log,
      read e.1.path = .ok e.1.data ∧ ((s.loader [e.1]).load none e.1.data).result = .ok e.2 := by
  obtain ⟨as, bs, hsp, hsq, hboth, hpaths, hall⟩ := readSources_append hps hqs hread
  have hmem : ∀ src ∈ as ++ bs, src.data ∈ contents read (ps ++ qs) :=
    fun src hsrc => (hall src hsrc).2
  have hcalled : ∀ limit, (s.allowing limit).done = none := fun _ => hs
  refine ⟨?_, ?_⟩
  · intro log v st₁ hends
    obtain ⟨limit, hruns⟩ := Ends.runs hsp hends
    have hfirst := hruns limit (Nat.le_refl limit)
    have hpathsOf : (log.map fun e => e.1.path) = (log.map Prod.fst).map SourceFile.path := by
      rw [List.map_map]
      rfl
    rcases hfirst.verdict (hcalled limit) hb (.new hlru _ _ _) hends.1 with rfl | ⟨f, rfl⟩
    · refine .inr ⟨rfl, ?_, ?_, ?_⟩
      · rw [hpathsOf, hfirst.started.2 rfl, hpaths]
      · intro log' w st₂ hends'
        obtain ⟨limit', hruns'⟩ := Ends.runs hsq hends'
        have hsecond := hruns' (max limit limit') (by omega)
        have hrun := Runs.join (s := s.allowing (max limit limit')) hlru hids hs hmem
          (hruns (max limit limit') (by omega)) hsecond
        have hsome : st₂.diagnostics.isSome = st₁.diagnostics.isSome := by
          rw [hsecond.isSome]
          simp [Streams.afresh]
        obtain ⟨houtput, hshown⟩ := Streams.texts_after hsome
        exact ⟨_, (ends_iff hboth).2 ⟨hends'.1, _, hrun⟩, rfl, houtput, hshown⟩
      · intro log' w st' hends'
        obtain ⟨limit', hruns'⟩ := Ends.runs hboth hends'
        -- whatever comes of the second list, the run of both ends the same way
        obtain ⟨log'', hsecond⟩ := exists_runs (s.allowing (max limit limit')) bs (s.loader bs)
          st₁.afresh
        have hrun := Runs.join (s := s.allowing (max limit limit')) hlru hids hs hmem
          (hruns (max limit limit') (by omega)) hsecond
        have heq := hrun.eq.symm.trans (hruns' (max limit limit') (by omega)).eq
        obtain ⟨hw, _⟩ := Prod.mk.inj heq
        rw [hw] at hsecond
        exact ⟨log'', _, (ends_iff hsq).2 ⟨hends'.1, _, hsecond⟩⟩
    · obtain ⟨hmema, _⟩ := List.forall_mem_append.1 hmem
      have hlarger := hfirst.congr (hcalled limit) hmema (faithful_loader hlru hids as)
        (faithful_loader hlru hids (as ++ bs))
      refine .inl ⟨f, rfl, (ends_iff hboth).2 ⟨hends.1, limit, ?_⟩, ?_⟩
      · exact hlarger.append_failed (by simp) bs
      · rw [hpathsOf, ← hpaths]
        exact hfirst.started.1.map SourceFile.path
  · intro log v st' hends e he
    obtain ⟨limit, hruns⟩ := Ends.runs hboth hends
    have hrun := hruns limit (Nat.le_refl limit)
    have hsrc : e.1 ∈ as ++ bs := hrun.started.1.subset (List.mem_map_of_mem he)
    refine ⟨(hall _ hsrc).1, ?_⟩
    rw [(Loader.load_faithful (faithful_loader hlru hids [e.1]) (hmem _ hsrc)).1]
    exact hrun.fresh (hcalled limit) hmem (faithful_loader hlru hids (as ++ bs)) e he

/-- A source that is run twice.  It splices an instruction in and writes the
number 1; the second run starts with the seven instructions of the source
again. -/
theorem run_sequential_twice :
    ∃ (s : Setting (Cache Content.Id Program)) (read : FileReader) (st st' : Streams)
      (src : SourceFile) (p : Program), s.store.IsLru id ∧ s.done = none ∧
      (2 ≤ s.config.base ∧ s.config.base ≤ 36) ∧
      (∀ path ∈ ["a"] ++ ["a"], ∃ data, read path = .ok data) ∧
      Content.TellApart s.store.hash (contents read (["a"] ++ ["a"])) ∧ p.size = 7 ∧
      Ends s read (["a"] ++ ["a"]) st [(src, p), (src, p)] .done st' ∧
      st'.output.text = "1\n1\n" ∧
      st'.shown = "a: stack []\na: stack []\n" := by
  let s : Setting (Cache Content.Id Program) :=
    ⟨{ Config.default with maxSteps := 20, dump := true }, none, .standard, 1, 0⟩
  let data : Bytes := Bytes.ofText "aabcaabcaabcaabcabcaaabcabbb"
  let read : FileReader := fun _ => .ok data
  let src : SourceFile := ⟨"a", data⟩
  let st : Streams := ⟨Tokens.ofBytes [] none, Sink.unlimited, some Sink.unlimited⟩
  let p : Program := #[⟨.push, 0, 1, 1, 0⟩, ⟨.push, 1, 2, 2, 1⟩, ⟨.push, 2, 3, 3, 2⟩,
    ⟨.push, 3, 4, 4, 3⟩, ⟨.execute, 4, 5, 5, 4⟩, ⟨.push, 5, 6, 6, 5⟩, ⟨.output, 6, halt, halt, 6⟩]
  let st₁ : Streams := ⟨Tokens.ofBytes [] none, { Sink.unlimited with written := ["1\n"] },
    some { Sink.unlimited with written := ["a: stack []\n"] }⟩
  have hread : ∀ path ∈ ["a"] ++ ["a"], ∃ data, read path = .ok data := fun _ _ => ⟨data, rfl⟩
  have hids : Content.TellApart s.store.hash (contents read (["a"] ++ ["a"])) := by
    refine Content.tellApart_of_one (a := data) fun z hz => ?_
    simpa [contents, read, Except.toOption] using hz
  have hlru : s.store.IsLru id := Program.Store.standard_isLru
  have hp : Source.program data = .ok p := by
    show Source.program (Bytes.ofText "aabcaabcaabcaabcabcaaabcabbb") = _
    cbv
  have hmem : data ∈ contents read (["a"] ++ ["a"]) :=
    mem_contents List.mem_cons_self (rfl : read "a" = .ok data)
  have hload : ((s.loader [src]).load none data).result = .ok p := by
    rw [(Loader.load_faithful (faithful_loader hlru hids [src]) hmem).1, hp]
  have hsources : readSources read ["a"] = .ok [src] := rfl
  have hrun : runProgram (s.allowing 0) "a" p st = (.done, st₁) := by cbv
  have honce : Ends s read ["a"] st [(src, p)] .done st₁ :=
    (ends_iff hsources).2 ⟨by simp, 0, .passed hload hrun .nil⟩
  obtain ⟨f, hf, _⟩ | ⟨_, _, hboth, _⟩ := (run_sequential (s := s) hlru rfl ⟨by decide, by decide⟩
    (by simp) (by simp) hread hids st).1 _ _ _ honce
  · exact absurd hf (by simp)
  · obtain ⟨st', hends, _, houtput, hshown⟩ := hboth _ _ _ honce
    refine ⟨s, read, st, st', src, p, hlru, rfl, ⟨by decide, by decide⟩, hread, hids, rfl, hends,
      ?_, ?_⟩
    · rw [houtput]
      rfl
    · rw [hshown]
      rfl

end Tetraglyph.Command
