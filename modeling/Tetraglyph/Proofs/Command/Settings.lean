/-
  Tetraglyph.Proofs.Command.Settings
  ──────────────────────────────────
  **WHAT A RUN DEPENDS ON.**

  A configuration says more than a run depends on.  How many workers decode a
  program makes no difference to the program; whether its stack is shown makes
  none to how it ends, as long as the diagnostics take what is shown; and how
  much is logged makes none at all.  So two runs whose settings AGREE on the
  base and on the limit on the steps go on side by side, from one program to
  the next, and end alike.  Where stacks are shown there is one RECORD for each
  program that was loaded, however it ended.

      Agree      — settings with the same base and limits
      SameEnd    — two runs that end alike
      Recorded   — the records of programs, run one after another

  Main results

      load_congr        — workers make no difference to a load
      runProgram_agree  — one program ends alike under settings that agree
      runSources_agree  — and so do all of them
      Runs.records      — one record for each program
      base_and_steps_decide — what a run depends on
-/
import Tetraglyph.Proofs.Config
import Tetraglyph.Proofs.Command.ExitCodes
import Tetraglyph.Proofs.Command.Sequence
import Tetraglyph.Toml.Settings

namespace Tetraglyph

/-! ## §1. Loads with any number of workers. -/

/-- **Workers and processors make no difference to a load**, where the same is
remembered in the same way. -/
theorem Loader.load_congr {γ : Type} {l l' : Loader γ} (hstore : l'.store = l.store)
    (hcache : l'.cache = l.cache) (src : Bytes) :
    (l'.load none src).result = (l.load none src).result ∧
      (l'.load none src).loader.cache = (l.load none src).loader.cache := by
  have hfind : l'.find? src = l.find? src := by
    unfold find?
    rw [hstore, hcache]
  unfold load
  rw [hfind, l.compile_eq, l'.compile_eq]
  cases l.find? src with
  | some found => exact ⟨rfl, rfl⟩
  | none =>
      cases Source.program src with
      | ok p =>
          refine ⟨rfl, ?_⟩
          show l'.store.add l'.cache (l'.store.hash src) p
            = l.store.add l.cache (l.store.hash src) p
          rw [hstore, hcache]
      | error f => exact ⟨rfl, hcache⟩

namespace Command

open Machine

variable {γ : Type} {view : γ → Cache Content.Id Program}

/-! ## §2. Settings that agree. -/

/-- Settings with the same base and the same limits, neither called off. -/
structure Setting.Agree (s s' : Setting γ) : Prop where
  /-- The base. -/
  base : s'.config.base = s.config.base
  /-- The limit on the steps. -/
  maxSteps : s'.config.maxSteps = s.config.maxSteps
  /-- The number of batches. -/
  limit : s'.limit = s.limit
  /-- The first one is not called off. -/
  running : s.done = none
  /-- The second one is not called off. -/
  running' : s'.done = none

/-- **Two runs end alike**: with one verdict, one rest of the input, and one
output. -/
structure SameEnd (a b : Verdict × Streams) : Prop where
  /-- The verdict. -/
  verdict : b.1 = a.1
  /-- What is left of the input. -/
  input : b.2.input = a.2.input
  /-- What was written. -/
  output : b.2.output = a.2.output

/-- What is made of a machine is alike, where its stack is shown. -/
theorem conclude_agree {s s' : Setting γ} {path : String} {st st' : Streams}
    (hinput : st'.input = st.input) (houtput : st'.output = st.output)
    {result : Option (Option Failure × Machine)}
    (hshow : ∀ r u, result = some (r, u) → ∃ d, showStack s path u st.diagnostics = .ok d)
    (hshow' : ∀ r u, result = some (r, u) → ∃ d, showStack s' path u st'.diagnostics = .ok d) :
    SameEnd (conclude s path st result) (conclude s' path st' result) := by
  cases result with
  | none => exact ⟨rfl, hinput, houtput⟩
  | some result =>
      obtain ⟨r, u⟩ := result
      obtain ⟨d, hd⟩ := hshow r u rfl
      obtain ⟨d', hd'⟩ := hshow' r u rfl
      unfold conclude
      dsimp only
      rw [hd, hd']
      cases u.broken with
      | some e => exact ⟨rfl, rfl, rfl⟩
      | none => exact ⟨rfl, rfl, rfl⟩

section

variable {s s' : Setting γ} (h : s.Agree s')

include h

theorem drive_agree (m : Machine) : drive s' m = drive s m := by
  unfold drive
  rw [h.maxSteps, h.limit, h.running, h.running']

/-- **One program ends alike** under settings that agree, where its stack is
shown. -/
theorem runProgram_agree {path : String} {p : Program} (hp : p.Loaded) {st st' : Streams}
    (hinput : st'.input = st.input) (houtput : st'.output = st.output)
    (hshow : ∀ start r u, Machine.new p s.config.base st.input st.output = .ok start →
      Driven s start r u → ∃ d, showStack s path u st.diagnostics = .ok d)
    (hshow' : ∀ start r u, Machine.new p s'.config.base st'.input st'.output = .ok start →
      Driven s' start r u → ∃ d, showStack s' path u st'.diagnostics = .ok d) :
    SameEnd (runProgram s path p st) (runProgram s' path p st') := by
  have hsame : Machine.new p s'.config.base st'.input st'.output
      = Machine.new p s.config.base st.input st.output := by rw [h.base, hinput, houtput]
  rw [runProgram_eq, runProgram_eq, hsame]
  cases hnew : Machine.new p s.config.base st.input st.output with
  | error e => exact ⟨rfl, hinput, houtput⟩
  | ok start =>
      have hreg := regular_new hp hnew
      dsimp only
      rw [drive_agree h]
      refine conclude_agree hinput houtput ?_ ?_
      · intro r u hdrive
        exact hshow start r u hnew (drive_driven h.running hreg hdrive)
      · intro r u hdrive
        rw [← drive_agree h] at hdrive
        exact hshow' start r u (hsame.trans hnew) (drive_driven h.running' hreg hdrive)

end

/-! ## §3. Stacks that are shown. -/

section

variable {s : Setting γ} {src : SourceFile} {rest : List SourceFile} {l : Loader γ} {st : Streams}

theorem Shown.head (h : Shown s (src :: rest) l st) {p : Program}
    (hload : (l.load s.done src.data).result = .ok p) (start : Machine) (r : Option Failure)
    (u : Machine) (hnew : Machine.new p s.config.base st.input st.output = .ok start)
    (hdriven : Driven s start r u) : ∃ d, showStack s src.path u st.diagnostics = .ok d :=
  h [] src rest l st start r u rfl .nil ⟨p, hload, hnew⟩ hdriven

/-- Stacks are shown behind a program that is done. -/
theorem Shown.later (h : Shown s (src :: rest) l st) (hs : s.done = none)
    (hb : 2 ≤ s.config.base ∧ s.config.base ≤ 36) (hl : l.Client) {p : Program}
    (hload : (l.load s.done src.data).result = .ok p) {st₁ : Streams}
    (hrun : runProgram s src.path p st = (.done, st₁)) :
    Shown s rest (l.load s.done src.data).loader st₁ := by
  have hp : p.Loaded := .source hl s.done src.data hload
  have hends : (runProgram s src.path p st).1 ≠ .unfinished := by
    rw [hrun]
    simp
  obtain ⟨start, r, u, hnew, hdriven, ⟨d, hd, heq⟩ | ⟨f, _, heq⟩⟩ :=
    runProgram_cases hs hb hp src.path st hends
  · obtain ⟨hverdict, rfl⟩ := Prod.mk.inj (hrun.symm.trans heq)
    cases r with
    | some f => exact absurd hverdict (by simp [verdictOf])
    | none =>
        -- the program passes, so it can stand in front of those that do
        have hhalts := (halts_iff_driven (regular_new hp hnew)).2 hdriven
        intro before src' after l₁ st₂ start' r' u' hsplit hpasses
        exact h (src :: before) src' after l₁ st₂ start' r' u' (congrArg (src :: ·) hsplit)
          (.cons ⟨p, hload, hnew⟩ hhalts hd hpasses)
  · exact absurd (Prod.mk.inj (hrun.symm.trans heq)).1 (by simp)

theorem Driven.of_allowing {limit : Nat} {m u : Machine} {r : Option Failure}
    (h : Driven (s.allowing limit) m r u) : Driven s m r u := by
  cases h with
  | stopped hk hmax => exact .stopped hk hmax
  | cutOff hmax halive => exact .cutOff hmax halive

theorem Passes.of_allowing {limit : Nat} {sources : List SourceFile} {l' : Loader γ} {st' : Streams}
    (h : Passes (s.allowing limit) sources l st l' st') : Passes s sources l st l' st' := by
  induction h with
  | nil => exact .nil
  | cons hstarts hhalts hshow _ ih => exact .cons hstarts hhalts hshow ih

/-- Stacks are shown whatever number of batches is allowed. -/
theorem Shown.allowing {sources : List SourceFile} (h : Shown s sources l st) (limit : Nat) :
    Shown (s.allowing limit) sources l st := by
  intro before src after l₁ st₁ start r u hsplit hpasses hstarts hdriven
  exact h before src after l₁ st₁ start r u hsplit hpasses.of_allowing hstarts hdriven.of_allowing

end

/-! ## §4. Runs side by side. -/

/-- **All programs end alike** under settings that agree, where stacks are
shown. -/
theorem runSources_agree {s s' : Setting γ} (h : s.Agree s')
    (hb : 2 ≤ s.config.base ∧ s.config.base ≤ 36) {sources : List SourceFile} {l l' : Loader γ}
    (hl : l.Client) (hl' : l'.Client) (hstore : l'.store = l.store) (hcache : l'.cache = l.cache)
    {st st' : Streams}     (hinput : st'.input = st.input) (houtput : st'.output = st.output)
    (hshown : Shown s sources l st) (hshown' : Shown s' sources l' st') :
    SameEnd (runSources s sources l st) (runSources s' sources l' st') := by
  have hb' : 2 ≤ s'.config.base ∧ s'.config.base ≤ 36 := by
    rw [h.base]
    exact hb
  induction sources generalizing l l' st st' with
  | nil => exact ⟨rfl, hinput, houtput⟩
  | cons src rest ih =>
      -- the same is remembered on both sides, so the same program is loaded
      obtain ⟨hresult, hcache₁⟩ :
          (l'.load s'.done src.data).result = (l.load s.done src.data).result ∧
            (l'.load s'.done src.data).loader.cache = (l.load s.done src.data).loader.cache := by
        rw [h.running, h.running']
        exact Loader.load_congr hstore hcache src.data
      have hstore₁ :
          (l'.load s'.done src.data).loader.store = (l.load s.done src.data).loader.store := by
        rw [Loader.load_store, Loader.load_store, hstore]
      unfold runSources
      dsimp only
      rw [hresult]
      cases hload : (l.load s.done src.data).result with
      | error f => exact ⟨rfl, hinput, houtput⟩
      | ok p =>
          dsimp only
          have hload' := hresult.trans hload
          have hone := runProgram_agree h (.source hl s.done src.data hload) hinput houtput
            (hshown.head hload) (hshown'.head hload')
          rcases hrun : runProgram s src.path p st with ⟨v, st₁⟩
          rcases hrun' : runProgram s' src.path p st' with ⟨v', st₁'⟩
          rw [hrun, hrun'] at hone
          obtain ⟨hverdict, hin, hout⟩ := hone
          obtain rfl : v' = v := hverdict
          -- both go on behind a program that is done, and both stop behind any other
          cases v' with
          | done =>
              exact ih (.load hl _ _) (.load hl' _ _) hstore₁ hcache₁ hin hout
                (hshown.later h.running hb hl hload hrun)
                (hshown'.later h.running' hb' hl' hload' hrun')
          | _ => exact ⟨rfl, hin, hout⟩

/-- More batches make no difference to a run that comes to an end. -/
theorem run_of_le {s : Setting γ} {read : FileReader} {paths : List String} {st : Streams}
    (h : (run s read paths st).1 ≠ .unfinished) {limit : Nat} (hle : s.limit ≤ limit) :
    run (s.allowing limit) read paths st = run s read paths st := by
  cases hsources : readSources read paths with
  | error f =>
      unfold run
      rw [hsources]
  | ok sources =>
      obtain ⟨log, hruns⟩ := exists_runs (s.allowing s.limit) sources (s.loader sources) st
      have hrun : run s read paths st = _ := hruns.run_eq hsources
      rw [hrun] at h
      rw [hrun]
      exact (hruns.of_le h hle).run_eq hsources

/-! ## §5. The records of a run. -/

/-- **The records of programs**, which are run one after another from some
input and output: each names the source, and shows the stack with which its
machine has stopped, from bottom to top and in the base. -/
inductive Recorded (s : Setting γ) : Tokens → Sink → List (SourceFile × Program) → List String →
    Prop where
  /-- There is no program. -/
  | nil {input : Tokens} {output : Sink} : Recorded s input output [] []
  /-- The first program, and the others behind it. -/
  | cons {input : Tokens} {output : Sink} {src : SourceFile} {p : Program}
      {log : List (SourceFile × Program)} {start u : Machine} {r : Option Failure}
      {texts lines : List String}
      (hnew : Machine.new p s.config.base input output = .ok start)
      (hdriven : Driven s start r u) (htexts : u.stack.texts s.config.base = .ok texts)
      (hrest : Recorded s u.input u.output log lines) :
      Recorded s input output ((src, p) :: log) (stackLine src.path texts :: lines)

/-- There is one record for each program. -/
theorem Recorded.length_eq {s : Setting γ} {input : Tokens} {output : Sink}
    {log : List (SourceFile × Program)} {lines : List String}
    (h : Recorded s input output log lines) : lines.length = log.length := by
  induction h with
  | nil => rfl
  | cons _ _ _ _ ih =>
      rw [List.length_cons, List.length_cons, ih]

/-- A stack that is shown is one line in the diagnostics. -/
theorem showStack_line {s : Setting γ} (hdump : s.config.dump = true) {path : String} {m : Machine}
    {sink : Sink} {d : Option Sink} (h : showStack s path m (some sink) = .ok d) :
    ∃ texts sink', m.stack.texts s.config.base = .ok texts ∧
      sink.write (stackLine path texts) = .ok sink' ∧ d = some sink' := by
  unfold showStack at h
  rw [hdump] at h
  dsimp only at h
  split at h
  next => exact absurd h (by simp)
  next texts htexts =>
      split at h
      next sink' hwrite => exact ⟨texts, sink', htexts, hwrite, (Except.ok.inj h).symm⟩
      next => exact absurd h (by simp)

section

variable {s : Setting γ} (hs : s.done = none) (hb : 2 ≤ s.config.base ∧ s.config.base ≤ 36)
  (hdump : s.config.dump = true)

include hs hb hdump

/-- One program that comes to an end leaves one record. -/
theorem runProgram_recorded {p : Program} (hp : p.Loaded) {path : String} {st : Streams}
    {sink : Sink} (hsink : st.diagnostics = some sink)
    (hends : (runProgram s path p st).1 ≠ .unfinished)
    (hshow : ∀ start r u, Machine.new p s.config.base st.input st.output = .ok start →
      Driven s start r u → ∃ d, showStack s path u st.diagnostics = .ok d) :
    ∃ start r u texts sink', Machine.new p s.config.base st.input st.output = .ok start ∧
      Driven s start r u ∧ u.stack.texts s.config.base = .ok texts ∧
      sink.write (stackLine path texts) = .ok sink' ∧
      runProgram s path p st = (verdictOf path u r, ⟨u.input, u.output, some sink'⟩) := by
  obtain ⟨start, r, u, hnew, hdriven, _⟩ := runProgram_cases hs hb hp path st hends
  -- the stack is shown before the failure of the machine is looked at
  obtain ⟨d, hd⟩ := hshow start r u hnew hdriven
  have hrun := runProgram_driven hs hb hp hnew hdriven hd hends
  rw [hsink] at hd
  obtain ⟨texts, sink', htexts, hwrite, rfl⟩ := showStack_line hdump hd
  exact ⟨start, r, u, texts, sink', hnew, hdriven, htexts, hwrite, hrun⟩

/-- **One record for each program** that was loaded, in order, and nothing
else in the diagnostics. -/
theorem Runs.records {sources : List SourceFile} {l : Loader γ} {st st' : Streams}
    {log : List (SourceFile × Program)} {v : Verdict} (h : Runs s sources l st log v st')
    (hl : l.Client) (hv : v ≠ .unfinished) (hshown : Shown s sources l st) {sink : Sink}
    (hsink : st.diagnostics = some sink) :
    ∃ lines sink', Recorded s st.input st.output log lines ∧
      lines.foldlM Sink.write sink = .ok sink' ∧ st'.diagnostics = some sink' := by
  induction h generalizing sink with
  | nil => exact ⟨[], sink, .nil, rfl, hsink⟩
  | rejected => exact ⟨[], sink, .nil, rfl, hsink⟩
  | @stopped src rest l st st' p v hload hrun _ =>
      have hp : p.Loaded := .source hl s.done src.data hload
      obtain ⟨start, r, u, texts, sink', hnew, hdriven, htexts, hwrite, heq⟩ :=
        runProgram_recorded hs hb hdump hp hsink (by rw [hrun]; exact hv) (hshown.head hload)
      obtain ⟨_, rfl⟩ := Prod.mk.inj (hrun.symm.trans heq)
      refine ⟨[stackLine src.path texts], sink', .cons hnew hdriven htexts .nil, ?_, rfl⟩
      rw [List.foldlM_cons, hwrite]
      rfl
  | @passed src rest l st st₁ st' p log v hload hrun _ ih =>
      have hp : p.Loaded := .source hl s.done src.data hload
      obtain ⟨start, r, u, texts, sink₁, hnew, hdriven, htexts, hwrite, heq⟩ :=
        runProgram_recorded hs hb hdump hp hsink (by rw [hrun]; simp) (hshown.head hload)
      have hlater := hshown.later hs hb hl hload hrun
      obtain ⟨_, rfl⟩ := Prod.mk.inj (hrun.symm.trans heq)
      obtain ⟨lines, sink', hrecorded, hwritten, hleft⟩ := ih (.load hl s.done _) hv hlater rfl
      refine ⟨_ :: lines, sink', .cons hnew hdriven htexts hrecorded, ?_, hleft⟩
      rw [List.foldlM_cons, hwrite]
      exact hwritten

end

/-! ## §6. What a run depends on. -/

/-- **A run depends on the base and on the limit on the steps alone.**  Take a
configuration that was loaded and another that agrees with it on these two, any
paths, and the same input and output for both runs, neither of them called off,
which remember programs in the same way; and let the diagnostics take what is
shown.  Then one run comes to an end if the other does, and they end alike: with
the same verdict, the same rest of the input, and the same output.  Where
stacks are shown, the diagnostics receive one record for each program that was
loaded, in order and however it ended, and nothing else. -/
theorem base_and_steps_decide {formats : Config.Formats} {files : FileReader} {flags : Flags}
    {s s' : Setting γ} (hlru : s.store.IsLru view) (hstore : s'.store = s.store)
    (hconfig : Config.load formats files flags = .ok s.config)
    (hbase : s'.config.base = s.config.base) (hmax : s'.config.maxSteps = s.config.maxSteps)
    (hs : s.done = none) (hs' : s'.done = none) {read : FileReader}
    {paths : List String} {st st' : Streams} (hinput : st'.input = st.input)
    (houtput : st'.output = st.output)
    (hshown : ∀ sources, readSources read paths = .ok sources →
      Shown s sources (s.loader sources) st)
    (hshown' : ∀ sources, readSources read paths = .ok sources →
      Shown s' sources (s'.loader sources) st') :
    ((∃ limit, (run (s.allowing limit) read paths st).1 ≠ .unfinished) ↔
      ∃ limit, (run (s'.allowing limit) read paths st').1 ≠ .unfinished) ∧
    ((run s read paths st).1 ≠ .unfinished → (run s' read paths st').1 ≠ .unfinished →
      SameEnd (run s read paths st) (run s' read paths st')) ∧
    (∀ f, readSources read paths = .error f → run s read paths st = (.failed f, st)) ∧
    ∀ sources sink, readSources read paths = .ok sources → s.config.dump = true →
      st.diagnostics = some sink → (run s read paths st).1 ≠ .unfinished →
      ∃ log lines sink',
        Runs s sources (s.loader sources) st log (run s read paths st).1 (run s read paths st).2 ∧
        Recorded s st.input st.output log lines ∧ lines.length = log.length ∧
        lines.foldlM Sink.write sink = .ok sink' ∧
        (run s read paths st).2.diagnostics = some sink' ∧
        (sink.keeps = true → sink'.text = sink.text ++ String.join lines) := by
  have hb : 2 ≤ s.config.base ∧ s.config.base ≤ 36 := Config.load_hasBase hconfig
  have hfailed : ∀ f, readSources read paths = .error f →
      run s read paths st = (.failed f, st) := by
    intro f hf
    unfold run
    rw [hf]
  -- with one number of batches for both, they go on side by side
  have hsame : ∀ limit,
      SameEnd (run (s.allowing limit) read paths st) (run (s'.allowing limit) read paths st') := by
    intro limit
    have hagree : (s.allowing limit).Agree (s'.allowing limit) := ⟨hbase, hmax, rfl, hs, hs'⟩
    unfold run
    cases hsources : readSources read paths with
    | error f => exact ⟨rfl, hinput, houtput⟩
    | ok sources =>
        have hcache : (s'.loader sources).cache = (s.loader sources).cache := by
          show s'.store.new _ = s.store.new _
          rw [hstore]
        have hlru' : s'.store.IsLru view := by
          rw [hstore]
          exact hlru
        exact runSources_agree hagree hb (.new hlru _ _ _) (.new hlru' _ _ _) hstore hcache hinput
          houtput ((hshown sources hsources).allowing limit)
          ((hshown' sources hsources).allowing limit)
  refine ⟨⟨?_, ?_⟩, ?_, hfailed, ?_⟩
  · rintro ⟨limit, hends⟩
    refine ⟨limit, ?_⟩
    rw [(hsame limit).verdict]
    exact hends
  · rintro ⟨limit, hends⟩
    refine ⟨limit, ?_⟩
    rw [← (hsame limit).verdict]
    exact hends
  · -- more batches change nothing, so both may have as many as the larger number
    intro hends hends'
    rw [← run_of_le hends (Nat.le_max_left s.limit s'.limit),
      ← run_of_le hends' (Nat.le_max_right s.limit s'.limit)]
    exact hsame _
  · intro sources sink hsources hdump hsink hends
    obtain ⟨log, hruns⟩ := exists_runs s sources (s.loader sources) st
    have hrun : run s read paths st = _ := hruns.run_eq hsources
    rw [hrun] at hends ⊢
    obtain ⟨lines, sink', hrecorded, hwritten, hleft⟩ :=
      hruns.records hs hb hdump (.new hlru _ _ _) hends (hshown sources hsources) hsink
    exact ⟨log, lines, sink', hruns, hrecorded, hrecorded.length_eq, hwritten, hleft,
      fun hkeeps => Sink.text_foldlM hkeeps hwritten⟩

/-- A program that pushes a number and reads another where there is none, under
two configurations: one shows stacks, and the other decodes with four workers.
Both runs end alike, and the stack is shown although the program fails. -/
theorem base_and_steps_decide_fault :
    ∃ (files : FileReader) (flags : Flags) (s s' : Setting (Cache Content.Id Program))
      (read : FileReader) (src : SourceFile) (st : Streams) (log : List (SourceFile × Program))
      (lines : List String) (sink' : Sink),
      s.store.IsLru id ∧ Config.load .standard files flags = .ok s.config ∧
      s'.config.base = s.config.base ∧ s'.config.maxSteps = s.config.maxSteps ∧
      s.config.dump = true ∧ s'.config.dump = false ∧
      s'.config.workers = 4 ∧ readSources read ["a"] = .ok [src] ∧
      Shown s [src] (s.loader [src]) st ∧ Shown s' [src] (s'.loader [src]) st ∧
      (run s read ["a"] st).1 = .failed (.faultFrom .inputNotValidInteger 1 (.known .endOfInput)) ∧
      SameEnd (run s read ["a"] st) (run s' read ["a"] st) ∧
      Recorded s st.input st.output log lines ∧ lines.length = log.length ∧
      lines.foldlM Sink.write Sink.unlimited = .ok sink' ∧ sink'.text = "a: stack [1]\n" := by
  let data : Bytes := Bytes.ofText "aabcaaab"
  let flags : Flags := { maxSteps := "20", dump := "true" }
  let s : Setting (Cache Content.Id Program) :=
    ⟨{ Config.default with maxSteps := 20, dump := true }, none, .standard, 1, 0⟩
  let s' : Setting (Cache Content.Id Program) :=
    ⟨{ Config.default with maxSteps := 20, workers := 4 }, none, .standard, 1, 0⟩
  let read : FileReader := fun _ => .ok data
  let src : SourceFile := ⟨"a", data⟩
  let p : Program := #[⟨.push, 0, 1, 1, 0⟩, ⟨.input, 1, halt, halt, 1⟩]
  let v : Verdict := .failed (.faultFrom .inputNotValidInteger 1 (.known .endOfInput))
  let st : Streams := ⟨Tokens.ofBytes [] none, Sink.unlimited, some Sink.unlimited⟩
  let st₁ : Streams := ⟨Tokens.ofBytes [] none, Sink.unlimited,
    some { Sink.unlimited with written := ["a: stack [1]\n"] }⟩
  have hconfig : Config.load .standard read flags = .ok s.config := by cbv
  have hp : Source.program data = .ok p := by
    show Source.program (Bytes.ofText "aabcaaab") = _
    cbv
  have hlru : s.store.IsLru id := Program.Store.standard_isLru
  have hids : Content.TellApart s.store.hash [data] :=
    Content.tellApart_of_one fun _ => List.mem_singleton.1
  have hload : ∀ l : Loader (Cache Content.Id Program), l.Faithful id [data] →
      (l.load none data).result = .ok p := by
    intro l hl
    rw [(Loader.load_faithful hl List.mem_cons_self).1, hp]
  have hunlimited : Unlimited st.diagnostics := by
    intro sink hsink
    rw [← Option.some.inj hsink]
    rfl
  have hshown : ∀ s : Setting (Cache Content.Id Program), 2 ≤ s.config.base ∧ s.config.base ≤ 36 →
      ∀ sources, readSources read ["a"] = .ok sources → Shown s sources (s.loader sources) st :=
    fun s hb sources _ => shown_of_unlimited hb hunlimited sources _
  have hb : 2 ≤ s.config.base ∧ s.config.base ≤ 36 := ⟨by decide, by decide⟩
  have hb' : 2 ≤ s'.config.base ∧ s'.config.base ≤ 36 := ⟨by decide, by decide⟩
  have hone : runProgram s "a" p st = (v, st₁) := by cbv
  have hone' : runProgram s' "a" p st = (v, st) := by cbv
  have hnew : (s.loader [src]).Faithful id [data] := Loader.faithful_new hlru hids _ _ _
  have hnew' : (s'.loader [src]).Faithful id [data] := Loader.faithful_new hlru hids _ _ _
  have hruns : Runs s [src] (s.loader [src]) st [(src, p)] v st₁ :=
    .stopped (hload _ hnew) hone (by simp [v])
  have hruns' : Runs s' [src] (s'.loader [src]) st [(src, p)] v st :=
    .stopped (hload _ hnew') hone' (by simp [v])
  have hsources : readSources read ["a"] = .ok [src] := rfl
  have hrun : run s read ["a"] st = (v, st₁) := hruns.run_eq hsources
  have hrun' : run s' read ["a"] st = (v, st) := hruns'.run_eq hsources
  have hends : (run s read ["a"] st).1 ≠ .unfinished := by
    rw [hrun]
    simp [v]
  have hends' : (run s' read ["a"] st).1 ≠ .unfinished := by
    rw [hrun']
    simp [v]
  obtain ⟨_, hsame, _, hrecords⟩ := base_and_steps_decide hlru
    (rfl : s'.store = s.store) hconfig (rfl : s'.config.base = s.config.base) rfl rfl rfl rfl rfl
    (hshown s hb) (hshown s' hb')
  obtain ⟨log, lines, sink', _, hrecorded, hlength, hwritten, hleft, _⟩ :=
    hrecords [src] Sink.unlimited hsources rfl rfl hends
  have htext : sink'.text = "a: stack [1]\n" := by
    rw [hrun] at hleft
    rw [← Option.some.inj hleft]
    rfl
  refine ⟨read, flags, s, s', read, src, st, log, lines, sink', hlru, hconfig, rfl, rfl, rfl, rfl,
    rfl, hsources, hshown s hb _ hsources, hshown s' hb' _ hsources, ?_, hsame hends hends',
    hrecorded, hlength, hwritten, htext⟩
  rw [hrun]

end Command

end Tetraglyph
