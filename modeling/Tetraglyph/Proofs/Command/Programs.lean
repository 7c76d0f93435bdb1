/-
  Tetraglyph.Proofs.Command.Programs
  ──────────────────────────────────
  **THE PROGRAMS OF A COMMAND.**

  A command runs each program on the streams that the programs before it have
  left.  Three things are said of one program.  A program that comes to an
  end comes to the same end if it may run for longer.  What stands in the
  output and in the diagnostics already makes no difference, and stays in
  front of what is written.  And with a base there is, nothing is misused: the
  machine is driven, its stack shown, and the verdict is that of the machine
  unless showing the stack fails.  Programs in order are a relation that
  follows the loop over the sources and lists the programs that it starts.

      allowing     — the setting with another number of batches
      behind       — the same streams behind other texts
      conclude     — what is made of a machine that has been driven
      Runs         — programs run in order

  Main results

      runProgram_of_le    — more batches make no difference
      runProgram_behind   — nor does what was written before
      runProgram_cases    — what comes of running one program
      mapM_readSource     — files that can be read are read
      Runs.eq             — what `Runs` says is what comes of a run
-/
import Tetraglyph.Proofs.Command.Driving

namespace Tetraglyph.Command

open Machine

variable {γ : Type}

/-! ## §1. More batches. -/

/-- The setting with another number of batches for each program. -/
def Setting.allowing (s : Setting γ) (limit : Nat) : Setting γ := { s with limit }

theorem Setting.config_allowing (s : Setting γ) (limit : Nat) :
    (s.allowing limit).config = s.config := rfl

/-- The verdict on a machine that has been driven. -/
def verdictOf (path : String) (m : Machine) : Option Failure → Verdict
  | none => .done
  | some f => .failed (programFailure path m f)

theorem runToHalt_of_le {done : Option Failure} {a b : Nat} {m : Machine}
    {r : Option Failure × Machine} (h : runToHalt done a m = some r) (hle : a ≤ b) :
    runToHalt done b m = some r := by
  induction a generalizing b m with
  | zero => exact absurd h (by simp [runToHalt])
  | succ a ih =>
      obtain ⟨b, rfl⟩ : ∃ c, b = c + 1 := ⟨b - 1, by omega⟩
      unfold runToHalt at h ⊢
      cases halive : m.alive with
      | false =>
          rw [halive] at h
          exact h
      | true =>
          rw [halive] at h
          cases done with
          | some f => exact h
          | none => exact ih h (by omega)

theorem drive_of_le {s : Setting γ} {a b : Nat} {m : Machine} {r : Option Failure × Machine}
    (h : drive (s.allowing a) m = some r) (hle : a ≤ b) : drive (s.allowing b) m = some r := by
  unfold drive at h ⊢
  by_cases hmax : s.config.maxSteps = 0
  · rw [Setting.config_allowing, if_pos hmax] at h ⊢
    exact runToHalt_of_le h hle
  · rw [Setting.config_allowing, if_neg hmax] at h ⊢
    exact h

/-- What is made of a machine that has been driven: its streams are handed
on, and its stack is shown. -/
def conclude (s : Setting γ) (path : String) (st : Streams) :
    Option (Option Failure × Machine) → Verdict × Streams
  | none => (.unfinished, st)
  | some (failure, m) =>
    match m.broken with
    | some e => (.misused e, ⟨m.input, m.output, st.diagnostics⟩)
    | none =>
      match showStack s path m st.diagnostics with
      | .error v => (v, ⟨m.input, m.output, st.diagnostics⟩)
      | .ok diagnostics => (verdictOf path m failure, ⟨m.input, m.output, diagnostics⟩)

theorem runProgram_eq (s : Setting γ) (path : String) (p : Program) (st : Streams) :
    runProgram s path p st
      = match Machine.new p s.config.base st.input st.output with
        | .error e => (.misused e, st)
        | .ok m => conclude s path st (drive s m) := by
  unfold runProgram
  cases Machine.new p s.config.base st.input st.output with
  | error e => rfl
  | ok m =>
      dsimp only
      cases drive s m with
      | none => rfl
      | some r =>
          unfold conclude
          dsimp only
          cases r.2.broken with
          | some e => rfl
          | none =>
              dsimp only
              cases showStack s path r.2 st.diagnostics with
              | error v => rfl
              | ok d => cases r.1 <;> rfl

/-- **More batches make no difference** to a program that comes to an end. -/
theorem runProgram_of_le {s : Setting γ} {a b : Nat} {path : String} {p : Program} {st : Streams}
    (h : (runProgram (s.allowing a) path p st).1 ≠ .unfinished) (hle : a ≤ b) :
    runProgram (s.allowing b) path p st = runProgram (s.allowing a) path p st := by
  rw [runProgram_eq, Setting.config_allowing] at h
  rw [runProgram_eq, runProgram_eq, Setting.config_allowing, Setting.config_allowing]
  cases hnew : Machine.new p s.config.base st.input st.output with
  | error e => rfl
  | ok m =>
      rw [hnew] at h
      dsimp only at h ⊢
      cases hdrive : drive (s.allowing a) m with
      | none =>
          rw [hdrive] at h
          exact absurd rfl h
      | some r =>
          rw [drive_of_le hdrive hle]
          rfl

/-! ## §2. Behind other texts. -/

/-- The streams with other texts in front of what was written to the output
and to the diagnostics, the latest of them first. -/
def Streams.behind (st : Streams) (output diagnostics : List String) : Streams :=
  ⟨st.input, st.output.behind output, st.diagnostics.map fun d => d.behind diagnostics⟩

theorem new_behind (p : Program) (base : Int) (input : Tokens) (output : Sink)
    (front : List String) :
    Machine.new p base input (output.behind front)
      = (Machine.new p base input output).map fun m => m.behind front := by
  unfold Machine.new
  cases Base.ofInt? (if base = 0 then 10 else base) <;> rfl

theorem drive_behind (s : Setting γ) (m : Machine) (front : List String) :
    drive s (m.behind front) = (drive s m).map fun r => (r.1, r.2.behind front) := by
  unfold drive
  by_cases hmax : s.config.maxSteps = 0
  · rw [if_pos hmax, if_pos hmax]
    exact runToHalt_behind s.done s.limit m front
  · rw [if_neg hmax, if_neg hmax, run_behind]
    dsimp only
    have hfault : ((m.run s.config.maxSteps.toNat).2.behind front).fault
        = (m.run s.config.maxSteps.toNat).2.fault := rfl
    rw [hfault]
    cases (m.run s.config.maxSteps.toNat).2.fault <;> rfl

theorem showStack_behind (s : Setting γ) (path : String) (m : Machine) (diagnostics : Option Sink)
    (output front : List String) :
    showStack s path (m.behind output) (diagnostics.map fun d => d.behind front)
      = (showStack s path m diagnostics).map (Option.map fun d => d.behind front) := by
  have hstack : (m.behind output).stack = m.stack := rfl
  unfold showStack
  rw [hstack]
  cases s.config.dump with
  | false => rfl
  | true =>
      cases diagnostics with
      | none => rfl
      | some sink =>
          dsimp only [Option.map_some]
          cases m.stack.texts s.config.base with
          | error e => rfl
          | ok texts =>
              dsimp only
              rw [Sink.write_behind]
              cases sink.write (stackLine path texts) <;> rfl

theorem conclude_behind (s : Setting γ) (path : String) (st : Streams)
    (r : Option (Option Failure × Machine)) (output diagnostics : List String) :
    conclude s path (st.behind output diagnostics) (r.map fun x => (x.1, x.2.behind output))
      = ((conclude s path st r).1, (conclude s path st r).2.behind output diagnostics) := by
  cases r with
  | none => rfl
  | some r =>
      have hbroken : (r.2.behind output).broken = r.2.broken := rfl
      have hshow := showStack_behind s path r.2 st.diagnostics output diagnostics
      have hdiag : (st.behind output diagnostics).diagnostics
          = st.diagnostics.map fun d => d.behind diagnostics := rfl
      unfold conclude
      dsimp only [Option.map_some]
      rw [hbroken, hdiag, hshow]
      cases r.2.broken with
      | some e => rfl
      | none =>
          cases showStack s path r.2 st.diagnostics with
          | error v => rfl
          | ok d => cases r.1 <;> rfl

/-- **What was written before makes no difference.** -/
theorem runProgram_behind (s : Setting γ) (path : String) (p : Program) (st : Streams)
    (output diagnostics : List String) :
    runProgram s path p (st.behind output diagnostics)
      = ((runProgram s path p st).1, (runProgram s path p st).2.behind output diagnostics) := by
  have hnew : Machine.new p s.config.base (st.behind output diagnostics).input
        (st.behind output diagnostics).output
      = (Machine.new p s.config.base st.input st.output).map fun m => m.behind output :=
    new_behind p s.config.base st.input st.output output
  rw [runProgram_eq, runProgram_eq, hnew]
  cases Machine.new p s.config.base st.input st.output with
  | error e => rfl
  | ok m =>
      dsimp only [Except.map]
      rw [drive_behind, conclude_behind]

/-! ## §3. What comes of running one program. -/

theorem new_ok {b : Int} (hb : 2 ≤ b ∧ b ≤ 36) (p : Program) (input : Tokens) (output : Sink) :
    ∃ start, Machine.new p b input output = .ok start := by
  unfold Machine.new
  rw [if_neg (by omega)]
  unfold Base.ofInt?
  rw [dif_pos hb]
  exact ⟨_, rfl⟩

theorem texts_ok {b : Int} (hb : 2 ≤ b ∧ b ≤ 36) (s : Stack) : ∃ texts, s.texts b = .ok texts := by
  have hformat : ∀ v, ∃ text, Numeral.formatIn b v = .ok text := by
    intro v
    unfold Numeral.formatIn Base.ofInt?
    rw [dif_pos hb]
    exact ⟨_, rfl⟩
  unfold Stack.texts
  induction s.values with
  | nil => exact ⟨[], rfl⟩
  | cons v vs ih =>
      obtain ⟨text, htext⟩ := hformat v
      obtain ⟨texts, htexts⟩ := ih
      refine ⟨text :: texts, ?_⟩
      rw [List.mapM_cons, htext, htexts]
      rfl

/-- Showing a stack writes one line to the diagnostics, or leaves them. -/
theorem showStack_ok {s : Setting γ} {path : String} {m : Machine} {diagnostics d : Option Sink}
    (h : showStack s path m diagnostics = .ok d) :
    d = diagnostics ∨ ∃ sink text sink', diagnostics = some sink ∧
      sink.write text = .ok sink' ∧ d = some sink' := by
  unfold showStack at h
  split at h
  next sink _ =>
      split at h
      next => exact absurd h (by simp)
      next texts _ =>
          split at h
          next sink' hwrite =>
              exact .inr ⟨sink, stackLine path texts, sink', rfl, hwrite, (Except.ok.inj h).symm⟩
          next => exact absurd h (by simp)
  next => exact .inl (Except.ok.inj h).symm

/-- Showing a stack fails only where the diagnostics do not take the line. -/
theorem showStack_cases {s : Setting γ} (hb : 2 ≤ s.config.base ∧ s.config.base ≤ 36)
    (path : String) (m : Machine) (diagnostics : Option Sink) :
    (∃ d, showStack s path m diagnostics = .ok d) ∨
      ∃ sink text f, diagnostics = some sink ∧ sink.write text = .error f ∧
        showStack s path m diagnostics = .error (.failed f) := by
  obtain ⟨texts, htexts⟩ := texts_ok hb m.stack
  unfold showStack
  rw [htexts]
  cases s.config.dump with
  | false => exact .inl ⟨_, rfl⟩
  | true =>
      cases diagnostics with
      | none => exact .inl ⟨_, rfl⟩
      | some sink =>
          dsimp only
          cases hwrite : sink.write (stackLine path texts) with
          | ok d => exact .inl ⟨_, rfl⟩
          | error f => exact .inr ⟨sink, _, f, rfl, hwrite, rfl⟩

/-- A machine that has been driven is as regular as it was. -/
theorem Driven.regular {s : Setting γ} {loaded : Program} {m u : Machine} {r : Option Failure}
    (h : Driven s m r u) (hm : Regular loaded m) : Regular loaded u := by
  obtain ⟨k, rfl⟩ := h.eq_run
  exact hm.run k

/-- **What comes of running one program**, if it comes to an end: its machine
is driven, its stack shown, and the verdict is that of the machine, unless
showing the stack fails. -/
theorem runProgram_cases {s : Setting γ} (hs : s.done = none)
    (hb : 2 ≤ s.config.base ∧ s.config.base ≤ 36) {p : Program} (hp : p.Loaded) (path : String)
    (st : Streams) (hends : (runProgram s path p st).1 ≠ .unfinished) :
    ∃ start r u, Machine.new p s.config.base st.input st.output = .ok start ∧
      Driven s start r u ∧
      ((∃ d, showStack s path u st.diagnostics = .ok d ∧
          runProgram s path p st = (verdictOf path u r, ⟨u.input, u.output, d⟩)) ∨
        ∃ f, showStack s path u st.diagnostics = .error (.failed f) ∧
          runProgram s path p st = (.failed f, ⟨u.input, u.output, st.diagnostics⟩)) := by
  obtain ⟨start, hnew⟩ := new_ok hb p st.input st.output
  have hreg := regular_new hp hnew
  rw [runProgram_eq, hnew] at hends
  rw [runProgram_eq, hnew]
  dsimp only at hends ⊢
  cases hdrive : drive s start with
  | none =>
      rw [hdrive] at hends
      exact absurd rfl hends
  | some result =>
      obtain ⟨r, u⟩ := result
      have hdriven := drive_driven hs hreg hdrive
      have hbroken := (hdriven.regular hreg).1.unbroken
      refine ⟨start, r, u, rfl, hdriven, ?_⟩
      unfold conclude
      dsimp only
      rw [hbroken]
      rcases showStack_cases hb path u st.diagnostics with ⟨d, hd⟩ | ⟨_, _, f, _, _, hf⟩
      · refine .inl ⟨d, hd, ?_⟩
        rw [hd]
      · refine .inr ⟨f, hf, ?_⟩
        rw [hf]

/-! ## §4. Reading the sources. -/

/-- The contents of the files that can be read. -/
def contents (read : FileReader) (paths : List String) : List Bytes :=
  paths.filterMap fun path => (read path).toOption

theorem mem_contents {read : FileReader} {paths : List String} {path : String} {data : Bytes}
    (hpath : path ∈ paths) (hread : read path = .ok data) : data ∈ contents read paths := by
  refine List.mem_filterMap.2 ⟨path, hpath, ?_⟩
  rw [hread]
  rfl

/-- The failure of a file that cannot be read, for a reason. -/
def unreadable (path : String) (reason : Failure) : Failure :=
  .argumentFrom path (.within "couldn't find or open the specified file: " reason "")

/-- Reading one file. -/
def readSource (read : FileReader) (path : String) : Except Failure SourceFile :=
  match read path with
  | .ok data => .ok ⟨path, data⟩
  | .error f => .error (unreadable path f)

theorem readSources_eq {read : FileReader} {paths : List String} (hne : paths ≠ []) :
    readSources read paths = paths.mapM (readSource read) := by
  unfold readSources
  rw [if_neg (by simpa using hne)]
  rfl

/-- Files that can be read are read, each under its path. -/
theorem mapM_readSource {read : FileReader} {paths : List String}
    (h : ∀ path ∈ paths, ∃ data, read path = .ok data) :
    ∃ sources, paths.mapM (readSource read) = .ok sources ∧
      sources.map SourceFile.path = paths ∧
      ∀ src ∈ sources, src.path ∈ paths ∧ read src.path = .ok src.data := by
  induction paths with
  | nil => exact ⟨[], rfl, rfl, by simp⟩
  | cons path paths ih =>
      obtain ⟨⟨data, hdata⟩, hrest⟩ := List.forall_mem_cons.1 h
      obtain ⟨sources, hsources, hpaths, hall⟩ := ih hrest
      have hone : readSource read path = .ok ⟨path, data⟩ := by
        unfold readSource
        rw [hdata]
      refine ⟨⟨path, data⟩ :: sources, ?_, ?_, ?_⟩
      · rw [List.mapM_cons, hone, hsources]
        rfl
      · rw [List.map_cons, hpaths]
      · intro src hsrc
        rcases List.mem_cons.1 hsrc with rfl | hsrc
        · exact ⟨List.mem_cons_self, hdata⟩
        · exact ⟨List.mem_cons_of_mem _ (hall src hsrc).1, (hall src hsrc).2⟩

/-! ## §5. Programs one after another. -/

/-- **Running programs in order**, with a list of the programs that are
started, each with its source and as the loader gives it out. -/
inductive Runs (s : Setting γ) : List SourceFile → Loader γ → Streams →
    List (SourceFile × Program) → Verdict → Streams → Prop where
  /-- There is nothing to run. -/
  | nil {l : Loader γ} {st : Streams} : Runs s [] l st [] .done st
  /-- The first program cannot be loaded. -/
  | rejected {src : SourceFile} {rest : List SourceFile} {l : Loader γ} {st : Streams} {f : Failure}
      (hload : (l.load s.done src.data).result = .error f) :
      Runs s (src :: rest) l st [] (.failed f) st
  /-- The first program does not do all there is to do. -/
  | stopped {src : SourceFile} {rest : List SourceFile} {l : Loader γ} {st st' : Streams}
      {p : Program} {v : Verdict} (hload : (l.load s.done src.data).result = .ok p)
      (hrun : runProgram s src.path p st = (v, st')) (hv : v ≠ .done) :
      Runs s (src :: rest) l st [(src, p)] v st'
  /-- The first program does, and the others are run behind it. -/
  | passed {src : SourceFile} {rest : List SourceFile} {l : Loader γ} {st st' st'' : Streams}
      {p : Program} {log : List (SourceFile × Program)} {v : Verdict}
      (hload : (l.load s.done src.data).result = .ok p)
      (hrun : runProgram s src.path p st = (.done, st'))
      (hrest : Runs s rest (l.load s.done src.data).loader st' log v st'') :
      Runs s (src :: rest) l st ((src, p) :: log) v st''

/-- The list is made for every run there is. -/
theorem exists_runs (s : Setting γ) (sources : List SourceFile) (l : Loader γ) (st : Streams) :
    ∃ log, Runs s sources l st log (runSources s sources l st).1
      (runSources s sources l st).2 := by
  fun_induction runSources s sources l st with
  | case1 l st => exact ⟨[], .nil⟩
  | case2 src rest l st loaded f hload => exact ⟨[], .rejected hload⟩
  | case3 src rest l st loaded p hload st' hrun ih =>
      obtain ⟨log, hlog⟩ := ih
      exact ⟨(src, p) :: log, .passed hload hrun hlog⟩
  | case4 src rest l st loaded p hload v st' hv hrun =>
      exact ⟨[(src, p)], .stopped hload hrun hv⟩

/-- What `Runs` says of a run is what comes of it. -/
theorem Runs.eq {s : Setting γ} {sources : List SourceFile} {l : Loader γ} {st st' : Streams}
    {log : List (SourceFile × Program)} {v : Verdict} (h : Runs s sources l st log v st') :
    runSources s sources l st = (v, st') := by
  induction h with
  | nil => rfl
  | rejected hload =>
      unfold runSources
      dsimp only
      rw [hload]
  | @stopped _ _ _ _ _ _ v hload hrun hv =>
      unfold runSources
      dsimp only
      rw [hload]
      dsimp only
      rw [hrun]
      cases v with
      | done => exact absurd rfl hv
      | _ => rfl
  | passed hload hrun hrest ih =>
      unfold runSources
      dsimp only
      rw [hload]
      dsimp only
      rw [hrun]
      exact ih

/-- What comes of the sources is what comes of the paths they are read from. -/
theorem Runs.run_eq {s : Setting γ} {read : FileReader} {paths : List String}
    {sources : List SourceFile} {st st' : Streams} {log : List (SourceFile × Program)}
    {v : Verdict} (h : Runs s sources (s.loader sources) st log v st')
    (hsources : readSources read paths = .ok sources) : run s read paths st = (v, st') := by
  unfold run
  rw [hsources]
  exact h.eq

end Tetraglyph.Command
