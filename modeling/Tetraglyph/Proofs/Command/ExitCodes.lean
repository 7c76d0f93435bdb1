/-
  Tetraglyph.Proofs.Command.ExitCodes
  ───────────────────────────────────
  **WHAT THE EXIT CODE TELLS.**

  The exit code of a run is found in the chain of errors that comes out of
  it.  It tells the class of the FIRST thing that went wrong: an argument,
  which is noticed before anything is run; a source that is rejected; a fault
  of a program; or anything else, which is a limit on the steps or an output
  that cannot be written.  This holds as long as the errors of the input and
  of the output are FOREIGN to these classes.

      Foreign      — an error without an argument, a rejection or a fault in
                     its chain
      Passes       — programs that load and halt, one after another
      Classified   — what the exit code tells of a program that does not

  Main results

      exitCode_driven   — the class of what stops a machine
      Passes.skip       — behind programs that pass, the others are run
      Runs.classified   — what the exit code tells of the first program
      exit_classifies   — what the exit code tells of a run
-/
import Tetraglyph.Proofs.Failure
import Tetraglyph.Proofs.Machine.Faults
import Tetraglyph.Proofs.Machine.Loops
import Tetraglyph.Proofs.Program.Caching
import Tetraglyph.Proofs.Numeral.Bases
import Tetraglyph.Proofs.Command.Programs

namespace Tetraglyph

/-! ## §1. Exit codes of chains. -/

namespace Failure

/-- No argument, rejection or fault is in the chain. -/
def Foreign (f : Failure) : Prop :=
  ∀ g ∈ f.chain, g.argument? = none ∧ g.syntactic? = none ∧ g.fault? = none

theorem foreign_plain (text : String) : (plain text).Foreign := by
  simp [Foreign, chain, argument?, syntactic?, fault?]

theorem foreign_known (error : KnownError) : (known error).Foreign := by
  simp [Foreign, chain, argument?, syntactic?, fault?]

theorem foreign_within {f : Failure} (h : f.Foreign) (before after : String) :
    (within before f after).Foreign := by
  intro g hg
  rcases List.mem_cons.1 hg with rfl | hg
  · exact ⟨rfl, rfl, rfl⟩
  · exact h g hg

/-- Nothing is found in a foreign chain. -/
theorem Foreign.findSome? {f : Failure} (h : f.Foreign) :
    f.chain.findSome? argument? = none ∧ f.chain.findSome? syntactic? = none ∧
      f.chain.findSome? fault? = none := by
  refine ⟨?_, ?_, ?_⟩
  · exact List.findSome?_eq_none_iff.2 fun g hg => (h g hg).1
  · exact List.findSome?_eq_none_iff.2 fun g hg => (h g hg).2.1
  · exact List.findSome?_eq_none_iff.2 fun g hg => (h g hg).2.2

theorem exitCode_foreign {f : Failure} (h : f.Foreign) : exitCode (some f) = 1 := by
  obtain ⟨hargument, hsyntactic, hfault⟩ := h.findSome?
  dsimp only [exitCode]
  rw [hargument, hsyntactic, hfault]
  rfl

theorem exitCode_faultFrom {f : Failure} (h : f.Foreign) (kind : ErrorKind) (id : Int) :
    exitCode (some (faultFrom kind id f)) = 4 := by
  obtain ⟨hargument, hsyntactic, _⟩ := h.findSome?
  show (if (f.chain.findSome? argument?).isSome then 2
    else if (f.chain.findSome? syntactic?).isSome then 3 else 4) = 4
  rw [hargument, hsyntactic]
  rfl

theorem exitCode_fault (kind : ErrorKind) (id : Int) : exitCode (some (fault kind id)) = 4 := rfl

theorem exitCode_syntactic (kind : ErrorKind) (id : Int) :
    exitCode (some (syntactic kind id)) = 3 := rfl

theorem exitCode_argumentFrom (name : String) (f : Failure) :
    exitCode (some (argumentFrom name f)) = 2 := rfl

end Failure

theorem Command.exitCode_programFailure (path : String) (m : Machine) (f : Failure) :
    Failure.exitCode (some (programFailure path m f)) = Failure.exitCode (some f) := by
  unfold programFailure
  split
  next => rw [Failure.exitCode_within]
  next => rfl

/-- What a text is refused with as a number is foreign. -/
theorem Numeral.ofText_foreign {b : Base} {text : Bytes} {f : Failure}
    (h : ofText b text = .error f) : f.Foreign := by
  have hof := ofText_eq b text
  cases hi : b.integer? text with
  | some i =>
      rw [hi] at hof
      obtain ⟨v, hv, _⟩ := hof
      rw [hv] at h
      exact absurd h (by simp)
  | none =>
      rw [hi] at hof
      obtain rfl : f = b.refusal text := Except.error.inj (h.symm.trans hof)
      unfold Base.refusal
      split
      next => exact Failure.foreign_known _
      next => exact Failure.foreign_within (Failure.foreign_known _) _ _

/-! ## §2. What stops a machine. -/

namespace Machine

/-- The machine stopped at its last step, which wrote to an output that did
not take the text. -/
def WriteFails (start : Machine) (k : Nat) : Prop :=
  ∃ j text f, k = j + 1 ∧ (start.run j).2.output.write text = .error f ∧
    (start.run k).2.fault = some (.within "writing output: " f "")

theorem new_output {p : Program} {base : Int} {input : Tokens} {output : Sink} {start : Machine}
    (h : Machine.new p base input output = .ok start) : start.output = output := by
  obtain ⟨b, rfl⟩ := new_eq h
  rfl

theorem fault_run_one {m : Machine} (halive : m.alive = true) :
    (m.run 1).2.fault = m.step.fault := by
  rw [run_eq]
  show (goOn 1 m).fault = _
  rw [goOn_alive halive]
  rfl

section

variable {p : Program} (hp : p.Loaded) {base : Int} {input : Tokens} {output : Sink}
  {start : Machine} (hstart : Machine.new p base input output = .ok start)
  (hinput : input.ending.Foreign) (houtput : output.failure.Foreign)

include hp hstart hinput houtput

/-- **The class of what stops a machine**: a fault, or an output that cannot
be written. -/
theorem exitCode_stopped {k : Nat} (hk : start.StopsAt k) {f : Failure}
    (hf : (start.run k).2.fault = some f) :
    (f.fault?.isSome = true ∧ Failure.exitCode (some f) = 4) ∨
      (start.WriteFails k ∧ f.fault? = none ∧ Failure.exitCode (some f) = 1) := by
  cases k with
  | zero =>
      -- a machine at the start has not failed
      obtain ⟨b, rfl⟩ := new_eq hstart
      rw [run_zero] at hf
      exact absurd hf (by simp)
  | succ j =>
      have halive := hk.2 j (Nat.lt_succ_self j)
      have hlast : (start.run j).2.step.fault = some f := by
        rw [← fault_run_one halive, (run_add start j 1).1]
        exact hf
      have hsteady : Steady p input (start.run j).2 :=
        (steady_kept p input).occur (steady_new hp hstart) (.run j)
      have hextends := extends_run start j
      rw [new_output hstart] at hextends
      obtain ⟨_, ix, _, _, hfetch, hknown⟩ := hsteady.safe.fetch halive
      obtain ⟨lost, hcause⟩ :=
        (step_fault_iff hsteady.valid (fault_of_alive halive) hfetch hknown f).1 hlast
      generalize ix.kind = kind at hcause
      cases hcause with
      | short => exact .inl ⟨rfl, Failure.exitCode_fault _ _⟩
      | @noToken g hnext =>
          have hforeign : g.Foreign := by
            rcases hsteady.next_error hnext with rfl | rfl
            · exact hinput
            · exact Failure.foreign_plain _
          exact .inl ⟨rfl, Failure.exitCode_faultFrom hforeign _ _⟩
      | noNumber _ hread =>
          exact .inl ⟨rfl, Failure.exitCode_faultFrom (Numeral.ofText_foreign hread) _ _⟩
      | spellsBrace => exact .inl ⟨rfl, Failure.exitCode_faultFrom (Failure.foreign_plain _) _ _⟩
      | @unwritten _ v g _ hwrite =>
          have hforeign : g.Foreign := by
            rw [Sink.write_error hwrite, hextends.failure]
            exact houtput
          refine .inr ⟨⟨j, _, g, rfl, hwrite, hf⟩, rfl, ?_⟩
          rw [Failure.exitCode_within, Failure.exitCode_foreign hforeign]

end

end Machine

namespace Command

open Machine

variable {γ : Type} {view : γ → Cache Content.Id Program}

/-! ## §3. How a program ends. -/

/-- A number of steps that the limit admits, if there is one. -/
def Setting.admits (s : Setting γ) (k : Nat) : Prop :=
  s.config.maxSteps = 0 ∨ k ≤ s.config.maxSteps.toNat

/-- The machine halts within the limit, as `u`. -/
def Halts (s : Setting γ) (start u : Machine) : Prop :=
  ∃ k, start.StopsAt k ∧ s.admits k ∧ u = (start.run k).2 ∧ u.halted = true

/-- The machine stops within the limit, as `u`, by a fault of its program. -/
def StopsByFault (s : Setting γ) (start u : Machine) : Prop :=
  ∃ k f, start.StopsAt k ∧ s.admits k ∧ u = (start.run k).2 ∧ u.fault = some f ∧
    f.fault?.isSome = true

/-- The machine stops within the limit, as `u`, where the output does not take
what it writes. -/
def StopsByOutput (s : Setting γ) (start u : Machine) : Prop :=
  ∃ k, start.StopsAt k ∧ s.admits k ∧ u = (start.run k).2 ∧ start.WriteFails k

/-- The machine could go on as `u`, but the limit is reached. -/
def StopsByLimit (s : Setting γ) (start u : Machine) : Prop :=
  s.config.maxSteps ≠ 0 ∧ u = (start.run s.config.maxSteps.toNat).2 ∧ u.alive = true

section

variable {s : Setting γ} {start u : Machine}

theorem halts_iff_driven {loaded : Program} (h : Regular loaded start) :
    Halts s start u ↔ Driven s start none u := by
  constructor
  · rintro ⟨k, hk, hadmits, rfl, hhalted⟩
    have hdriven := Driven.stopped hk hadmits
    rcases (h.run k).stopped hk.1 with ⟨_, hfault⟩ | ⟨hnot, _⟩
    · rw [hfault] at hdriven
      exact hdriven
    · rw [hhalted] at hnot
      exact absurd hnot (by decide)
  · intro hdriven
    generalize hr : (none : Option Failure) = r at hdriven
    cases hdriven with
    | @stopped k hk hadmits =>
        refine ⟨k, hk, hadmits, rfl, ?_⟩
        rcases (h.run k).stopped hk.1 with ⟨hhalted, _⟩ | ⟨_, f, hfault⟩
        · exact hhalted
        · rw [hfault] at hr
          exact absurd hr (by simp)
    | cutOff => exact absurd hr (by simp)

theorem StopsByFault.driven (h : StopsByFault s start u) : ∃ f, Driven s start (some f) u := by
  obtain ⟨k, f, hk, hadmits, rfl, hfault, _⟩ := h
  refine ⟨f, ?_⟩
  rw [← hfault]
  exact .stopped hk hadmits

theorem StopsByOutput.driven (h : StopsByOutput s start u) : ∃ f, Driven s start (some f) u := by
  obtain ⟨k, hk, hadmits, rfl, _, _, f, _, _, hfault⟩ := h
  refine ⟨.within "writing output: " f "", ?_⟩
  rw [← hfault]
  exact .stopped hk hadmits

theorem StopsByLimit.driven (h : StopsByLimit s start u) : ∃ f, Driven s start (some f) u := by
  obtain ⟨hmax, rfl, halive⟩ := h
  exact ⟨_, .cutOff hmax halive⟩

/-- A fault is neither the limit nor the output. -/
theorem StopsByFault.apart (h : StopsByFault s start u) :
    ¬ (StopsByLimit s start u ∨ StopsByOutput s start u) := by
  obtain ⟨_, f, _, _, _, hfault, hf⟩ := h
  rintro (⟨_, _, halive⟩ | ⟨_, _, _, hu, _, _, g, _, _, hwrite⟩)
  · rw [fault_of_alive halive] at hfault
    exact absurd hfault (by simp)
  · rw [← hu, hfault, Option.some.injEq] at hwrite
    rw [hwrite] at hf
    exact absurd hf (by simp [Failure.fault?])

/-- **The exit code tells what stopped a machine that did not halt.** -/
theorem exitCode_driven {p : Program} (hp : p.Loaded) {base : Int} {input : Tokens}
    {output : Sink} (hstart : Machine.new p base input output = .ok start)
    (hinput : input.ending.Foreign) (houtput : output.failure.Foreign) {f : Failure}
    (h : Driven s start (some f) u) :
    (Failure.exitCode (some f) = 4 ∧ StopsByFault s start u) ∨
      (Failure.exitCode (some f) = 1 ∧ (StopsByLimit s start u ∨ StopsByOutput s start u)) := by
  generalize hr : some f = r at h
  cases h with
  | @stopped k hk hadmits =>
      rw [← hr]
      rcases exitCode_stopped hp hstart hinput houtput hk hr.symm with
        ⟨hfault, hcode⟩ | ⟨hwrite, _, hcode⟩
      · exact .inl ⟨hcode, k, f, hk, hadmits, rfl, hr.symm, hfault⟩
      · exact .inr ⟨hcode, .inr ⟨k, hk, hadmits, rfl, hwrite⟩⟩
  | cutOff hmax halive => exact .inr ⟨rfl, .inl ⟨hmax, rfl, halive⟩⟩

end

/-! ## §4. Programs that pass. -/

/-- The input and the output fail with errors of their own. -/
def Streams.Foreign (st : Streams) : Prop := st.input.ending.Foreign ∧ st.output.failure.Foreign

/-- The machine with which the program of a source is started, if it can be
loaded. -/
def Starts (s : Setting γ) (l : Loader γ) (st : Streams) (src : SourceFile)
    (start : Machine) : Prop :=
  ∃ p, (l.load s.done src.data).result = .ok p ∧
    Machine.new p s.config.base st.input st.output = .ok start

/-- **Programs that load and halt**, one after another, from a loader and
streams to what they leave of them. -/
inductive Passes (s : Setting γ) : List SourceFile → Loader γ → Streams → Loader γ → Streams →
    Prop where
  /-- There is no program. -/
  | nil {l : Loader γ} {st : Streams} : Passes s [] l st l st
  /-- The first program passes, and the others behind it. -/
  | cons {src : SourceFile} {rest : List SourceFile} {l l' : Loader γ} {st st' : Streams}
      {start u : Machine} {d : Option Sink} (hstarts : Starts s l st src start)
      (hhalts : Halts s start u) (hshow : showStack s src.path u st.diagnostics = .ok d)
      (hrest : Passes s rest (l.load s.done src.data).loader ⟨u.input, u.output, d⟩ l' st') :
      Passes s (src :: rest) l st l' st'

/-- All programs of some sources pass. -/
def AllPass (s : Setting γ) (sources : List SourceFile) (l : Loader γ) (st : Streams) : Prop :=
  ∃ l' st', Passes s sources l st l' st'

/-- The program of `src` is the first that does not pass, and `l₁` and `st₁`
are what the programs before it leave. -/
def FirstToStop (s : Setting γ) (sources : List SourceFile) (l : Loader γ) (st : Streams)
    (src : SourceFile) (l₁ : Loader γ) (st₁ : Streams) : Prop :=
  ∃ before after, sources = before ++ src :: after ∧ Passes s before l st l₁ st₁ ∧
    ¬ AllPass s [src] l₁ st₁

/-- Every stack that is shown in a run of some sources is written. -/
def Shown (s : Setting γ) (sources : List SourceFile) (l : Loader γ) (st : Streams) : Prop :=
  ∀ before src after l₁ st₁ start r u, sources = before ++ src :: after →
    Passes s before l st l₁ st₁ → Starts s l₁ st₁ src start → Driven s start r u →
    ∃ d, showStack s src.path u st₁.diagnostics = .ok d

section

variable {s : Setting γ} {sources : List SourceFile} {l l' : Loader γ} {st st' : Streams}

theorem Starts.loaded {src : SourceFile} {start : Machine} (hl : l.Client)
    (h : Starts s l st src start) :
    ∃ p, Program.Loaded p ∧ Machine.new p s.config.base st.input st.output = .ok start := by
  obtain ⟨p, hload, hnew⟩ := h
  exact ⟨p, .source hl s.done src.data hload, hnew⟩

theorem Starts.unique {src : SourceFile} {start start' : Machine} (h : Starts s l st src start)
    (h' : Starts s l st src start') : start = start' := by
  obtain ⟨p, hload, hnew⟩ := h
  obtain ⟨p', hload', hnew'⟩ := h'
  obtain rfl : p = p' := Except.ok.inj (hload.symm.trans hload')
  exact Except.ok.inj (hnew.symm.trans hnew')

/-- What a machine writes stands behind what was written before. -/
theorem extends_driven {p : Program} {start u : Machine}
    (hnew : Machine.new p s.config.base st.input st.output = .ok start) {r : Option Failure}
    (hdriven : Driven s start r u) : st.output.Extends u.output := by
  obtain ⟨k, rfl⟩ := hdriven.eq_run
  have hextends := extends_run start k
  rw [new_output hnew] at hextends
  exact hextends

/-- What a machine leaves is as foreign as what it was given. -/
theorem Streams.Foreign.driven (h : st.Foreign) {p : Program} (hp : p.Loaded)
    {start u : Machine} (hnew : Machine.new p s.config.base st.input st.output = .ok start)
    {r : Option Failure} (hdriven : Driven s start r u) (d : Option Sink) :
    Streams.Foreign ⟨u.input, u.output, d⟩ := by
  have hextends := extends_driven hnew hdriven
  obtain ⟨k, rfl⟩ := hdriven.eq_run
  have hsteady : Steady p st.input (start.run k).2 :=
    (steady_kept p st.input).occur (steady_new hp hnew) (.run k)
  refine ⟨?_, ?_⟩
  · show (start.run k).2.input.ending.Foreign
    rcases hsteady.ending with hending | hending
    · rw [hending]
      exact h.1
    · rw [hending]
      exact Failure.foreign_plain _
  · show (start.run k).2.output.failure.Foreign
    rw [hextends.failure]
    exact h.2

/-- What the programs that pass leave to the next one. -/
theorem Passes.kept (h : Passes s sources l st l' st') (hl : l.Client) (hst : st.Foreign) :
    l'.Client ∧ st'.Foreign := by
  induction h with
  | nil => exact ⟨hl, hst⟩
  | cons hstarts hhalts _ _ ih =>
      obtain ⟨p, hp, hnew⟩ := hstarts.loaded hl
      have hdriven := (halts_iff_driven (regular_new hp hnew)).1 hhalts
      exact ih (.load hl s.done _) (hst.driven hp hnew hdriven _)

theorem Passes.faithful {srcs : List Bytes} (hs : s.done = none)
    (h : Passes s sources l st l' st') (hmem : ∀ src ∈ sources, src.data ∈ srcs)
    (hl : l.Faithful view srcs) : l'.Faithful view srcs := by
  induction h with
  | nil => exact hl
  | cons _ _ _ _ ih =>
      obtain ⟨hsrc, hrest⟩ := List.forall_mem_cons.1 hmem
      refine ih hrest ?_
      rw [hs]
      exact (Loader.load_faithful hl hsrc).2

end

section

variable {s : Setting γ} (hs : s.done = none) (hb : 2 ≤ s.config.base ∧ s.config.base ≤ 36)
  {l : Loader γ} {st : Streams}

include hs hb

/-- A program whose machine is driven, and whose stack is shown, ends with the
verdict on the machine. -/
theorem runProgram_driven {p : Program} (hp : p.Loaded) {path : String} {start u : Machine}
    {r : Option Failure} {d : Option Sink}
    (hnew : Machine.new p s.config.base st.input st.output = .ok start)
    (hdriven : Driven s start r u) (hshow : showStack s path u st.diagnostics = .ok d)
    (hends : (runProgram s path p st).1 ≠ .unfinished) :
    runProgram s path p st = (verdictOf path u r, ⟨u.input, u.output, d⟩) := by
  obtain ⟨start', r', u', hnew', hdriven', hcases⟩ := runProgram_cases hs hb hp path st hends
  obtain rfl : start = start' := Except.ok.inj (hnew.symm.trans hnew')
  obtain ⟨rfl, rfl⟩ := hdriven.unique hdriven'
  rcases hcases with ⟨d', hshow', hrun⟩ | ⟨f, hshow', _⟩
  · obtain rfl : d = d' := Except.ok.inj (hshow.symm.trans hshow')
    exact hrun
  · rw [hshow] at hshow'
    exact absurd hshow' (by simp)

/-- **Behind programs that pass, the others are run.** -/
theorem Passes.skip {sources rest : List SourceFile} {l' : Loader γ} {st₁ st' : Streams}
    (h : Passes s sources l st l' st₁) (hl : l.Client) {log : List (SourceFile × Program)}
    {v : Verdict} (hruns : Runs s (sources ++ rest) l st log v st') (hv : v ≠ .unfinished) :
    ∃ log', Runs s rest l' st₁ log' v st' := by
  induction h generalizing log with
  | nil => exact ⟨log, hruns⟩
  | @cons src _ l _ st _ start u d hstarts hhalts hshow _ ih =>
      obtain ⟨p, hload, hnew⟩ := hstarts
      have hp : p.Loaded := .source hl s.done src.data hload
      have hdriven := (halts_iff_driven (regular_new hp hnew)).1 hhalts
      have hdone : (runProgram s src.path p st).1 ≠ .unfinished →
          runProgram s src.path p st = (.done, ⟨u.input, u.output, d⟩) :=
        runProgram_driven hs hb hp hnew hdriven hshow
      cases hruns with
      | rejected hload' =>
          rw [hload] at hload'
          exact absurd hload' (by simp)
      | stopped hload' hrun hnot =>
          obtain rfl := Except.ok.inj (hload.symm.trans hload')
          have hrun' := hdone (by rw [hrun]; exact hv)
          rw [hrun] at hrun'
          exact absurd (Prod.mk.inj hrun').1 hnot
      | passed hload' hrun hrest =>
          obtain rfl := Except.ok.inj (hload.symm.trans hload')
          have hrun' := hdone (by rw [hrun]; simp)
          obtain ⟨_, rfl⟩ := Prod.mk.inj (hrun.symm.trans hrun')
          exact ih (.load hl s.done _) hrest

end

/-! ## §5. The first program that does not pass. -/

/-- The exit code of a run that has a verdict on its programs. -/
def Verdict.code? : Verdict → Option Nat
  | .done => some (Failure.exitCode none)
  | .failed f => some (Failure.exitCode (some f))
  | _ => none

/-- **What the exit code tells of a program that does not pass**, and what a
run that ends there leaves. -/
structure Classified (s : Setting γ) (l : Loader γ) (st : Streams) (src : SourceFile) (v : Verdict)
    (st' : Streams) : Prop where
  /-- There are no other codes. -/
  codes : v.code? = some 3 ∨ v.code? = some 4 ∨ v.code? = some 1
  /-- The source is not in the cache, and is rejected. -/
  rejected : v.code? = some 3 ↔
    (l.load s.done src.data).hit = false ∧ Source.Rejected src.data
  /-- The machine stops by a fault. -/
  faulted : v.code? = some 4 ↔ ∃ start u, Starts s l st src start ∧ StopsByFault s start u
  /-- The machine stops by the limit, or by the output. -/
  other : v.code? = some 1 ↔ ∃ start u, Starts s l st src start ∧
    (StopsByLimit s start u ∨ StopsByOutput s start u)
  /-- Nothing is read or written where no machine is started. -/
  unstarted : (¬ ∃ start, Starts s l st src start) → st' = st
  /-- The machine leaves what it has read and written. -/
  left : ∀ start r u, Starts s l st src start → Driven s start r u →
    st'.input = u.input ∧ st'.output = u.output ∧ st.output.Extends u.output

section

variable {s : Setting γ} {l : Loader γ} {st st' : Streams} {src : SourceFile}

/-- A program that cannot be loaded. -/
theorem classified_rejected (hs : s.done = none) {f : Failure}
    (hload : (l.load s.done src.data).result = .error f) :
    Classified s l st src (.failed f) st := by
  have hnone : ¬ ∃ start, Starts s l st src start := by
    rintro ⟨start, p, hload', _⟩
    rw [hload] at hload'
    exact absurd hload' (by simp)
  have hrejected : (l.load s.done src.data).hit = false ∧ Source.Rejected src.data := by
    rw [hs] at hload ⊢
    exact (l.load_error_iff src.data).1 ⟨f, hload⟩
  rw [hs] at hload
  obtain ⟨kind, i, rfl⟩ := Loader.load_error hload
  refine ⟨.inl rfl, ⟨fun _ => hrejected, fun _ => rfl⟩, ?_, ?_, fun _ => rfl, ?_⟩
  · exact ⟨fun h => absurd h (by simp [Verdict.code?, Failure.exitCode_syntactic]),
      fun ⟨start, _, hstart, _⟩ => absurd ⟨start, hstart⟩ hnone⟩
  · exact ⟨fun h => absurd h (by simp [Verdict.code?, Failure.exitCode_syntactic]),
      fun ⟨start, _, hstart, _⟩ => absurd ⟨start, hstart⟩ hnone⟩
  · exact fun start _ _ hstart => absurd ⟨start, hstart⟩ hnone

/-- A program whose machine does not halt. -/
theorem classified_driven (hs : s.done = none) (hl : l.Client) (hst : st.Foreign)
    {start u : Machine} (hstarts : Starts s l st src start) {f : Failure}
    (hdriven : Driven s start (some f) u) (d : Option Sink) :
    Classified s l st src (verdictOf src.path u (some f)) ⟨u.input, u.output, d⟩ := by
  obtain ⟨p, hp, hnew⟩ := hstarts.loaded hl
  have hcode : (verdictOf src.path u (some f)).code? = some (Failure.exitCode (some f)) :=
    congrArg some (exitCode_programFailure src.path u f)
  -- any other machine, and any other end of it, is this one
  have hsame : ∀ {start' u' : Machine}, Starts s l st src start' →
      (∃ g, Driven s start' (some g) u') → start' = start ∧ u' = u := by
    intro start' u' hstarts' ⟨g, hdriven'⟩
    obtain rfl := hstarts'.unique hstarts
    exact ⟨rfl, (hdriven'.unique hdriven).2⟩
  have hloaded : ¬ ((l.load s.done src.data).hit = false ∧ Source.Rejected src.data) := by
    intro hrejected
    rw [hs] at hrejected
    obtain ⟨g, hg⟩ := (l.load_error_iff src.data).2 hrejected
    obtain ⟨p', hp', _⟩ := hstarts
    rw [hs, hg] at hp'
    exact absurd hp' (by simp)
  have hleft : ∀ start' r' u', Starts s l st src start' → Driven s start' r' u' →
      u.input = u'.input ∧ u.output = u'.output ∧ st.output.Extends u'.output := by
    intro start' r' u' hstarts' hdriven'
    obtain rfl := hstarts'.unique hstarts
    obtain ⟨_, rfl⟩ := hdriven'.unique hdriven
    exact ⟨rfl, rfl, extends_driven hnew hdriven⟩
  rcases exitCode_driven hp hnew hst.1 hst.2 hdriven with ⟨hfour, hfault⟩ | ⟨hone, hother⟩
  · rw [hfour] at hcode
    refine ⟨.inr (.inl hcode), ?_, ?_, ?_, fun hnone => absurd ⟨start, hstarts⟩ hnone, hleft⟩
    · exact ⟨fun h => absurd (hcode.symm.trans h) (by simp), fun h => absurd h hloaded⟩
    · exact ⟨fun _ => ⟨start, u, hstarts, hfault⟩, fun _ => hcode⟩
    · refine ⟨fun h => absurd (hcode.symm.trans h) (by simp), ?_⟩
      rintro ⟨start', u', hstarts', hother⟩
      obtain ⟨rfl, rfl⟩ := hsame hstarts' (hother.elim StopsByLimit.driven StopsByOutput.driven)
      exact absurd hother hfault.apart
  · rw [hone] at hcode
    refine ⟨.inr (.inr hcode), ?_, ?_, ?_, fun hnone => absurd ⟨start, hstarts⟩ hnone, hleft⟩
    · exact ⟨fun h => absurd (hcode.symm.trans h) (by simp), fun h => absurd h hloaded⟩
    · refine ⟨fun h => absurd (hcode.symm.trans h) (by simp), ?_⟩
      rintro ⟨start', u', hstarts', hfault⟩
      obtain ⟨rfl, rfl⟩ := hsame hstarts' hfault.driven
      exact absurd hother hfault.apart
    · exact ⟨fun _ => ⟨start, u, hstarts, hother⟩, fun _ => hcode⟩

/-- **What the exit code tells of the first program**, if it does not pass. -/
theorem Runs.classified (hs : s.done = none)
    (hb : 2 ≤ s.config.base ∧ s.config.base ≤ 36) {rest : List SourceFile}
    {log : List (SourceFile × Program)} {v : Verdict}
    (h : Runs s (src :: rest) l st log v st') (hv : v ≠ .unfinished) (hl : l.Client)
    (hst : st.Foreign)
    (hshow : ∀ start r u, Starts s l st src start → Driven s start r u →
      ∃ d, showStack s src.path u st.diagnostics = .ok d)
    (hnot : ¬ AllPass s [src] l st) : Classified s l st src v st' := by
  -- what is known of a program that is run to an end
  have hcases : ∀ {p : Program} {w : Verdict} {st₁ : Streams},
      (l.load s.done src.data).result = .ok p → runProgram s src.path p st = (w, st₁) →
      w ≠ .unfinished → w ≠ .done ∧ Classified s l st src w st₁ := by
    intro p w st₁ hload hrun hw
    have hp : p.Loaded := .source hl s.done src.data hload
    have hends : (runProgram s src.path p st).1 ≠ .unfinished := by
      rw [hrun]
      exact hw
    obtain ⟨start, r, u, hnew, hdriven, _⟩ := runProgram_cases hs hb hp src.path st hends
    have hstarts : Starts s l st src start := ⟨p, hload, hnew⟩
    obtain ⟨d, hd⟩ := hshow start r u hstarts hdriven
    have hrun' := runProgram_driven hs hb hp hnew hdriven hd hends
    obtain ⟨rfl, rfl⟩ := Prod.mk.inj (hrun.symm.trans hrun')
    cases r with
    | none =>
        have hhalts := (halts_iff_driven (regular_new hp hnew)).2 hdriven
        exact absurd ⟨_, _, .cons hstarts hhalts hd .nil⟩ hnot
    | some f => exact ⟨by simp [verdictOf], classified_driven hs hl hst hstarts hdriven d⟩
  cases h with
  | rejected hload => exact classified_rejected hs hload
  | stopped hload hrun hdone => exact (hcases hload hrun hv).2
  | passed hload hrun hrest => exact absurd rfl (hcases hload hrun (by simp)).1

end

/-! ## §6. Diagnostics that take everything. -/

/-- Diagnostics, if any, that take everything. -/
def Unlimited (diagnostics : Option Sink) : Prop := ∀ sink ∈ diagnostics, sink.room = .unlimited

theorem showStack_unlimited {s : Setting γ} (hb : 2 ≤ s.config.base ∧ s.config.base ≤ 36)
    (path : String) (m : Machine) {diagnostics : Option Sink} (h : Unlimited diagnostics) :
    ∃ d, showStack s path m diagnostics = .ok d ∧ Unlimited d := by
  rcases showStack_cases hb path m diagnostics with ⟨d, hd⟩ | ⟨sink, text, f, hsome, hwrite, _⟩
  · refine ⟨d, hd, ?_⟩
    rcases showStack_ok hd with rfl | ⟨sink, text, sink', hsome, hwrite, rfl⟩
    · exact h
    · -- the sink behind the line is as unlimited as before it
      obtain ⟨other, hother, hroom⟩ := Sink.write_unlimited (h sink hsome) text
      rw [hwrite, Except.ok.injEq] at hother
      intro sink'' hsink
      rw [← Option.some.inj hsink, hother]
      exact hroom
  · obtain ⟨other, hother, _⟩ := Sink.write_unlimited (h sink hsome) text
    rw [hwrite] at hother
    exact absurd hother (by simp)

theorem Passes.unlimited {s : Setting γ} (hb : 2 ≤ s.config.base ∧ s.config.base ≤ 36)
    {sources : List SourceFile} {l l' : Loader γ} {st st' : Streams}
    (h : Passes s sources l st l' st') (hst : Unlimited st.diagnostics) :
    Unlimited st'.diagnostics := by
  induction h with
  | nil => exact hst
  | @cons src _ _ _ st _ _ u d _ _ hshow _ ih =>
      obtain ⟨d', hd', hroom⟩ := showStack_unlimited hb src.path u hst
      obtain rfl : d = d' := Except.ok.inj (hshow.symm.trans hd')
      exact ih hroom

/-- **Diagnostics that take everything show every stack.** -/
theorem shown_of_unlimited {s : Setting γ} (hb : 2 ≤ s.config.base ∧ s.config.base ≤ 36)
    {st : Streams} (h : Unlimited st.diagnostics) (sources : List SourceFile) (l : Loader γ) :
    Shown s sources l st := by
  intro before src after l₁ st₁ start r u _ hpasses _ _
  obtain ⟨d, hd, _⟩ := showStack_unlimited hb src.path u (hpasses.unlimited hb h)
  exact ⟨d, hd⟩

/-! ## §7. What the exit code tells of a run. -/

/-- Either all programs pass, or there is a first one that does not. -/
theorem allPass_or_first (s : Setting γ) (sources : List SourceFile) (l : Loader γ) (st : Streams) :
    AllPass s sources l st ∨ ∃ src l₁ st₁, FirstToStop s sources l st src l₁ st₁ := by
  induction sources generalizing l st with
  | nil => exact .inl ⟨l, st, .nil⟩
  | cons src rest ih =>
      by_cases hfirst : AllPass s [src] l st
      · obtain ⟨l', st', hpass⟩ := hfirst
        cases hpass with
        | @cons _ _ _ _ _ _ start u d hstarts hhalts hshow _ =>
            rcases ih (l.load s.done src.data).loader ⟨u.input, u.output, d⟩ with
              ⟨l', st', hrest⟩ | ⟨src', l₁, st₁, before, after, rfl, hbefore, hnot⟩
            · exact .inl ⟨l', st', .cons hstarts hhalts hshow hrest⟩
            · exact .inr ⟨src', l₁, st₁, src :: before, after, rfl,
                .cons hstarts hhalts hshow hbefore, hnot⟩
      · exact .inr ⟨src, l, st, [], rest, rfl, .nil, hfirst⟩

/-- The first file that cannot be read is an argument that is wrong. -/
theorem mapM_readSource_first {read : FileReader} {paths : List String}
    (h : ∃ path ∈ paths, ∃ g, read path = .error g) :
    ∃ before path after g, paths = before ++ path :: after ∧
      (∀ q ∈ before, ∃ data, read q = .ok data) ∧ read path = .error g ∧
      paths.mapM (readSource read) = .error (unreadable path g) := by
  induction paths with
  | nil =>
      obtain ⟨path, hpath, _⟩ := h
      exact absurd hpath List.not_mem_nil
  | cons path paths ih =>
      cases hread : read path with
      | error g =>
          have hone : readSource read path = .error (unreadable path g) := by
            unfold readSource
            rw [hread]
          refine ⟨[], path, paths, g, rfl, by simp, hread, ?_⟩
          rw [List.mapM_cons, hone]
          rfl
      | ok data =>
          have hone : readSource read path = .ok ⟨path, data⟩ := by
            unfold readSource
            rw [hread]
          have hrest : ∃ path ∈ paths, ∃ g, read path = .error g := by
            obtain ⟨q, hq, g, hg⟩ := h
            rcases List.mem_cons.1 hq with rfl | hq
            · rw [hread] at hg
              exact absurd hg (by simp)
            · exact ⟨q, hq, g, hg⟩
          obtain ⟨before, bad, after, g, rfl, hbefore, hbad, hmap⟩ := ih hrest
          refine ⟨path :: before, bad, after, g, rfl,
            List.forall_mem_cons.2 ⟨⟨data, hread⟩, hbefore⟩, hbad, ?_⟩
          rw [List.mapM_cons, hone, hmap]
          rfl

/-- **Without files to read nothing is run.** -/
theorem run_unreadable (s : Setting γ) {read : FileReader} {paths : List String}
    (h : paths = [] ∨ ∃ path ∈ paths, ∃ g, read path = .error g) (st : Streams) :
    ∃ f, run s read paths st = (.failed f, st) ∧ Failure.exitCode (some f) = 2 ∧
      (paths ≠ [] → ∃ before path after g, paths = before ++ path :: after ∧
        (∀ q ∈ before, ∃ data, read q = .ok data) ∧ read path = .error g ∧
        f = unreadable path g) := by
  by_cases hne : paths = []
  · subst hne
    exact ⟨_, rfl, Failure.exitCode_argumentFrom _ _, fun hne => absurd rfl hne⟩
  · obtain ⟨before, path, after, g, hpaths, hbefore, hg, hmap⟩ :=
      mapM_readSource_first (h.resolve_left hne)
    refine ⟨unreadable path g, ?_, Failure.exitCode_argumentFrom _ _,
      fun _ => ⟨before, path, after, g, hpaths, hbefore, hg, rfl⟩⟩
    unfold run
    rw [readSources_eq hne, hmap]

section

variable {s : Setting γ} (hs : s.done = none) (hb : 2 ≤ s.config.base ∧ s.config.base ≤ 36)
  {sources : List SourceFile} {l : Loader γ} (hl : l.Client) {st st' : Streams}
  {log : List (SourceFile × Program)} {v : Verdict} (hruns : Runs s sources l st log v st')
  (hv : v ≠ .unfinished)

include hs hb hl hruns hv

/-- A run of programs that all pass is done, and leaves what they leave. -/
theorem Runs.done_of_passes {l₁ : Loader γ} {st₁ : Streams} (h : Passes s sources l st l₁ st₁) :
    v = .done ∧ st' = st₁ := by
  rw [← List.append_nil sources] at hruns
  obtain ⟨_, hrest⟩ := h.skip hs hb hl hruns hv
  cases hrest
  exact ⟨rfl, rfl⟩

/-- A run is classified by the first program that does not pass. -/
theorem Runs.classified_first (hst : st.Foreign) (hshown : Shown s sources l st)
    {src : SourceFile} {l₁ : Loader γ} {st₁ : Streams}
    (h : FirstToStop s sources l st src l₁ st₁) : Classified s l₁ st₁ src v st' := by
  obtain ⟨before, after, hsplit, hbefore, hnot⟩ := h
  obtain ⟨hl₁, hst₁⟩ := hbefore.kept hl hst
  have hshow := fun start r u => hshown before src after l₁ st₁ start r u hsplit hbefore
  rw [hsplit] at hruns
  obtain ⟨_, hrest⟩ := hbefore.skip hs hb hl hruns hv
  exact hrest.classified hs hb hv hl₁ hst₁ hshow hnot

end

/-- Where ids tell the sources apart, the cache saves no source from being
rejected. -/
theorem Classified.rejected_iff {s : Setting γ} (hs : s.done = none) {srcs : List Bytes}
    {l : Loader γ} (hl : l.Faithful view srcs) {st st' : Streams} {src : SourceFile}
    (hsrc : src.data ∈ srcs) {v : Verdict} (h : Classified s l st src v st') :
    v.code? = some 3 ↔ Source.Rejected src.data := by
  rw [h.rejected, hs, ← l.load_error_iff, (Loader.load_faithful hl hsrc).1,
    Source.rejected_iff]

/-- **The exit code tells the class of the first thing that goes wrong.**
Without files to read it is 2, nothing is read or written, and the failure
names the first path that cannot be read.  Otherwise, when a run ends, it is 0
if and only if all programs load and halt within the limit on the steps, and
then the run leaves what they leave; and of the first program that does not
it tells why, as `Classified` says, and the run leaves what the programs
before it and its own machine have left.  Where the ids tell the sources
apart, a source is in the cache only if it was loaded before, so the code 3
tells the sources that are rejected. -/
theorem exit_classifies {s : Setting γ} (hlru : s.store.IsLru view) (hs : s.done = none)
    (hb : 2 ≤ s.config.base ∧ s.config.base ≤ 36) (read : FileReader) (paths : List String)
    (st : Streams) :
    ((paths = [] ∨ ∃ path ∈ paths, ∃ g, read path = .error g) →
      ∃ f, run s read paths st = (.failed f, st) ∧ (Verdict.failed f).code? = some 2 ∧
        (paths ≠ [] → ∃ before path after g, paths = before ++ path :: after ∧
          (∀ q ∈ before, ∃ data, read q = .ok data) ∧ read path = .error g ∧
          f.argument? = some path)) ∧
    (paths ≠ [] → (∀ path ∈ paths, ∃ data, read path = .ok data) →
      ∃ sources, readSources read paths = .ok sources ∧ sources.map SourceFile.path = paths ∧
        (∀ src ∈ sources, read src.path = .ok src.data) ∧
        (st.Foreign → Shown s sources (s.loader sources) st →
          ∀ v st', run s read paths st = (v, st') → v ≠ .unfinished →
            (v.code? = some 0 ↔ AllPass s sources (s.loader sources) st) ∧
            (∀ l₁ st₁, Passes s sources (s.loader sources) st l₁ st₁ → st' = st₁) ∧
            (¬ AllPass s sources (s.loader sources) st →
              ∃ src l₁ st₁, FirstToStop s sources (s.loader sources) st src l₁ st₁) ∧
            ∀ src l₁ st₁, FirstToStop s sources (s.loader sources) st src l₁ st₁ →
              Classified s l₁ st₁ src v st' ∧
              (Content.TellApart s.store.hash (contents read paths) →
                (v.code? = some 3 ↔ Source.Rejected src.data)))) := by
  refine ⟨?_, ?_⟩
  · intro hnone
    obtain ⟨f, hrun, hcode, hfirst⟩ := run_unreadable s hnone st
    refine ⟨f, hrun, congrArg some hcode, fun hne => ?_⟩
    obtain ⟨before, path, after, g, hpaths, hbefore, hg, rfl⟩ := hfirst hne
    exact ⟨before, path, after, g, hpaths, hbefore, hg, rfl⟩
  · intro hne hread
    obtain ⟨sources, hmap, hpaths, hall⟩ := mapM_readSource hread
    have hsources : readSources read paths = .ok sources := by rw [readSources_eq hne, hmap]
    refine ⟨sources, hsources, hpaths, fun src hsrc => (hall src hsrc).2, ?_⟩
    intro hst hshown v st' hrun hv
    have hclient : (s.loader sources).Client := .new hlru _ _ _
    obtain ⟨log, hruns⟩ := exists_runs s sources (s.loader sources) st
    obtain ⟨hverdict, hleft⟩ := Prod.mk.inj ((hruns.run_eq hsources).symm.trans hrun)
    rw [hverdict, hleft] at hruns
    have hpass : ∀ l₁ st₁, Passes s sources (s.loader sources) st l₁ st₁ →
        v = .done ∧ st' = st₁ :=
      fun l₁ st₁ h => hruns.done_of_passes hs hb hclient hv h
    have hfirst : ∀ src l₁ st₁, FirstToStop s sources (s.loader sources) st src l₁ st₁ →
        Classified s l₁ st₁ src v st' :=
      fun src l₁ st₁ h => hruns.classified_first hs hb hclient hv hst hshown h
    have hsplit := allPass_or_first s sources (s.loader sources) st
    refine ⟨⟨?_, ?_⟩, fun l₁ st₁ h => (hpass l₁ st₁ h).2, fun h => hsplit.resolve_left h, ?_⟩
    · intro hcode
      rcases hsplit with hall | ⟨src, l₁, st₁, h⟩
      · exact hall
      · have hcodes := (hfirst src l₁ st₁ h).codes
        rw [hcode] at hcodes
        exact absurd hcodes (by decide)
    · rintro ⟨l₁, st₁, h⟩
      rw [(hpass l₁ st₁ h).1]
      rfl
    · intro src l₁ st₁ h
      refine ⟨hfirst src l₁ st₁ h, fun hids => ?_⟩
      have hmem : ∀ src ∈ sources, src.data ∈ contents read paths :=
        fun src hsrc => mem_contents (hall src hsrc).1 (hall src hsrc).2
      have hclassified := hfirst src l₁ st₁ h
      obtain ⟨before, after, hsources', hbefore, _⟩ := h
      have hfaithful : l₁.Faithful view (contents read paths) := by
        refine hbefore.faithful hs ?_ (Loader.faithful_new hlru hids _ _ _)
        exact fun src hsrc => hmem src (by rw [hsources']; exact List.mem_append_left _ hsrc)
      exact hclassified.rejected_iff hs hfaithful (hmem src (by rw [hsources']; simp))

/-- One source twice, which reads a number and writes it, and one number to
read: the first run passes, and the second stops by a fault. -/
theorem exit_classifies_input :
    ∃ (s : Setting (Cache Content.Id Program)) (read : FileReader) (src : SourceFile)
      (st st' : Streams) (v : Verdict) (l₁ : Loader (Cache Content.Id Program)) (st₁ : Streams)
      (start u : Machine), s.store.IsLru id ∧ s.done = none ∧
      (2 ≤ s.config.base ∧ s.config.base ≤ 36) ∧
      (∀ path ∈ ["a", "a"], ∃ data, read path = .ok data) ∧ st.Foreign ∧
      Shown s [src, src] (s.loader [src, src]) st ∧
      run s read ["a", "a"] st = (v, st') ∧ v ≠ .unfinished ∧ v.code? = some 4 ∧
      FirstToStop s [src, src] (s.loader [src, src]) st src l₁ st₁ ∧
      Starts s l₁ st₁ src start ∧ StopsByFault s start u ∧ st'.output = u.output ∧
      u.output.text = "5\n" := by
  let s : Setting (Cache Content.Id Program) :=
    ⟨{ Config.default with maxSteps := 20, dump := true }, none, .standard, 1, 0⟩
  let data : Bytes := Bytes.ofText "aaababbb"
  let read : FileReader := fun _ => .ok data
  let src : SourceFile := ⟨"a", data⟩
  let p : Program := #[⟨.input, 0, 1, 1, 0⟩, ⟨.output, 1, halt, halt, 1⟩]
  let v : Verdict := .failed (.faultFrom .inputNotValidInteger 0 (.known .endOfInput))
  let output : Sink := { Sink.unlimited with written := ["5\n"] }
  let st : Streams :=
    ⟨Tokens.ofBytes (Bytes.ofText "5") none, Sink.unlimited, some Sink.unlimited⟩
  let st₁ : Streams := ⟨Tokens.ofBytes [] none, output,
    some { Sink.unlimited with written := ["a: stack []\n"] }⟩
  let st₂ : Streams := ⟨Tokens.ofBytes [] none, output,
    some { Sink.unlimited with written := ["a: stack []\n", "a: stack []\n"] }⟩
  have hb : 2 ≤ s.config.base ∧ s.config.base ≤ 36 := ⟨by decide, by decide⟩
  have hread : ∀ path ∈ ["a", "a"], ∃ data, read path = .ok data := fun _ _ => ⟨data, rfl⟩
  have hst : st.Foreign := ⟨Failure.foreign_known _, Failure.foreign_plain _⟩
  have hshown : Shown s [src, src] (s.loader [src, src]) st := by
    refine shown_of_unlimited hb ?_ _ _
    intro sink hsink
    rw [← Option.some.inj hsink]
    rfl
  have hlru : s.store.IsLru id := Program.Store.standard_isLru
  have hids : Content.TellApart s.store.hash [data] :=
    Content.tellApart_of_one fun _ => List.mem_singleton.1
  have hp : Source.program data = .ok p := by
    show Source.program (Bytes.ofText "aaababbb") = _
    cbv
  have hload : ∀ l : Loader (Cache Content.Id Program), l.Faithful id [data] →
      (l.load none data).result = .ok p := by
    intro l hl
    rw [(Loader.load_faithful hl List.mem_cons_self).1, hp]
  have hnew : (s.loader [src, src]).Faithful id [data] :=
    Loader.faithful_new hlru hids _ _ _
  have hagain : ((s.loader [src, src]).load none data).loader.Faithful id [data] :=
    (Loader.load_faithful hnew List.mem_cons_self).2
  have hfirst : runProgram s "a" p st = (.done, st₁) := by cbv
  have hsecond : runProgram s "a" p st₁ = (v, st₂) := by cbv
  have hruns : Runs s [src, src] (s.loader [src, src]) st [(src, p), (src, p)] v st₂ :=
    .passed (hload _ hnew) hfirst (.stopped (hload _ hagain) hsecond (by simp [v]))
  have hrun : run s read ["a", "a"] st = (v, st₂) := hruns.run_eq rfl
  obtain ⟨sources, hsources, _, _, hends⟩ :=
    (exit_classifies (s := s) hlru rfl hb read ["a", "a"] st).2 (by simp) hread
  obtain rfl : [src, src] = sources := Except.ok.inj hsources
  obtain ⟨hzero, _, hstop, htells⟩ := hends hst hshown v st₂ hrun (by simp [v])
  obtain ⟨src', l₁, st', hstopped⟩ := hstop fun hall => absurd (hzero.2 hall) (by decide)
  obtain rfl : src' = src := by
    obtain ⟨before, after, hsplit, _⟩ := hstopped
    have hmem : src' ∈ [src, src] := by simp [hsplit]
    simpa using hmem
  obtain ⟨hclassified, _⟩ := htells src l₁ st' hstopped
  obtain ⟨start, u, hstarts, hfault⟩ := hclassified.faulted.1 rfl
  obtain ⟨f, hdriven⟩ := hfault.driven
  obtain ⟨_, houtput, _⟩ := hclassified.left start _ u hstarts hdriven
  refine ⟨s, read, src, st, st₂, v, l₁, st', start, u, hlru, rfl, hb, hread, hst, hshown, hrun,
    by simp [v], rfl, hstopped, hstarts, hfault, houtput, ?_⟩
  rw [← houtput]
  rfl

end Command

end Tetraglyph
