/-
  Tetraglyph.Command
  ──────────────────
  **COMMANDS ON SOURCE FILES.**

      run     — runs programs one after another on the same input and output
      check   — loads programs and says how long they are
      disasm  — lists the instructions of programs

  All files are read before the first program is loaded, so a missing file
  is reported before any program has run.  A command stops at the first
  program that fails.  What was written until then stays written.
-/
import Tetraglyph.Config
import Tetraglyph.Loader
import Tetraglyph.Machine

namespace Tetraglyph.Command

/-! ## §1. Sources and results. -/

/-- A program as it is in a file. -/
structure SourceFile where
  /-- The path of the file. -/
  path : String
  /-- What is in it. -/
  data : Bytes
  deriving Repr, DecidableEq

/-- Reads all files, up to the first that cannot be read. -/
def readSources (read : FileReader) (paths : List String) : Except Failure (List SourceFile) :=
  if paths.isEmpty then .error (.argumentFrom "src" (.plain "no source files"))
  else
    paths.mapM fun path =>
      match read path with
      | .ok data => .ok ⟨path, data⟩
      | .error f =>
        .error (.argumentFrom path
          (.within "couldn't find or open the specified file: " f ""))

/-- How a command ended. -/
inductive Verdict where
  /-- Everything was done. -/
  | done
  /-- Something failed. -/
  | failed (f : Failure)
  /-- The configuration was none that a command can work with. -/
  | misused (m : Misuse)
  /-- A program ran for more batches than were allowed. -/
  | unfinished
  deriving Repr, DecidableEq

/-- What a command does not change from program to program. -/
structure Setting (γ : Type) where
  /-- The configuration. -/
  config : Config
  /-- The error that the work was called off with, if it was. -/
  done : Option Failure
  /-- How programs are remembered. -/
  store : Program.Store γ
  /-- The number of processors. -/
  processors : Nat
  /-- How many batches of instructions one program may run for. -/
  limit : Nat

variable {γ : Type}

/-- A loader with room for all sources. -/
def Setting.loader (s : Setting γ) (sources : List SourceFile) : Loader γ :=
  Loader.new s.store s.processors s.config.workers sources.length

/-! ## §2. Running. -/

/-- What the programs of a run share. -/
structure Streams where
  /-- The input, of which every program leaves the rest to the next. -/
  input : Tokens
  /-- The output. -/
  output : Sink
  /-- Where stacks are shown, if anywhere. -/
  diagnostics : Option Sink

/-- Runs a machine under a configuration: to its end without a limit on the
steps, and otherwise up to the limit, which is a failure if the machine could
go on. -/
def drive (s : Setting γ) (m : Machine) : Option (Option Failure × Machine) :=
  if s.config.maxSteps = 0 then Machine.runToHalt s.done s.limit m
  else
    let m := (m.run s.config.maxSteps.toNat).2
    match m.fault with
    | some f => some (some f, m)
    | none => some (if m.halted then none else some (.known .stepLimit), m)

/-- The line that shows the stack of a program. -/
def stackLine (path : String) (texts : List String) : String :=
  let values := " ".intercalate texts
  s!"{path}: stack [{values}]\n"

/-- Shows the stack of a program that has stopped, if that is asked for. -/
def showStack (s : Setting γ) (path : String) (m : Machine) (diagnostics : Option Sink) :
    Except Verdict (Option Sink) :=
  match s.config.dump, diagnostics with
  | true, some sink =>
    match m.stack.texts s.config.base with
    | .error e => .error (.misused e)
    | .ok texts =>
      match sink.write (stackLine path texts) with
      | .ok sink => .ok (some sink)
      | .error f => .error (.failed f)
  | _, _ => .ok diagnostics

/-- The failure of a program: a limit on the steps names the program and
says how many there were. -/
def programFailure (path : String) (m : Machine) (f : Failure) : Failure :=
  if f.isKnown .stepLimit then .within s!"{path}: " f s!" after {m.steps} steps" else f

/-- Runs one program that is already loaded. -/
def runProgram (s : Setting γ) (path : String) (program : Program) (st : Streams) :
    Verdict × Streams :=
  match Machine.new program s.config.base st.input st.output with
  | .error e => (.misused e, st)
  | .ok m =>
    match drive s m with
    | none => (.unfinished, st)
    | some (failure, m) =>
      let st : Streams := { st with input := m.input, output := m.output }
      match m.broken with
      | some e => (.misused e, st)
      | none =>
        match showStack s path m st.diagnostics with
        | .error v => (v, st)
        | .ok diagnostics =>
          let st := { st with diagnostics }
          match failure with
          | some f => (.failed (programFailure path m f), st)
          | none => (.done, st)

/-- Loads and runs programs in order, up to the first that fails. -/
def runSources (s : Setting γ) : List SourceFile → Loader γ → Streams → Verdict × Streams
  | [], _, st => (.done, st)
  | src :: rest, loader, st =>
    let loaded := loader.load s.done src.data
    match loaded.result with
    | .error f => (.failed f, st)
    | .ok program =>
      match runProgram s src.path program st with
      | (.done, st) => runSources s rest loaded.loader st
      | (v, st) => (v, st)

/-- Runs the programs at some paths. -/
def run (s : Setting γ) (read : FileReader) (paths : List String) (st : Streams) :
    Verdict × Streams :=
  match readSources read paths with
  | .error f => (.failed f, st)
  | .ok sources => runSources s sources (s.loader sources) st

/-! ## §3. Checking and listing. -/

/-- Loads programs in order and writes a text for each, up to the first that
fails. -/
def describe (s : Setting γ) (text : SourceFile → Program → String) :
    List SourceFile → Loader γ → Sink → Verdict × Sink
  | [], _, sink => (.done, sink)
  | src :: rest, loader, sink =>
    let loaded := loader.load s.done src.data
    match loaded.result with
    | .error f => (.failed f, sink)
    | .ok program =>
      match sink.write (text src program) with
      | .error f => (.failed f, sink)
      | .ok sink => describe s text rest loaded.loader sink

/-- Reads the sources at some paths and writes a text for each, which may
depend on how many there are. -/
def describeAll (s : Setting γ) (text : Nat → SourceFile → Program → String) (read : FileReader)
    (paths : List String) (sink : Sink) : Verdict × Sink :=
  match readSources read paths with
  | .error f => (.failed f, sink)
  | .ok sources => describe s (text sources.length) sources (s.loader sources) sink

/-- The line for a program that was loaded. -/
def checkLine (_ : Nat) (src : SourceFile) (p : Program) : String :=
  s!"{src.path}: ok, {p.size} instructions\n"

/-- The listing of a program, behind a line with its path if there are
several. -/
def listing (sources : Nat) (src : SourceFile) (p : Program) : String :=
  let title := if 1 < sources then s!"# {src.path}\n" else ""
  String.join (title :: p.toList.map fun i => i.listing ++ "\n")

/-- Loads the programs at some paths. -/
def check (s : Setting γ) : FileReader → List String → Sink → Verdict × Sink :=
  describeAll s checkLine

/-- Lists the programs at some paths. -/
def disasm (s : Setting γ) : FileReader → List String → Sink → Verdict × Sink :=
  describeAll s listing

end Tetraglyph.Command
