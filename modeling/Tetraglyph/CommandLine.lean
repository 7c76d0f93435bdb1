/-
  Tetraglyph.CommandLine
  ──────────────────────
  **THE COMMAND LINE.**

  The first argument that is neither a flag nor the value of one names the
  command; without one the help is shown.  A command takes its flags with
  their values out of the other arguments, and what is left are the paths of
  sources, none of which may look like a flag.  When a flag is given twice
  the last one counts.

  Output is collected and handed on at the end, or earlier when the buffer
  runs over.  An output that cannot be written is a failure of its own only
  where nothing else failed.  The help counts on an output that takes it: a
  buffer that runs over under it is a misuse.
-/
import Tetraglyph.Command

namespace Tetraglyph.CommandLine

/-! ## §1. Commands. -/

/-- The commands, by name. -/
inductive Verb where
  | check
  | disasm
  | run
  deriving Repr, DecidableEq

namespace Verb

/-- All commands, in the order of their names. -/
def all : List Verb := [.check, .disasm, .run]

/-- The name of a command. -/
def name : Verb → String
  | .check => "check"
  | .disasm => "disasm"
  | .run => "run"

/-- What a command does, in a line. -/
def summary : Verb → String
  | .check => "load programs without running them, and report syntax errors"
  | .disasm => "print the instructions of programs"
  | .run => "run one or more programs, one after another, on the same stdin and stdout"

/-- The names of the flags of a command. -/
def flags : Verb → List String
  | .run => ["config", "base", "max-steps", "log-level", "dump"]
  | .check | .disasm => ["config", "log-level"]

/-- The command with a name. -/
def ofName? (s : String) : Option Verb := all.find? fun v => v.name == s

end Verb

/-! ## §2. Arguments. -/

/-- Whether an argument looks like a flag. -/
def isFlag (a : String) : Bool := a.startsWith "--"

/-- The name of the command and the arguments without it. -/
def splitCommand : List String → Option (String × List String)
  | [] => none
  | a :: rest =>
    if isFlag a then
      match rest with
      | [] => none
      | value :: rest => (splitCommand rest).map fun (c, others) => (c, a :: value :: others)
    else some (a, rest)

/-- The flags of a command with their values, in order, and the other
arguments. -/
structure Arguments where
  /-- Names of flags and their values. -/
  flags : List (String × String)
  /-- All other arguments. -/
  others : List String
  deriving Repr, DecidableEq

/-- What is wrong with the arguments of a command. -/
inductive ArgumentProblem where
  /-- A flag without a value. -/
  | noValue (flag : String)
  /-- An unknown flag among the sources. -/
  | noSource
  deriving Repr, DecidableEq

/-- The wording of a problem. -/
def ArgumentProblem.message : ArgumentProblem → String
  | .noValue flag => s!"arg named but not provided for {Text.quote flag}"
  | .noSource => "no args left to parse for positional argument \"src\""

/-- The flag which an argument names, if the command has it. -/
def flagName? (v : Verb) (a : String) : Option String := v.flags.find? fun f => "--" ++ f == a

/-- Takes the flags of a command out of the arguments. -/
def scan (v : Verb) : List String → Except ArgumentProblem Arguments
  | [] => .ok ⟨[], []⟩
  | a :: rest =>
    match flagName? v a with
    | some f =>
      match rest with
      | [] => .error (.noValue f)
      | value :: rest =>
        (scan v rest).map fun args => { args with flags := (f, value) :: args.flags }
    | none => (scan v rest).map fun args => { args with others := a :: args.others }

/-- The arguments of a command, with sources only beside its flags. -/
def parse (v : Verb) (args : List String) : Except ArgumentProblem Arguments := do
  let parsed ← scan v args
  if parsed.others.any isFlag then throw .noSource
  return parsed

/-- The last value of a flag, empty if it is not there. -/
def Arguments.last (a : Arguments) (flag : String) : String :=
  (a.flags.reverse.lookup flag).getD ""

/-- The flags as the configuration takes them. -/
def Arguments.toFlags (a : Arguments) : Flags :=
  { config := a.last "config", base := a.last "base", maxSteps := a.last "max-steps",
    logLevel := a.last "log-level", dump := a.last "dump" }

/-! ## §3. Help and usage. -/

/-- A text filled up with spaces to a width. -/
def padRight (width : Nat) (s : String) : String :=
  s ++ String.ofList (List.replicate (width - s.length) ' ')

/-- The last part of a path. -/
def baseName (path : String) : String :=
  if path.isEmpty then "."
  else
    match (path.splitOn "/").filter (· != "") with
    | [] => "/"
    | parts => parts.getLastD "/"

/-- The help, for a program that was called by some path. -/
def help (calledAs : String) : String :=
  let line (v : Verb) : String := "  " ++ padRight 6 v.name ++ "  " ++ v.summary ++ "\n"
  baseName calledAs ++ "\tGlypho interpreter\n\nCOMMANDS:\n" ++ String.join (Verb.all.map line) ++
    "\n"

/-- How a command is used. -/
def usage (v : Verb) : String :=
  let line (f : String) : String := "  --" ++ padRight 20 f ++ "  (repeated)\n"
  v.name ++ " <src>\nFLAGS:\n" ++ String.join (v.flags.map line)

/-! ## §4. Execution. -/

/-- Where a command line is executed. -/
structure Host (γ : Type) where
  /-- The files. -/
  read : FileReader
  /-- How settings and levels are written. -/
  formats : Config.Formats
  /-- The input. -/
  input : Tokens
  /-- Why nothing can be written to the output, if that is so. -/
  outputFailure : Option Failure
  /-- The error that the work was called off with, if it was. -/
  done : Option Failure
  /-- How programs are remembered. -/
  store : Program.Store γ
  /-- The number of processors. -/
  processors : Nat
  /-- How many batches of instructions one program may run for. -/
  limit : Nat

/-- What is left when a command line was executed. -/
structure Outcome where
  /-- The exit status. -/
  exit : Nat
  /-- What went to the output. -/
  stdout : String
  /-- What went to the error output. -/
  stderr : String
  deriving Repr, DecidableEq

/-- The number of bytes that are collected before output is handed on. -/
def bufferSize : Nat := 4096

section

variable {γ : Type}

/-- The output of a command: without limit, or one buffer if nothing can be
handed on. -/
def Host.stdout (h : Host γ) : Sink :=
  match h.outputFailure with
  | none => Sink.unlimited
  | some f => Sink.limited (.bytes bufferSize) f

/-- How a command ended, with its output and its error output. -/
structure Ending where
  /-- How it ended. -/
  verdict : Command.Verdict
  /-- The output. -/
  stdout : Sink
  /-- The error output. -/
  stderr : String

/-- Executes a command whose arguments are in order. -/
def perform (h : Host γ) (v : Verb) (args : Arguments) : Ending :=
  match Config.load h.formats h.read args.toFlags with
  | .error f => ⟨.failed f, h.stdout, ""⟩
  | .ok config =>
    let s : Command.Setting γ := ⟨config, h.done, h.store, h.processors, h.limit⟩
    match v with
    | .run =>
      let (verdict, st) :=
        Command.run s h.read args.others ⟨h.input, h.stdout, some Sink.unlimited⟩
      ⟨verdict, st.output, (st.diagnostics.getD Sink.unlimited).text⟩
    | .check =>
      let (verdict, out) := Command.check s h.read args.others h.stdout
      ⟨verdict, out, ""⟩
    | .disasm =>
      let (verdict, out) := Command.disasm s h.read args.others h.stdout
      ⟨verdict, out, ""⟩

/-- The failure of arguments that no command was found for, or that the
command does not take. -/
def argumentFailure (text : String) : Command.Verdict :=
  .failed (.argumentFrom "args" (.plain text))

/-- The failure of an output that cannot be handed on. -/
def outputFailure (f : Failure) : Failure := .within "writing output: " f ""

/-- Writes the help. -/
def showHelp (h : Host γ) (calledAs : String) : Ending :=
  match h.stdout.write (help calledAs) with
  | .ok out => ⟨.done, out, ""⟩
  | .error f => ⟨.misused (.helpUnwritten f.message), h.stdout, ""⟩

/-- Finds the command and executes it. -/
def dispatch (h : Host γ) (calledAs : String) (args : List String) : Ending :=
  match splitCommand args with
  | none => showHelp h calledAs
  | some (name, rest) =>
    if name.isEmpty then showHelp h calledAs
    else
      match Verb.ofName? name with
      | none => ⟨argumentFailure s!"no command found for {Text.quote name}", h.stdout, ""⟩
      | some v =>
        match parse v rest with
        | .error p => ⟨argumentFailure p.message, h.stdout, usage v⟩
        | .ok parsed => perform h v parsed

/-- The failure with which a command line ends: that of the command, or else
that of handing on its output. -/
def finalFailure (h : Host γ) (e : Ending) : Option Failure :=
  match e.verdict, h.outputFailure with
  | .failed f, _ => some f
  | _, some f => if e.stdout.text.isEmpty then none else some (outputFailure f)
  | _, none => none

/-- Executes a command line. -/
def exec (h : Host γ) (calledAs : String) (args : List String) : Except Misuse Outcome :=
  let e := dispatch h calledAs args
  match e.verdict with
  | .misused m => .error m
  | _ =>
    let failure := finalFailure h e
    let stdout := if h.outputFailure.isSome then "" else e.stdout.text
    let message := (failure.map fun f => f.message ++ "\n").getD ""
    .ok ⟨Failure.exitCode failure, stdout, e.stderr ++ message⟩

end

end Tetraglyph.CommandLine
