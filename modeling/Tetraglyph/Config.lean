/-
  Tetraglyph.Config
  ─────────────────
  **CONFIGURATION.**

  A configuration has three layers: the defaults, a file, and flags.  Each
  layer overrides the one before it, value by value, and every value is
  checked in its own layer: a bad value in the file is refused even where a
  flag overrides it.  Every refusal names the argument it is about.

  In what format a file is written, and which texts are log levels, is not
  decided here: whoever loads a configuration hands the two readers over.

      FileSettings  — what a file asks for
      Formats       — the readers of files and of log levels
      applyFile     — the file over the defaults
      load          — the flags over the file
-/
import Tetraglyph.Files
import Tetraglyph.Level
import Tetraglyph.Numeral.Base
import Tetraglyph.Text.Quoted

namespace Tetraglyph

/-! ## §1. Configurations and flags. -/

/-- How programs are loaded and run. -/
structure Config where
  /-- The base of numbers in input and output. -/
  base : Int
  /-- The greatest number of steps of each program; 0 for no limit. -/
  maxSteps : UInt64
  /-- How much is logged. -/
  logLevel : Level
  /-- How many workers decode a program; 0 for one for each processor. -/
  workers : Int
  /-- Whether the stack of each program is shown when it stops. -/
  dump : Bool
  deriving Repr, DecidableEq

/-- Values as they stand on the command line; an empty one is not there. -/
structure Flags where
  /-- The path of a file. -/
  config : String := ""
  /-- The base. -/
  base : String := ""
  /-- The greatest number of steps. -/
  maxSteps : String := ""
  /-- The log level. -/
  logLevel : String := ""
  /-- Whether stacks are shown. -/
  dump : String := ""
  deriving Repr, DecidableEq

namespace Config

/-- The configuration without file and flags. -/
def default : Config := ⟨10, 0, .warn, 0, false⟩

/-! ## §2. Files and formats. -/

/-- What a file asks for. -/
structure FileSettings where
  /-- The base. -/
  base : Option Int := none
  /-- The greatest number of steps. -/
  maxSteps : Option UInt64 := none
  /-- The log level; empty if there is none. -/
  logLevel : String := ""
  /-- The number of workers. -/
  workers : Option Int := none
  /-- Whether stacks are shown. -/
  dump : Option Bool := none
  /-- The texts of the keys that mean nothing. -/
  unknown : List String := []
  deriving Repr, DecidableEq

/-- How settings and levels are written: a reader for the bytes of a file, and
one for the text of a level. -/
structure Formats where
  /-- The settings of a file, or why it has none. -/
  settings : Bytes → Except Failure FileSettings
  /-- The level that a text names, or why it names none. -/
  level : String → Except Failure Level

/-! ## §3. Single values. -/

/-- The refusal of a base that is none. -/
def checkBase (b : Int) : Except Failure Int :=
  if Base.isValid b then .ok b
  else
    .error (.argumentFrom "base" (.plain s!"{b} is not supported, it must be between 2 and 36"))

/-- The number of decimal digits, if there are only digits and at least
one. -/
def digits? (cs : List Char) : Option Nat :=
  if !cs.isEmpty && cs.all Char.isDigit then
    some (cs.foldl (fun n c => 10 * n + (c.toNat - 48)) 0)
  else none

/-- A signed number of 64 bits: a sign or none, then digits. -/
def signed? (s : String) : Option Int :=
  let n : Option Int :=
    match s.toList with
    | '-' :: cs => (digits? cs).map fun n => -(n : Int)
    | '+' :: cs => (digits? cs).map fun n => (n : Int)
    | cs => (digits? cs).map fun n => (n : Int)
  match n with
  | some i => if -0x8000000000000000 ≤ i ∧ i < 0x8000000000000000 then some i else none
  | none => none

/-- An unsigned number of 64 bits: digits only. -/
def unsigned? (s : String) : Option UInt64 :=
  match digits? s.toList with
  | some n => if n < 0x10000000000000000 then some (UInt64.ofNat n) else none
  | none => none

/-- True or false. -/
def boolean? (s : String) : Option Bool :=
  if ["1", "t", "T", "TRUE", "true", "True"].contains s then some true
  else if ["0", "f", "F", "FALSE", "false", "False"].contains s then some false
  else none

/-- Reads a log level. -/
def level (formats : Formats) (s : String) : Except Failure Level :=
  match formats.level s with
  | .ok l => .ok l
  | .error f => .error (.argumentFrom "log-level" f)

/-! ## §4. The file. -/

/-- The refusal of the configuration file. -/
def fileFailure (text : String) : Failure := .argumentFrom "config" (.plain text)

/-- Puts what a file asks for over a configuration. -/
def apply (formats : Formats) (cfg : Config) (path : String) (s : FileSettings) :
    Except Failure Config := do
  if !s.unknown.isEmpty then
    let keys := ", ".intercalate s.unknown
    throw (fileFailure s!"unknown keys in {path}: {keys}")
  let base ← match s.base with
    | some b => checkBase b
    | none => pure cfg.base
  let logLevel ← if s.logLevel.isEmpty then pure cfg.logLevel else level formats s.logLevel
  let workers ← match s.workers with
    | some w =>
      if w < 0 then throw (fileFailure s!"workers must not be negative, have {w}") else pure w
    | none => pure cfg.workers
  return ⟨base, s.maxSteps.getD cfg.maxSteps, logLevel, workers, s.dump.getD cfg.dump⟩

/-- Puts a file over a configuration. -/
def applyFile (formats : Formats) (cfg : Config) (read : FileReader) (path : String) :
    Except Failure Config :=
  match read path with
  | .error f => .error (.argumentFrom "config" f)
  | .ok file =>
    match formats.settings file with
    | .error f => .error (.argumentFrom "config" (.within s!"parse error in {path}: " f ""))
    | .ok s => cfg.apply formats path s

/-! ## §5. Flags. -/

/-- Puts flags over a configuration. -/
def applyFlags (formats : Formats) (cfg : Config) (f : Flags) : Except Failure Config := do
  let base ←
    if f.base.isEmpty then pure cfg.base
    else
      match signed? f.base with
      | some b => checkBase b
      | none => throw (.argumentFrom "base" (.plain s!"{Text.quote f.base} is not a number"))
  let maxSteps ←
    if f.maxSteps.isEmpty then pure cfg.maxSteps
    else
      match unsigned? f.maxSteps with
      | some n => pure n
      | none =>
        throw (.argumentFrom "max-steps"
          (.plain s!"{Text.quote f.maxSteps} is not a non-negative number"))
  let logLevel ← if f.logLevel.isEmpty then pure cfg.logLevel else level formats f.logLevel
  let dump ←
    if f.dump.isEmpty then pure cfg.dump
    else
      match boolean? f.dump with
      | some b => pure b
      | none => throw (.argumentFrom "dump" (.plain s!"{Text.quote f.dump} is not true or false"))
  return { cfg with base, maxSteps, logLevel, dump }

/-- The configuration for some flags: the defaults, the file they name if
any, and the flags themselves. -/
def load (formats : Formats) (read : FileReader) (f : Flags) : Except Failure Config := do
  let cfg ← if f.config.isEmpty then pure default else default.applyFile formats read f.config
  cfg.applyFlags formats f

end Config

end Tetraglyph
