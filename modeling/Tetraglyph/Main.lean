/-
  Tetraglyph.Main
  ───────────────
  **THE PROGRAM.**

  Reads the files that the command line names and the input, executes the
  command line, and writes what came of it.  Files of settings are in TOML,
  and programs are remembered by the hashes of their sources.
-/
import Tetraglyph.CommandLine
import Tetraglyph.Content.Store
import Tetraglyph.Toml.Settings

namespace Tetraglyph.Main

/-- The paths which a command line names: sources, and a configuration. -/
def wantedPaths (args : List String) : List String :=
  match CommandLine.splitCommand args with
  | none => []
  | some (name, rest) =>
    match CommandLine.Verb.ofName? name with
    | none => []
    | some v =>
      match CommandLine.parse v rest with
      | .ok parsed => parsed.last "config" :: parsed.others
      | .error _ => []

/-- Whether a command line reads the input. -/
def wantsInput (args : List String) : Bool :=
  match CommandLine.splitCommand args with
  | some (name, _) => name == CommandLine.Verb.run.name
  | none => false

/-- The failure of reading a file. -/
def fileFailure (path : String) : IO.Error → Failure
  | .noFileOrDirectory .. => FileError.missing.toFailure path
  | .inappropriateType _ code _ =>
    if code = 20 then FileError.notDirectory.toFailure path
    else FileError.isDirectory.toFailure path
  | e => .plain s!"open {path}: {e}"

/-- Reads one file. -/
def readOne (path : String) : IO (String × Except Failure Bytes) := do
  try
    let data ← IO.FS.readBinFile path
    return (path, .ok data.toList)
  catch e => return (path, .error (fileFailure path e))

/-- Reads a stream to its end. -/
partial def readAll (stream : IO.FS.Stream) (done : ByteArray) : IO ByteArray := do
  let chunk ← stream.read 65536
  if chunk.isEmpty then return done
  readAll stream (done ++ chunk)

/-- More batches of instructions than any run takes. -/
def endless : Nat := 0x4000000000000000

/-- Executes a command line against the files and streams of the process. -/
def execute (args : List String) : IO (Except Misuse CommandLine.Outcome) := do
  let files ← (wantedPaths args).mapM readOne
  let input ← if wantsInput args then readAll (← IO.getStdin) .empty else pure .empty
  let read : FileReader := fun path =>
    (files.lookup path).getD (.error (FileError.missing.toFailure path))
  let host : CommandLine.Host _ :=
    ⟨read, .standard, Tokens.ofBytes input.toList none, none, none, .standard, 1, endless⟩
  return CommandLine.exec host "glypho" args

end Tetraglyph.Main

/-- The program. -/
def main (args : List String) : IO UInt32 := do
  match ← Tetraglyph.Main.execute args with
  | .ok outcome =>
    (← IO.getStdout).putStr outcome.stdout
    (← IO.getStderr).putStr outcome.stderr
    return UInt32.ofNat outcome.exit
  | .error m =>
    (← IO.getStderr).putStrLn (m.message?.getD "out of range")
    return 2
