/-
  Tetraglyph.Toml.Settings
  ────────────────────────
  **SETTINGS IN TOML.**

  A file of settings is a TOML document.  Its keys are found in any case, and
  a value of the wrong type makes the whole file one that cannot be read.  A
  key that names no setting is only noted.
-/
import Tetraglyph.Config
import Tetraglyph.Toml.Document

namespace Tetraglyph

namespace Toml

open Config (FileSettings Formats)

/-- A character, the same for all cases of it.  The long s and the Kelvin
sign are cases of s and k. -/
def foldCase (c : Char) : Char :=
  if c.toNat = 0x17F then 's' else if c.toNat = 0x212A then 'k' else c.toLower

/-- The names of the settings. -/
def names : List String := ["base", "max-steps", "log-level", "workers", "dump"]

/-- The setting which a key of the file names, in any case. -/
def nameOf? (key : String) : Option String :=
  names.find? fun n => n.toList == key.toList.map foldCase

/-- Takes one setting over, if its value has the right type. -/
def set? (s : FileSettings) (name : String) (entry : Entry) : Option FileSettings :=
  match name, entry with
  | "base", .scalar (.integer i) => some { s with base := some i }
  | "max-steps", .scalar (.integer i) => some { s with maxSteps := some (UInt64.ofInt i) }
  | "log-level", .scalar (.string t) => some { s with logLevel := t }
  | "workers", .scalar (.integer i) => some { s with workers := some i }
  | "dump", .scalar (.boolean b) => some { s with dump := some b }
  | _, _ => none

/-- Takes over what one key of a document defines. -/
def take? (s : FileSettings) : String × Entry → Option FileSettings
  | (key, entry) =>
    match nameOf? key with
    | some name => set? s name entry
    | none => some s

/-- Whether a key of a document is a setting. -/
def isSetting : Key → Bool
  | [key] => (nameOf? key).isSome
  | _ => false

/-- The settings of a file, if it is TOML and the settings have the right
types. -/
def settings? (file : Bytes) : Option FileSettings := do
  let d ← Document.ofFile? file
  let s ← d.root.reverse.foldlM take? {}
  return { s with unknown := (d.written.filter fun k => !isSetting k).map keyText }

/-- What is said of a file that has no settings. -/
def refusal : String := "no settings in TOML"

end Toml

/-- Files in TOML, and levels by their names. -/
def Config.Formats.standard : Config.Formats where
  settings file :=
    match Toml.settings? file with
    | some s => .ok s
    | none => .error (.plain Toml.refusal)
  level := Level.parse

end Tetraglyph
