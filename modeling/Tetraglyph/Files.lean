/-
  Tetraglyph.Files
  ────────────────
  **FILES.**

  Commands read whole files by their paths.  A `FileReader` is whatever
  answers such a request; `FileTree` is one, a directory with some files in
  it, which gives the answers an operating system gives: a path that leads
  nowhere, one that goes on behind a file, and one that is a directory.
-/
import Tetraglyph.Failure
import Tetraglyph.Text.Utf8

namespace Tetraglyph

/-- Gives the bytes of the file at a path. -/
abbrev FileReader := String → Except Failure Bytes

/-- Why a file cannot be read, and the path that was asked for. -/
inductive FileError where
  /-- There is nothing at the path. -/
  | missing
  /-- The path goes on behind something that is no directory. -/
  | notDirectory
  /-- The path is a directory. -/
  | isDirectory
  /-- The path or a part of it is longer than it can be. -/
  | nameTooLong
  /-- The path holds a character which no path can hold. -/
  | invalid
  deriving Repr, DecidableEq

/-- The wording of an error at a path. -/
def FileError.toFailure (path : String) : FileError → Failure
  | .missing => .plain s!"open {path}: no such file or directory"
  | .notDirectory => .plain s!"open {path}: not a directory"
  | .isDirectory => .plain s!"read {path}: is a directory"
  | .nameTooLong => .plain s!"open {path}: file name too long"
  | .invalid => .plain s!"open {path}: invalid argument"

/-- A directory: the names of its files, below it, and their bytes. -/
structure FileTree where
  /-- Paths of files, part by part, and what is in them. -/
  files : List (List String × Bytes)

namespace FileTree

/-- The parts of a path. -/
def parts (path : String) : List String := (path.splitOn "/").filter fun p => p != "" && p != "."

/-- A directory with files of the given names. -/
def ofFiles (files : List (String × Bytes)) : FileTree :=
  ⟨files.map fun (name, bs) => (parts name, bs)⟩

/-- What is at a place below the directory. -/
inductive Place where
  /-- A file. -/
  | file (bs : Bytes)
  /-- A directory. -/
  | directory
  /-- Nothing. -/
  | nothing

/-- What is at the place with the given parts; the directory itself has
none. -/
def place (t : FileTree) (here : List String) : Place :=
  match t.files.lookup here with
  | some bs => .file bs
  | none =>
    if here.isEmpty || t.files.any fun (p, _) => here.isPrefixOf p then .directory else .nothing

/-- Follows the parts of a path from the directory `here`, whose own parts
come last first; `above` counts the steps that led out of the tree. -/
def walk (t : FileTree) : List String → List String → Nat → Except FileError Place
  | [], _, _ + 1 => .ok .directory
  | [], here, 0 => .ok (t.place here.reverse)
  | ".." :: rest, [], above => t.walk rest [] (above + 1)
  | ".." :: rest, _ :: here, above => t.walk rest here above
  | p :: _, _, _ + 1 => .error (if 255 < p.utf8ByteSize then .nameTooLong else .missing)
  | p :: rest, here, 0 =>
    if 255 < p.utf8ByteSize then .error .nameTooLong
    else
      match t.place (p :: here).reverse with
      | .nothing => .error .missing
      | .directory => t.walk rest (p :: here) 0
      | .file bs => if rest.isEmpty then .ok (.file bs) else .error .notDirectory

/-- Whether a path asks for a directory. -/
def endsInSlash (path : String) : Bool :=
  path.endsWith "/" || path.endsWith "/."

/-- Reads the file at a path. -/
def read (t : FileTree) : FileReader := fun path =>
  if path.isEmpty then .error (FileError.missing.toFailure path)
  else if path.toList.any (· == Char.ofNat 0) then .error (FileError.invalid.toFailure path)
  else if 4096 ≤ path.utf8ByteSize then .error (FileError.nameTooLong.toFailure path)
  else
    match t.walk (parts path) [] 0 with
    | .error e => .error (e.toFailure path)
    | .ok .nothing => .error (FileError.missing.toFailure path)
    | .ok .directory => .error (FileError.isDirectory.toFailure path)
    | .ok (.file bs) =>
      if endsInSlash path then .error (FileError.notDirectory.toFailure path) else .ok bs

end FileTree

end Tetraglyph
