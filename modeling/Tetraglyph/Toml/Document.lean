/-
  Tetraglyph.Toml.Document
  ────────────────────────
  **WHAT A TOML FILE DEFINES.**

  The statements of a file fill in tables, which are numbered from the table
  of the whole file on, number 0.  An entry names a table by its number, so
  one table may be seen from two places: an inline table is gathered by
  itself, and its keys also go where they belong in the file.

  No key is defined twice, with two exceptions.  A table that only came up as
  the parent of another key, or as the front part of a dotted key, is
  IMPLICIT: it may be defined once more, and then stays what it is.  And a
  key last known to be an ARRAY gives way where an implicit key is defined
  once more.  Both marks belong to the written key and outlive the tables:
  they stay when an array of tables goes on to its next table.

      openContext  — makes the table of a header or of a dotted key
      define       — gives a key its entry, by the rule above
      fill         — a value, with all that stands inside it
      ofFile?      — all statements of a file
-/
import Std.Data.HashSet
import Tetraglyph.Text.Quoted
import Tetraglyph.Toml.Grammar

namespace Tetraglyph.Toml

/-! ## §1. Documents. -/

/-- What a key stands for. -/
inductive Entry where
  /-- A value that is neither an array nor a table. -/
  | scalar (v : Value)
  /-- An array of values. -/
  | array
  /-- The table of this number. -/
  | table (t : Nat)
  /-- An array of tables; only the last of them can still grow. -/
  | tables (last : Nat)

/-- A file as far as it was read. -/
structure Document where
  /-- The tables by their numbers. -/
  store : Array (List (String × Entry))
  /-- The keys that may be defined once more. -/
  implicits : Std.HashSet Key
  /-- The keys last known to be arrays. -/
  arrays : Std.HashSet Key
  /-- The keys written down, the last first. -/
  keys : List Key

namespace Document

/-- Nothing read: only the table of the file. -/
def empty : Document := ⟨#[[]], ∅, ∅, []⟩

/-- What part of a key stands for in a table. -/
def entry? (d : Document) (t : Nat) (part : String) : Option Entry := (d.store.getD t []).lookup part

/-- Makes part of a key stand for something in a table. -/
def put (d : Document) (t : Nat) (part : String) (e : Entry) : Document :=
  { d with store := d.store.modify t fun es => (part, e) :: es.filter (·.1 != part) }

/-- One more table, and its number. -/
def newTable (d : Document) : Document × Nat := ({ d with store := d.store.push [] }, d.store.size)

/-- The entries of the table of the file. -/
def root (d : Document) : List (String × Entry) := d.store.getD 0 []

/-- Marks a key as implicit. -/
def addImplicit (d : Document) (key : Key) : Document :=
  { d with implicits := d.implicits.insert key }

/-- The opposite. -/
def removeImplicit (d : Document) (key : Key) : Document :=
  { d with implicits := d.implicits.erase key }

/-- The key whose kind is noted for a part below `context`: an empty part
counts as `context` itself, unless that is the whole file. -/
def markedKey (context : Key) (part : String) : Key :=
  if part.isEmpty && !context.isEmpty then context else context ++ [part]

/-- Notes whether a part below `context` is an array. -/
def mark (d : Document) (context : Key) (part : String) (isArray : Bool) : Document :=
  let key := markedKey context part
  { d with arrays := if isArray then d.arrays.insert key else d.arrays.erase key }

/-- Notes that a key was written down. -/
def note (d : Document) (key : Key) : Document := { d with keys := key :: d.keys }

/-! ## §2. Defining keys. -/

/-- The table to which a key leads, which goes on in the last table of an
array of tables. -/
def tableAt? (d : Document) (key : Key) : Option Nat :=
  key.foldlM (fun t part =>
    match d.entry? t part with
    | some (.table u) | some (.tables u) => some u
    | _ => none) 0

/-- Defines a part below `context`.  An implicit key may be defined once
more, which takes effect only where an array was. -/
def define (d : Document) (context : Key) (part : String) (e : Entry) : Option Document := do
  let key := context ++ [part]
  let t ← d.tableAt? context
  match d.entry? t part with
  | none => return d.put t part e
  | some _ =>
    if d.implicits.contains key then
      let d := d.removeImplicit key
      return if d.arrays.contains key then d.put t part e else d
    else none

/-- Makes sure that a key leads from table `t` to a table, and gives that
table.  Those which are missing are implicit.  The parts that led to `t` come
last first in `above`. -/
def openParents (d : Document) (above : Key) (t : Nat) : Key → Option (Document × Nat)
  | [] => some (d, t)
  | part :: rest =>
    match d.entry? t part with
    | none =>
      let (d, u) := (d.addImplicit (part :: above).reverse).newTable
      openParents (d.put t part (.table u)) (part :: above) u rest
    | some (.table u) | some (.tables u) => openParents d (part :: above) u rest
    | some _ => none

/-- Makes a table for a part below `context`, a single one or one more of an
array of tables. -/
def openContext (d : Document) (context : Key) (part : String) (inArray : Bool) :
    Option Document := do
  let (d, t) ← d.openParents [] 0 context
  let (d, u) := d.newTable
  if inArray then
    match d.entry? t part with
    | none | some (.tables _) => return d.put t part (.tables u)
    | some _ => none
  else d.define context part (.table u)

/-- Opens the tables which the front parts of a dotted key name, below the
table `context`. -/
def openDotted (d : Document) (context : Key) : Key → Option Document
  | [] => some d
  | part :: rest => do
    let here := context ++ [part]
    let d ← (d.addImplicit here).openContext context part false
    openDotted d here rest

/-! ## §3. Values. -/

/-- Puts an entry into the table of an inline table, `t`, under a dotted key
whose last part is `part`. -/
def gather (d : Document) (t : Nat) (part : String) (e : Entry) : Key → Option Document
  | [] => some (d.put t part e)
  | p :: rest =>
    match d.entry? t p with
    | none =>
      let (d, u) := d.newTable
      gather (d.put t p (.table u)) u part e rest
    | some (.table u) => gather d u part e rest
    | some _ => none

mutual
/-- The entry for a value of a part below `context`.  What stands inside the
value is defined below that part. -/
def fill (d : Document) (context : Key) (part : String) (inArray : Bool) (v : Value) :
    Option (Document × Entry) :=
  match v with
  | .array items => do
    let d ← fillItems (d.mark context part true) context part items
    return (d, .array)
  | .table entries => do
    let here := context ++ [part]
    let d ← (d.addImplicit here).openContext context part inArray
    let (d, t) := d.newTable
    let d ← fillEntries d here (some t) entries
    return (d, .table t)
  | v => some (d, .scalar v)
/-- Goes through the items of an array. -/
def fillItems (d : Document) (context : Key) (part : String) (vs : List Value) : Option Document :=
  match vs with
  | [] => some d
  | v :: rest => do
    let (d, _) ← fill d context part true v
    fillItems d context part rest
/-- Goes through keys with values below the table `context`.  Those of an
inline table are also gathered in a table of their own, `t`. -/
def fillEntries (d : Document) (context : Key) (t : Option Nat) (es : List (Key × Value)) :
    Option Document :=
  match es with
  | [] => some d
  | (key, v) :: rest => do
    let front := key.dropLast
    let part := key.getLastD ""
    let inner := context ++ front
    let d ← d.openDotted context front
    let (d, e) ← fill (d.note (inner ++ [part])) inner part false v
    let d ← d.define inner part e
    let d := d.mark inner part (e matches .array)
    let d ← match t with
      | some t => d.gather t part e front
      | none => some d
    fillEntries d context t rest
end

/-! ## §4. Reading a file. -/

/-- Carries out a header, which opens a table or one more of an array. -/
def openHeader (d : Document) (key : Key) (inArray : Bool) : Option Document := do
  let context := key.dropLast
  let part := key.getLastD ""
  let d ← d.openContext context part inArray
  return { d with arrays := d.arrays.erase key }.note key

/-- Carries out a statement below the table of the last header, and gives
the table of the next one. -/
def state (d : Document) (context : Key) : Statement → Option (Document × Key)
  | .header key => (d.openHeader key false).map fun d => (d, key)
  | .arrayHeader key => (d.openHeader key true).map fun d => (d, key)
  | .entry key v => (d.fillEntries context none [(key, v)]).map fun d => (d, context)

/-- The document of a file, if it is TOML. -/
def ofFile? (file : Bytes) : Option Document := do
  let statements ← read? file
  let (d, _) ← statements.foldlM (fun (d, context) s => d.state context s) (empty, ([] : Key))
  return d

/-- The keys written down, in order. -/
def written (d : Document) : List Key := d.keys.reverse

end Document

/-! ## §5. Keys as text. -/

/-- A character of a key in quotes. -/
def keyChar (c : Char) : List Char :=
  if c == '"' || c == '\\' then ['\\', c]
  else if c == '\t' then ['\\', 't']
  else if c == '\n' then ['\\', 'n']
  else if c == '\r' then ['\\', 'r']
  else if c.toNat = 0x08 then ['\\', 'b']
  else if c.toNat = 0x0C then ['\\', 'f']
  else if c.toNat < 0x20 || c.toNat = 0x7F then '\\' :: 'u' :: Text.hexDigits 4 c.toNat
  else [c]

/-- A part of a key, in quotes unless it can do without. -/
def keyPartText (part : String) : String :=
  if !part.isEmpty && part.toList.all isBare then part
  else String.ofList ('"' :: part.toList.flatMap keyChar ++ ['"'])

/-- A key as text. -/
def keyText (key : Key) : String := ".".intercalate (key.map keyPartText)

end Tetraglyph.Toml
