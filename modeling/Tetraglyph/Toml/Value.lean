/-
  Tetraglyph.Toml.Value
  ─────────────────────
  **TOML VALUES AND STATEMENTS.**

  What a TOML text says, before anything is made of it: a sequence of
  statements, each a table header or a key with a value.  Floats and dates
  are checked when they are read, and then only their type matters here.
-/

namespace Tetraglyph.Toml

/-- A key with its parts, which are written with dots between them. -/
abbrev Key := List String

/-- A value. -/
inductive Value where
  /-- A text. -/
  | string (s : String)
  /-- A whole number of 64 bits. -/
  | integer (i : Int)
  /-- True or false. -/
  | boolean (b : Bool)
  /-- A number with a fraction or an exponent, an infinity or not a number. -/
  | float
  /-- A date, a time, or both. -/
  | datetime
  /-- Values in brackets. -/
  | array (items : List Value)
  /-- Keys and values in braces. -/
  | table (entries : List (Key × Value))

/-- One statement of a text. -/
inductive Statement where
  /-- A header `[key]`: what follows belongs to this table. -/
  | header (key : Key)
  /-- A header `[[key]]`: what follows belongs to a new table at the end of
  this array of tables. -/
  | arrayHeader (key : Key)
  /-- A key with a value. -/
  | entry (key : Key) (value : Value)

/-- Whether a character may stand in a key without quotes. -/
def isBare (c : Char) : Bool := c.isAlphanum || c == '_' || c == '-'

end Tetraglyph.Toml
