/-
  Tetraglyph.Toml.Grammar
  ───────────────────────
  **READING TOML.**

  From characters to statements.  A function that reads something takes the
  text from its first character on and gives what it read and the rest of
  the text, or `none` where the text is not TOML.  Nested values and lists
  are read with a limit on their number of steps, which starts at the length
  of the text; every step takes a character, so it is never reached.

  Inline tables may go over several lines and end with a comma, and seconds
  may be missing from times.
-/
import Tetraglyph.Text.Utf8
import Tetraglyph.Toml.Scalar

namespace Tetraglyph.Toml

/-! ## §1. White space and comments. -/

/-- A space or a tab. -/
def isSpace (c : Char) : Bool := c == ' ' || c == '\t'

/-- A character that ends a line. -/
def isLineEnd (c : Char) : Bool := c == '\n' || c == '\r'

/-- The text behind spaces and tabs. -/
def skipSpace (cs : List Char) : List Char := cs.dropWhile isSpace

/-- The text behind a comment, if it starts with one. -/
def skipComment : List Char → List Char
  | '#' :: cs => cs.dropWhile fun c => !isLineEnd c
  | cs => cs

/-- The text behind white space, line ends and comments. -/
def skipLines : Nat → List Char → List Char
  | 0, cs => cs
  | limit + 1, cs =>
    match cs.dropWhile fun c => isSpace c || isLineEnd c with
    | '#' :: rest => skipLines limit (skipComment ('#' :: rest))
    | rest => rest

/-! ## §2. Texts in quotes. -/

/-- The character of `n` hexadecimal digits, which must be a code point. -/
def hexChar? (n : Nat) (cs : List Char) : Option (Char × List Char) :=
  let ds := cs.take n
  let v := number 16 ds
  if ds.length = n && ds.all (isDigitOf 16) && v.isValidChar then some (Char.ofNat v, cs.drop n)
  else none

/-- A character behind a backslash. -/
def escape? : List Char → Option (Char × List Char)
  | 'b' :: cs => some (Char.ofNat 0x08, cs)
  | 't' :: cs => some ('\t', cs)
  | 'n' :: cs => some ('\n', cs)
  | 'f' :: cs => some (Char.ofNat 0x0C, cs)
  | 'r' :: cs => some ('\r', cs)
  | 'e' :: cs => some (Char.ofNat 0x1B, cs)
  | '"' :: cs => some ('"', cs)
  | '\\' :: cs => some ('\\', cs)
  | 'x' :: cs => hexChar? 2 cs
  | 'u' :: cs => hexChar? 4 cs
  | 'U' :: cs => hexChar? 8 cs
  | _ => none

/-- A text on one line up to a double quote, behind what was read of it. -/
def basic? : Nat → List Char → List Char → Option (String × List Char)
  | 0, _, _ => none
  | limit + 1, done, cs =>
    match cs with
    | [] => none
    | '"' :: rest => some (String.ofList done.reverse, rest)
    | '\\' :: rest =>
      match escape? rest with
      | some (c, rest) => basic? limit (c :: done) rest
      | none => none
    | c :: rest => if isLineEnd c then none else basic? limit (c :: done) rest

/-- A text on one line up to a single quote. -/
def literal? (cs : List Char) : Option (String × List Char) :=
  match cs.dropWhile fun c => c != '\'' && !isLineEnd c with
  | '\'' :: rest => some (String.ofList (cs.takeWhile (· != '\'')), rest)
  | _ => none

/-- The text behind one line end: a line feed, or a carriage return and a
line feed. -/
def skipLineEnd : List Char → List Char
  | '\n' :: cs => cs
  | '\r' :: '\n' :: cs => cs
  | cs => cs

/-- Three or more quotes `q` at the front, `most` at the greatest.  The last
three end a text, and those before them belong to it: these, and what
follows. -/
def closing? (q : Char) (most : Nat) (cs : List Char) : Option (List Char × List Char) :=
  let n := (cs.takeWhile (· == q)).length
  if 3 ≤ n ∧ n ≤ most then some (List.replicate (n - 3) q, cs.drop n) else none

/-- A text on several lines up to three quotes `q`, with escapes or without.
At most `most` quotes may end it here: five, and six directly behind an
escaped backslash. -/
def multiline? (q : Char) (escapes : Bool) : Nat → Nat → List Char → List Char →
    Option (String × List Char)
  | 0, _, _, _ => none
  | limit + 1, most, done, cs =>
    match cs with
    | [] => none
    | c :: rest =>
      if c == q then
        match closing? q most cs with
        | some (more, rest) => some (String.ofList (done.reverse ++ more), rest)
        | none =>
          if most < (cs.takeWhile (· == q)).length then none
          else multiline? q escapes limit 5 (c :: done) rest
      else if escapes && c == '\\' then
        match skipSpace rest with
        | '\n' :: after | '\r' :: after =>
          multiline? q escapes limit 5 done (after.dropWhile fun c => isSpace c || isLineEnd c)
        | _ =>
          match escape? rest with
          | some (c, after) =>
            multiline? q escapes limit (if rest.head? == some '\\' then 6 else 5) (c :: done) after
          | none => none
      else multiline? q escapes limit 5 (c :: done) rest

/-- A text in quotes. -/
def text? (limit : Nat) : List Char → Option (String × List Char)
  | '"' :: '"' :: '"' :: cs => multiline? '"' true limit 5 [] (skipLineEnd cs)
  | '\'' :: '\'' :: '\'' :: cs => multiline? '\'' false limit 5 [] (skipLineEnd cs)
  | '"' :: cs => basic? limit [] cs
  | '\'' :: cs => literal? cs
  | _ => none

/-! ## §3. Keys. -/

/-- One part of a key. -/
def keyPart? (limit : Nat) : List Char → Option (String × List Char)
  | '"' :: cs => basic? limit [] cs
  | '\'' :: cs => literal? cs
  | cs =>
    match cs.takeWhile isBare with
    | [] => none
    | bare => some (String.ofList bare, cs.dropWhile isBare)

/-- A key, and the text behind the spaces after it. -/
def key? : Nat → List Char → Option (Key × List Char)
  | 0, _ => none
  | limit + 1, cs =>
    match keyPart? (limit + 1) cs with
    | none => none
    | some (part, rest) =>
      match skipSpace rest with
      | '.' :: rest =>
        match key? limit (skipSpace rest) with
        | some (parts, rest) => some (part :: parts, rest)
        | none => none
      | rest => some ([part], rest)

/-- A key with an equals sign behind it. -/
def keyAndEquals? (limit : Nat) (cs : List Char) : Option (Key × List Char) :=
  match key? limit cs with
  | some (key, '=' :: rest) => some (key, skipSpace rest)
  | _ => none

/-! ## §4. Values. -/

mutual
/-- A value. -/
def value? : Nat → List Char → Option (Value × List Char)
  | 0, _ => none
  | limit + 1, cs =>
    match cs with
    | '[' :: rest => (items? limit [] rest).map fun (vs, rest) => (.array vs, rest)
    | '\x7b' :: rest => (entries? limit [] rest).map fun (es, rest) => (.table es, rest)
    | '+' :: rest => signed? '+' rest
    | '-' :: rest => signed? '-' rest
    | 't' :: 'r' :: 'u' :: 'e' :: rest => some (.boolean true, rest)
    | 'f' :: 'a' :: 'l' :: 's' :: 'e' :: rest => some (.boolean false, rest)
    | 'i' :: 'n' :: 'f' :: rest => some (.float, rest)
    | 'n' :: 'a' :: 'n' :: rest => some (.float, rest)
    | c :: _ =>
      if isDigitOf 10 c then numberOrDate? cs
      else (text? (limit + 1) cs).map fun (s, rest) => (.string s, rest)
    | [] => none
/-- The items of an array up to its closing bracket, behind those already
read. -/
def items? : Nat → List Value → List Char → Option (List Value × List Char)
  | 0, _, _ => none
  | limit + 1, done, cs =>
    match skipLines (limit + 1) cs with
    | ']' :: rest => some (done.reverse, rest)
    | cs =>
      match value? limit cs with
      | none => none
      | some (v, rest) =>
        match skipLines (limit + 1) rest with
        | ',' :: rest => items? limit (v :: done) rest
        | ']' :: rest => some ((v :: done).reverse, rest)
        | _ => none
/-- The entries of an inline table up to its closing brace, behind those
already read. -/
def entries? : Nat → List (Key × Value) → List Char → Option (List (Key × Value) × List Char)
  | 0, _, _ => none
  | limit + 1, done, cs =>
    match skipLines (limit + 1) cs with
    | '\x7d' :: rest => some (done.reverse, rest)
    | cs =>
      match keyAndEquals? limit cs with
      | none => none
      | some (k, rest) =>
        match value? limit rest with
        | none => none
        | some (v, rest) =>
          match skipLines (limit + 1) rest with
          | ',' :: rest => entries? limit ((k, v) :: done) rest
          | '\x7d' :: rest => some (((k, v) :: done).reverse, rest)
          | _ => none
end

/-! ## §5. Statements. -/

/-- A key between brackets, behind the opening ones. -/
def header? (limit : Nat) (close : List Char) (cs : List Char) : Option (Key × List Char) :=
  match key? limit (skipSpace cs) with
  | none => none
  | some (key, rest) =>
    if rest.take close.length = close then some (key, rest.drop close.length) else none

/-- One statement. -/
def statement? (limit : Nat) (cs : List Char) : Option (Statement × List Char) :=
  match cs with
  | '[' :: '[' :: rest =>
    (header? limit [']', ']'] rest).map fun (k, rest) => (.arrayHeader k, rest)
  | '[' :: rest => (header? limit [']'] rest).map fun (k, rest) => (.header k, rest)
  | _ =>
    match keyAndEquals? limit cs with
    | none => none
    | some (k, rest) => (value? limit rest).map fun (v, rest) => (.entry k v, rest)

/-- The statements of a text, each on lines of its own, behind those already
read. -/
def statements? : Nat → List Statement → List Char → Option (List Statement)
  | 0, _, _ => none
  | limit + 1, done, cs =>
    match skipLines (limit + 1) cs with
    | [] => some done.reverse
    | cs =>
      match statement? (limit + 1) cs with
      | none => none
      | some (s, rest) =>
        match skipComment (skipSpace rest) with
        | [] => some (s :: done).reverse
        | c :: rest => if isLineEnd c then statements? limit (s :: done) rest else none

/-- Whether a text has only characters that TOML allows: no control
characters but tabs and line ends, and no carriage return by itself. -/
def charactersFit : List Char → Bool
  | [] => true
  | '\r' :: cs => cs.head? == some '\n' && charactersFit cs
  | c :: cs =>
    (c == '\t' || c == '\n' || (0x20 ≤ c.toNat && c.toNat != 0x7F)) && charactersFit cs

/-- The bytes behind a byte order mark, of UTF-8 or of UTF-16. -/
def skipMark : Bytes → Bytes
  | 0xEF :: 0xBB :: 0xBF :: bs => bs
  | 0xFF :: 0xFE :: bs => bs
  | 0xFE :: 0xFF :: bs => bs
  | bs => bs

/-- The statements of a TOML file. -/
def read? (file : Bytes) : Option (List Statement) :=
  match Text.decode? (skipMark file) with
  | none => none
  | some cs => if charactersFit cs then statements? (cs.length + 1) [] cs else none

end Tetraglyph.Toml
