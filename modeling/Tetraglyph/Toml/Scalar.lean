/-
  Tetraglyph.Toml.Scalar
  ──────────────────────
  **NUMBERS AND DATES IN TOML.**

  A number or a date is first cut out of the text by the characters it may
  consist of, and then checked as a whole.  Underscores may stand between
  digits, decimal numbers have no leading zeros, whole numbers fit 64 bits,
  floats stay below the largest double, and dates exist in the calendar.
-/
import Tetraglyph.Toml.Value

namespace Tetraglyph.Toml

/-! ## §1. Characters of numbers. -/

/-- The value of a hexadecimal digit. -/
def hexValue? (c : Char) : Option Nat :=
  if '0' ≤ c && c ≤ '9' then some (c.toNat - 48)
  else if 'a' ≤ c && c ≤ 'f' then some (c.toNat - 87)
  else if 'A' ≤ c && c ≤ 'F' then some (c.toNat - 55)
  else none

/-- Whether a character is a digit of the base. -/
def isDigitOf (base : Nat) (c : Char) : Bool :=
  match hexValue? c with
  | some d => d < base
  | none => false

/-- The number which digits of a base denote. -/
def number (base : Nat) (cs : List Char) : Nat :=
  cs.foldl (fun n c => base * n + (hexValue? c).getD 0) 0

/-- Whether every underscore follows a digit and the text ends with one.
Letters up to F count as digits. -/
def underscoresFit (cs : List Char) : Bool :=
  go false cs
where
  /-- The same behind a digit, or behind something else. -/
  go (afterDigit : Bool) : List Char → Bool
    | [] => afterDigit
    | c :: cs => if c == '_' && !afterDigit then false else go (hexValue? c).isSome cs

/-- Whether a decimal number starts with a zero it should not have. -/
def hasLeadingZero : List Char → Bool
  | '0' :: c :: _ => !(c == 'b' || c == 'o' || c == 'x')
  | s :: '0' :: _ :: _ => s == '-' || s == '+'
  | _ => false

/-! ## §2. Whole numbers. -/

/-- The value of a whole number without underscores. -/
def integerValue : List Char → Int
  | '-' :: cs => -(number 10 cs : Int)
  | '+' :: cs => number 10 cs
  | '0' :: 'x' :: cs => number 16 cs
  | '0' :: 'o' :: cs => number 8 cs
  | '0' :: 'b' :: cs => number 2 cs
  | cs => number 10 cs

/-- A whole number, cut out of the text. -/
def integer? (token : List Char) : Option Value :=
  if underscoresFit token && !hasLeadingZero token then
    let i := integerValue (token.filter (· != '_'))
    if -0x8000000000000000 ≤ i ∧ i < 0x8000000000000000 then some (.integer i) else none
  else none

/-! ## §3. Floats. -/

/-- Whether a number is at least the least one that no double holds: halfway
from the largest double to 2^1024, given as `m · 10^e`. -/
def overflows (m : Nat) (e : Int) : Bool :=
  let bound := (1 <<< 1024) - (1 <<< 970)
  let digits : Int := (toString m).length
  if m = 0 then false
  else if digits + e > 310 then true
  else if digits + e < 300 then false
  else if 0 ≤ e then bound ≤ m * Nat.pow 10 e.toNat
  else bound * Nat.pow 10 (-e).toNat ≤ m

/-- Splits off an optional sign: whether it is a minus. -/
def splitSign : List Char → Bool × List Char
  | '-' :: cs => (true, cs)
  | '+' :: cs => (false, cs)
  | cs => (false, cs)

/-- The number of an exponent.  Once it has five digits, no more are taken:
it is then out of the range of doubles for every shorter fraction. -/
def cappedNumber (cs : List Char) : Nat :=
  cs.foldl (fun n c => if n < 10000 then 10 * n + (hexValue? c).getD 0 else n) 0

/-- The decimal exponent at the end of a float. -/
def exponent? : List Char → Option Int
  | [] => some 0
  | c :: cs =>
    let (neg, ds) := splitSign cs
    if (c == 'e' || c == 'E') && !ds.isEmpty && ds.all (isDigitOf 10) then
      some (if neg then -(cappedNumber ds : Int) else cappedNumber ds)
    else none

/-- Whether a float without underscores is well-formed and not too large. -/
def isFloat (token : List Char) : Bool :=
  let (_, body) := splitSign token
  let whole := body.takeWhile (isDigitOf 10)
  let rest := body.dropWhile (isDigitOf 10)
  let (fraction, rest) :=
    match rest with
    | '.' :: cs => (cs.takeWhile (isDigitOf 10), cs.dropWhile (isDigitOf 10))
    | _ => ([], rest)
  match exponent? rest with
  | none => false
  | some e =>
    !(whole ++ fraction).isEmpty && !overflows (number 10 (whole ++ fraction)) (e - fraction.length)

/-- Whether every period is followed by a digit. -/
def periodsFit : List Char → Bool
  | [] => true
  | ['.'] => false
  | '.' :: c :: cs => isDigitOf 10 c && periodsFit (c :: cs)
  | _ :: cs => periodsFit cs

/-- The parts of a float between periods and exponent letters. -/
def floatParts (token : List Char) : List (List Char) :=
  (token.splitBy fun a b => !isMark a && !isMark b).filter fun p => !p.all isMark
where
  /-- What divides the parts. -/
  isMark (c : Char) : Bool := c == '.' || c == 'e' || c == 'E'

/-- A float, cut out of the text. -/
def float? (token : List Char) : Option Value :=
  let parts := floatParts token
  if parts.all underscoresFit && !hasLeadingZero (parts.headD []) && periodsFit token &&
      isFloat (token.filter (· != '_')) then
    some .float
  else none

/-! ## §4. Dates and times. -/

/-- Reads `n` digits. -/
def digits? (n : Nat) (cs : List Char) : Option (Nat × List Char) :=
  let ds := cs.take n
  if ds.length = n && ds.all (isDigitOf 10) then some (number 10 ds, cs.drop n) else none

/-- Reads one given character. -/
def char? (c : Char) : List Char → Option (List Char)
  | d :: cs => if c == d then some cs else none
  | [] => none

/-- The number of days in a month. -/
def daysIn (year month : Nat) : Nat :=
  if month = 2 then
    if year % 4 = 0 ∧ (year % 100 ≠ 0 ∨ year % 400 = 0) then 29 else 28
  else if month = 4 ∨ month = 6 ∨ month = 9 ∨ month = 11 then 30
  else 31

/-- Reads a date and gives what follows it. -/
def date? (cs : List Char) : Option (List Char) := do
  let (year, cs) ← digits? 4 cs
  let cs ← char? '-' cs
  let (month, cs) ← digits? 2 cs
  let cs ← char? '-' cs
  let (day, cs) ← digits? 2 cs
  if 1 ≤ month ∧ month ≤ 12 ∧ 1 ≤ day ∧ day ≤ daysIn year month then some cs else none

/-- Reads a fraction of a second, which may be missing. -/
def fraction? : List Char → Option (List Char)
  | '.' :: c :: cs => if isDigitOf 10 c then some (cs.dropWhile (isDigitOf 10)) else none
  | cs => some cs

/-- Reads a time, with or without seconds. -/
def time? (cs : List Char) : Option (List Char) := do
  let (hour, cs) ← digits? 2 cs
  let cs ← char? ':' cs
  let (minute, cs) ← digits? 2 cs
  if 24 ≤ hour ∨ 60 ≤ minute then none
  else
    match cs with
    | ':' :: cs =>
      let (second, cs) ← digits? 2 cs
      if 60 ≤ second then none else fraction? cs
    | cs => some cs

/-- Whether the rest of a time is nothing or a zone. -/
def isZone : List Char → Bool
  | [] => true
  | ['Z'] => true
  | s :: cs =>
    (s == '+' || s == '-') &&
      match (do
        let (hour, cs) ← digits? 2 cs
        let cs ← char? ':' cs
        let (minute, cs) ← digits? 2 cs
        return (hour, minute, cs) : Option (Nat × Nat × List Char)) with
      | some (hour, minute, []) => hour ≤ 24 && minute ≤ 60
      | _ => false

/-- Whether a text is a date, a time, or a date and a time, the last one
with a zone or without. -/
def isDatetime (cs : List Char) : Bool :=
  match date? cs with
  | some [] => true
  | some ('T' :: rest) =>
    match time? rest with
    | some rest => isZone rest
    | none => false
  | some _ => false
  | none => time? cs == some []

/-- A date or time, cut out of the text. -/
def datetime? (token : List Char) : Option Value :=
  let trimmed := (token.reverse.dropWhile (· == ' ')).reverse
  let normal := trimmed.map fun c => if c == 't' || c == ' ' then 'T' else if c == 'z' then 'Z' else c
  if isDatetime normal then some .datetime else none

/-! ## §5. Cutting out a number or a date. -/

/-- Whether a character may stand in a date or time. -/
def isDatetimeChar (c : Char) : Bool := isDigitOf 10 c || "-:Tt .Zz+".toList.contains c

/-- Whether a character may stand in a float. -/
def isFloatChar (c : Char) : Bool := isDigitOf 10 c || "_.-+eE".toList.contains c

/-- Whether a character may stand in a decimal whole number. -/
def isDecimalChar (c : Char) : Bool := isDigitOf 10 c || c == '_'

/-- Cuts a value out of the front of a text by its characters. -/
def cut (p : Char → Bool) (make : List Char → Option Value) (cs : List Char) :
    Option (Value × List Char) :=
  (make (cs.takeWhile p)).map fun v => (v, cs.dropWhile p)

/-- A decimal number behind `sign`: a float if a period or an exponent
follows its first digits. -/
def decimal? (sign cs : List Char) : Option (Value × List Char) :=
  let afterDigits := cs.dropWhile isDecimalChar
  match afterDigits with
  | '.' :: _ | 'e' :: _ | 'E' :: _ => cut isFloatChar (fun t => float? (sign ++ t)) cs
  | _ => cut isDecimalChar (fun t => integer? (sign ++ t)) cs

/-- A whole number in another base, behind the two characters for it. -/
def based? (base : Nat) (mark : List Char) (cs : List Char) : Option (Value × List Char) :=
  match cs with
  | c :: _ =>
    if isDigitOf base c then
      cut (fun c => isDigitOf base c || c == '_') (fun t => integer? (mark ++ t)) cs
    else none
  | [] => none

/-- A number or a date at the front of a text which starts with a digit. -/
def numberOrDate? (cs : List Char) : Option (Value × List Char) :=
  match cs with
  | '0' :: 'x' :: rest => based? 16 ['0', 'x'] rest
  | '0' :: 'o' :: rest => based? 8 ['0', 'o'] rest
  | '0' :: 'b' :: rest => based? 2 ['0', 'b'] rest
  | _ =>
    match cs.dropWhile (isDigitOf 10) with
    | '-' :: _ | ':' :: _ => cut isDatetimeChar datetime? cs
    | _ => decimal? [] cs

/-- A number at the front of a text, behind its sign. -/
def signed? (sign : Char) (cs : List Char) : Option (Value × List Char) :=
  match cs with
  | 'i' :: 'n' :: 'f' :: rest => some (.float, rest)
  | 'n' :: 'a' :: 'n' :: rest => some (.float, rest)
  | '0' :: 'b' :: _ | '0' :: 'o' :: _ | '0' :: 'x' :: _ => none
  | c :: _ => if isDigitOf 10 c then decimal? [sign] cs else none
  | [] => none

end Tetraglyph.Toml
