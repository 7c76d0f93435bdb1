/-
  Tetraglyph.Failure
  ──────────────────
  **WHY LOADING, RUNNING OR CONFIGURING FAILED.**

  A failure is a CHAIN: an outermost error, its cause, the cause of that,
  and so on.  Five shapes make up a chain:

      syntactic   — a program cannot be loaded; ends a chain
      fault       — a running program stopped, with or without a cause
      argument    — the configuration or the command line is wrong
      within      — a cause inside some more text
      plain       — any other text; ends a chain
      known       — one of six fixed errors; ends a chain

  The wording of everything is in `message`.  `exitCode` and `kind?` look
  for the first error of a shape anywhere in the chain, so they do not see
  how deep it is wrapped.
-/

namespace Tetraglyph

/-! ## §1. Error kinds. -/

/-- Why a program cannot be loaded, or stopped while running. -/
inductive ErrorKind where
  | codeLengthInvalid
  | openingBraceExpected
  | closingBraceExpected
  | emptyStack
  | insufficientStackSize
  | inputNotValidInteger
  | divisionByZero
  | invalidExecute
  /-- A number without a meaning. -/
  | unknown (code : UInt8)
  deriving Repr, DecidableEq

namespace ErrorKind

/-- The kind with the given number. -/
def ofCode (code : UInt8) : ErrorKind :=
  match code.toNat with
  | 1 => .codeLengthInvalid
  | 2 => .openingBraceExpected
  | 3 => .closingBraceExpected
  | 4 => .emptyStack
  | 5 => .insufficientStackSize
  | 6 => .inputNotValidInteger
  | 7 => .divisionByZero
  | 8 => .invalidExecute
  | _ => .unknown code

/-- Whether it belongs to loading. -/
def isSyntactic : ErrorKind → Bool
  | .codeLengthInvalid | .openingBraceExpected | .closingBraceExpected => true
  | _ => false

/-- Whether it belongs to running. -/
def isFault : ErrorKind → Bool
  | .emptyStack | .insufficientStackSize | .inputNotValidInteger | .divisionByZero
  | .invalidExecute => true
  | _ => false

/-- The name of a kind. -/
def name : ErrorKind → String
  | .codeLengthInvalid => "CodeLengthInvalid"
  | .openingBraceExpected => "OpeningBraceExpected"
  | .closingBraceExpected => "ClosingBraceExpected"
  | .emptyStack => "EmptyStack"
  | .insufficientStackSize => "InsufficientStackSize"
  | .inputNotValidInteger => "InputNotValidInteger"
  | .divisionByZero => "DivisionByZero"
  | .invalidExecute => "InvalidExecute"
  | .unknown code => s!"ErrorKind({code})"

/-- What a kind says in a message. -/
def message : ErrorKind → String
  | .codeLengthInvalid =>
    "invalid instruction (the number of symbols in the source code should be divisible by 4)"
  | .openingBraceExpected => "no corresponding opening brace (L-brace)"
  | .closingBraceExpected => "expected a closing brace (R-brace)"
  | .emptyStack => "expected at least an element on the stack, but it was empty"
  | .insufficientStackSize => "not enough elements on the stack"
  | .inputNotValidInteger => "the value provided was not an integer in the selected base"
  | .divisionByZero => "invalid arithmetic operation, division by 0"
  | .invalidExecute => "execute produced a brace"
  | .unknown code => s!"ErrorKind({code})"

end ErrorKind

/-! ## §2. Chains. -/

/-- The errors that are told apart by identity, not by their text. -/
inductive KnownError where
  /-- A text is no decimal literal. -/
  | notDecimal
  /-- Division by zero. -/
  | divisionByZero
  /-- A text is no number in the base it should be in. -/
  | invalidDigits
  /-- A program was still running after its last allowed step. -/
  | stepLimit
  /-- The work was called off. -/
  | cancelled
  /-- There is no more input. -/
  | endOfInput
  deriving Repr, DecidableEq

/-- The text of a known error. -/
def KnownError.message : KnownError → String
  | .notDecimal => "glyint: not a decimal integer literal"
  | .divisionByZero => "glyint: division by zero"
  | .invalidDigits => "glyint: invalid digits for base"
  | .stepLimit => "step limit reached"
  | .cancelled => "context canceled"
  | .endOfInput => "EOF"

/-- A chain of errors, the outermost first. -/
inductive Failure where
  /-- A program cannot be loaded; `id` is the offending instruction, and
  negative if there is none. -/
  | syntactic (kind : ErrorKind) (id : Int)
  /-- The instruction `id` of a running program could not be executed. -/
  | fault (kind : ErrorKind) (id : Int)
  /-- The same, because of `cause`. -/
  | faultFrom (kind : ErrorKind) (id : Int) (cause : Failure)
  /-- The argument `name` is wrong, for no stated reason. -/
  | argument (name : String)
  /-- The argument `name` is wrong because of `cause`. -/
  | argumentFrom (name : String) (cause : Failure)
  /-- `cause` with more text before and after it. -/
  | within (before : String) (cause : Failure) (after : String)
  /-- A text. -/
  | plain (text : String)
  /-- A known error. -/
  | known (error : KnownError)
  deriving Repr, DecidableEq

namespace Failure

/-- The whole text of a failure. -/
def message : Failure → String
  | .syntactic kind id =>
    if id < 0 then s!"SyntaxError: {kind.message}"
    else s!"SyntaxError: {kind.message} (instruction {id})"
  | .fault kind id => s!"RuntimeException: {kind.message} (instruction {id})"
  | .faultFrom kind id cause =>
    s!"RuntimeException: {kind.message} (instruction {id}): " ++ cause.message
  | .argument name => s!"ArgumentError: {name}: <nil>"
  | .argumentFrom name cause => s!"ArgumentError: {name}: " ++ cause.message
  | .within before cause after => before ++ cause.message ++ after
  | .plain text => text
  | .known error => error.message

/-- What the outermost error was caused by. -/
def cause? : Failure → Option Failure
  | .faultFrom _ _ cause | .argumentFrom _ cause | .within _ cause _ => some cause
  | _ => none

/-- The outermost error, its cause, the cause of that, and so on. -/
def chain : Failure → List Failure
  | f@(.faultFrom _ _ cause) => f :: cause.chain
  | f@(.argumentFrom _ cause) => f :: cause.chain
  | f@(.within _ cause _) => f :: cause.chain
  | f => [f]

/-! ## §3. Searching a chain. -/

/-- The argument which this very error is about. -/
def argument? : Failure → Option String
  | .argument name | .argumentFrom name _ => some name
  | _ => none

/-- Kind and instruction, if this very error is about loading. -/
def syntactic? : Failure → Option (ErrorKind × Int)
  | .syntactic kind id => some (kind, id)
  | _ => none

/-- Kind and instruction, if this very error is a fault. -/
def fault? : Failure → Option (ErrorKind × Int)
  | .fault kind id | .faultFrom kind id _ => some (kind, id)
  | _ => none

/-- The known error, if this very error is one. -/
def known? : Failure → Option KnownError
  | .known error => some error
  | _ => none

/-- The kind of the loading error in the chain, else of the outermost
fault. -/
def kind? (f : Failure) : Option ErrorKind :=
  match f.chain.findSome? syntactic? with
  | some (kind, _) => some kind
  | none => (f.chain.findSome? fault?).map Prod.fst

/-- Whether a failure is of kind `k`. -/
def isKind (f : Failure) (k : ErrorKind) : Bool := f.kind? == some k

/-- Whether a known error is in the chain. -/
def isKnown (f : Failure) (e : KnownError) : Bool :=
  (f.chain.findSome? known?) == some e

/-- The exit status for a result: nothing failed, an argument, loading, a
fault, anything else. -/
def exitCode : Option Failure → Nat
  | none => 0
  | some f =>
    if (f.chain.findSome? argument?).isSome then 2
    else if (f.chain.findSome? syntactic?).isSome then 3
    else if (f.chain.findSome? fault?).isSome then 4
    else 1

end Failure

end Tetraglyph
