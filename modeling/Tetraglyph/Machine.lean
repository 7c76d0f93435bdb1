/-
  Tetraglyph.Machine
  ──────────────────
  **THE MACHINE.**

  A machine runs a linked program: it executes the instruction at `pc`,
  which works on the stack, the input tokens and the output, and moves on.
  A brace jumps to its partner, which then looks at the top of the stack
  itself.  Execute takes four values, builds the instruction that they spell
  and splices it in behind itself, so the program grows while it runs.

  A machine stops in three ways.  It HALTS when there is no next
  instruction.  It FAULTS when an instruction cannot be executed; then `pc`
  stays where it is.  It BREAKS when there is no instruction at `pc`, or one
  of no known kind, which no linked program leads to.  A machine that has
  stopped does nothing any more.

      step       — one instruction
      run        — up to so many instructions, and how many there were
      runToHalt  — until it stops, in batches
-/
import Tetraglyph.Stack
import Tetraglyph.Pattern
import Tetraglyph.Program.Instr
import Tetraglyph.Tokens
import Tetraglyph.Sink

namespace Tetraglyph

/-! ## §1. Machines. -/

/-- A program under way. -/
structure Machine where
  /-- The program, which grows. -/
  program : Program
  /-- The index of the next instruction. -/
  pc : Int
  /-- The values. -/
  stack : Stack
  /-- The number of instructions executed. -/
  steps : UInt64
  /-- The base in which numbers are read and written. -/
  base : Base
  /-- The input. -/
  input : Tokens
  /-- The output. -/
  output : Sink
  /-- What stopped the machine, if something did. -/
  fault : Option Failure
  /-- What broke the machine, if something did. -/
  broken : Option Misuse

namespace Machine

/-- A machine at the start of a program.  Base 0 stands for base 10. -/
def new (program : Program) (base : Int) (input : Tokens) (output : Sink) :
    Except Misuse Machine :=
  match Base.ofInt? (if base = 0 then 10 else base) with
  | none => .error (.machineBase base)
  | some b =>
    .ok ⟨program, if program.isEmpty then halt else 0, Stack.new, 0, b, input, output, none, none⟩

/-- Whether the end of the program was reached. -/
def halted (m : Machine) : Bool := m.pc == halt

/-- Whether there is more to execute. -/
def alive (m : Machine) : Bool := !m.halted && m.fault.isNone && m.broken.isNone

/-- The machine stopped by a failure. -/
def fail (m : Machine) (f : Failure) : Machine := { m with fault := some f }

/-- The machine broken by a program that is none. -/
def breakDown (m : Machine) (e : Misuse) : Machine := { m with broken := some e }

/-- Pushes a value from outside. -/
def push (m : Machine) (v : Numeral) : Machine := { m with stack := m.stack.push v }

/-! ## §2. Single instructions. -/

/-- Goes on at an index with the stack that an operation left, or stops. -/
def onStack (m : Machine) (next : Int) (r : Except Failure Stack) : Machine :=
  match r with
  | .ok stack => { m with stack, pc := next }
  | .error f => m.fail f

/-- Reads a token and pushes the number it denotes. -/
def readInput (m : Machine) (next : Int) : Machine :=
  match m.input.next with
  | (.error f, input) => { m with input }.fail (.faultFrom .inputNotValidInteger m.pc f)
  | (.ok token, input) =>
    match Numeral.ofText m.base token with
    | .error f => { m with input }.fail (.faultFrom .inputNotValidInteger m.pc f)
    | .ok v => { m with input, stack := m.stack.push v, pc := next }

/-- Takes the top and writes it on a line of its own. -/
def writeOutput (m : Machine) (next : Int) : Machine :=
  match m.stack.take m.pc with
  | .error f => m.fail f
  | .ok (v, stack) =>
    match m.output.write (v.format m.base ++ "\n") with
    | .error f => { m with stack }.fail (.within "writing output: " f "")
    | .ok output => { m with stack, output, pc := next }

/-- A brace: goes to its partner if the test holds of the top. -/
def brace (m : Machine) (ix : Instr) (test : Numeral → Bool) : Machine :=
  match m.stack.top m.pc with
  | .error f => m.fail f
  | .ok v => { m with pc := if test v then ix.jump else ix.next }

/-- The kind which values spell, the first of them taken first. -/
def spelled (vs : List Numeral) : Kind := (patternOf Numeral.equal (Quad.ofList vs)).kind

/-- Values in a message. -/
def showValues (vs : List Numeral) : String := "[" ++ " ".intercalate (vs.map Numeral.text) ++ "]"

/-- Puts an instruction behind the one at index `id`: it goes to the end of
the program, and its successor is that of the one before it. -/
def splice (p : Program) (id : Nat) (ix : Instr) (kind : Kind) : Program :=
  let new : Instr := ⟨kind, p.size, ix.next, ix.next, ix.parent⟩
  (p.push new).setIfInBounds id { ix with next := (p.size : Int) }

/-- Takes four values, builds the instruction that they spell and splices it
in. -/
def execute (m : Machine) (ix : Instr) : Machine :=
  match m.stack.takeMany m.pc 4 with
  | .error f => m.fail f
  | .ok (vs, stack) =>
    let kind := spelled vs
    if kind.isBrace then
      { m with stack }.fail
        (.faultFrom .invalidExecute m.pc
          (.plain s!"values {showValues vs} decode to {kind.name}"))
    else
      { m with
        stack
        program := splice m.program m.pc.toNat ix kind
        pc := (m.program.size : Int) }

/-- Executes the instruction at `pc`. -/
def step (m : Machine) : Machine :=
  match m.program.fetch? m.pc with
  | none => m.breakDown .outOfRange
  | some ix =>
    match ix.kind with
    | .nop => { m with pc := ix.next }
    | .input => m.readInput ix.next
    | .rot => m.onStack ix.next (m.stack.rotate m.pc)
    | .swap => m.onStack ix.next (m.stack.swap m.pc)
    | .push => { m with stack := m.stack.pushOne, pc := ix.next }
    | .rrot => m.onStack ix.next (m.stack.reverseRotate m.pc)
    | .dup => m.onStack ix.next (m.stack.dup m.pc)
    | .add => m.onStack ix.next (m.stack.add m.pc)
    | .output => m.writeOutput ix.next
    | .multiply => m.onStack ix.next (m.stack.multiply m.pc)
    | .negate => m.onStack ix.next (m.stack.negate m.pc)
    | .pop => m.onStack ix.next (m.stack.pop m.pc)
    | .lbrace => m.brace ix Numeral.isZero
    | .rbrace => m.brace ix fun v => !v.isZero
    | .execute => m.execute ix
    | .unknown _ => m.breakDown (.unknownInstruction ix.listing)

/-! ## §3. Runs. -/

/-- Executes up to `n` instructions behind `done` others, and counts them. -/
def stepMany : Nat → Nat → Machine → Nat × Machine
  | 0, done, m => (done, m)
  | n + 1, done, m => if m.alive then stepMany n (done + 1) m.step else (done, m)

/-- Executes up to `n` instructions: how many there were, and the machine
after them. -/
def run (m : Machine) (n : Nat) : Nat × Machine :=
  let (done, m) := stepMany n 0 m
  (done, { m with steps := m.steps + UInt64.ofNat done })

/-- How many instructions are executed between two looks at whether the work
was called off. -/
def batchSize : Nat := 0x100000

/-- Runs a machine until it stops or the work is called off: the failure, if
any, and the machine.  `done` is the error that the work was called off with,
if it was.  Gives `none` after `limit` batches. -/
def runToHalt (done : Option Failure) : Nat → Machine → Option (Option Failure × Machine)
  | 0, _ => none
  | limit + 1, m =>
    if m.alive then
      match done with
      | some f => some (some f, m)
      | none => runToHalt done limit (m.run batchSize).2
    else some (m.fault, m)

end Machine

end Tetraglyph
