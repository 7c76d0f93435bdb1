/-
  Tetraglyph.Proofs.Machine.TwoBases
  ──────────────────────────────────
  **THE BASE IS A WAY OF WRITING AND NOTHING ELSE.**

  Two machines run one program, each in a base of its own, on inputs that
  spell the same numbers.  They hold the same integers all the time, so they
  take the same ways, splice in the same instructions and stop together; and
  they write the same integers.  Where one fails so does the other, at the
  same instruction and for a reason of the same kind.  Only a write that an
  output refuses can part them.

  The proof is on machines over integers.  Two of them are TWINS as long as
  they differ in their bases only; a step keeps them twins, and so does a
  run.

      SameNumber      — two words denote one integer, or none does
      Ideal.Twins     — two machines over integers that differ in the base
      Machine.Alike   — what can be seen of this on two machines

  Main results

      step_twins        — a step keeps machines twins
      stepMany_twins    — so does a run, and both are of one length
      run_alike         — every run of two machines in two bases
-/
import Tetraglyph.Proofs.Machine.Ideal
import Tetraglyph.Proofs.Numeral.RoundTrip
import Tetraglyph.Proofs.Tokens

namespace Tetraglyph

/-! ## §1. Words and lines that denote integers. -/

/-- Two words, each in its base, denote one integer, or neither denotes any. -/
def SameNumber (b₁ b₂ : Base) (w₁ w₂ : Bytes) : Prop :=
  match Numeral.ofTextIn b₁.size w₁, Numeral.ofTextIn b₂.size w₂ with
  | .ok x, .ok y => x.equal y = true
  | .error _, .error _ => True
  | _, _ => False

/-- A line with nothing on it but a word for an integer. -/
def LineOf (b : Base) (line : String) (i : Int) : Prop :=
  ∃ w x, line = w ++ "\n" ∧ Numeral.ofTextIn b.size (Bytes.ofText w) = .ok x ∧ x.toInt = i

theorem sameNumber_iff (b₁ b₂ : Base) (w₁ w₂ : Bytes) :
    SameNumber b₁ b₂ w₁ w₂ ↔ b₁.integer? w₁ = b₂.integer? w₂ := by
  have h₁ := Numeral.ofText_eq b₁ w₁
  have h₂ := Numeral.ofText_eq b₂ w₂
  unfold SameNumber
  rw [Numeral.ofTextIn_size, Numeral.ofTextIn_size]
  -- a word is read as the integer it denotes, or refused, in each base
  cases hi : b₁.integer? w₁ <;> cases hj : b₂.integer? w₂ <;> rw [hi] at h₁ <;> rw [hj] at h₂
  case none.none =>
    rw [show Numeral.ofText b₁ w₁ = _ from h₁, show Numeral.ofText b₂ w₂ = _ from h₂]
    exact iff_of_true trivial rfl
  case none.some j =>
    obtain ⟨y, hy, -⟩ := h₂
    rw [show Numeral.ofText b₁ w₁ = _ from h₁, hy]
    exact iff_of_false id (by simp)
  case some.none i =>
    obtain ⟨x, hx, -⟩ := h₁
    rw [show Numeral.ofText b₂ w₂ = _ from h₂, hx]
    exact iff_of_false id (by simp)
  case some.some i j =>
    obtain ⟨x, hx, hxcan, rfl⟩ := h₁
    obtain ⟨y, hy, hycan, rfl⟩ := h₂
    rw [hx, hy]
    show x.equal y = true ↔ _
    rw [Numeral.equal_eq hxcan.wellFormed hycan.wellFormed, decide_eq_true_iff, Option.some_inj]

/-- The line on which an integer is written. -/
def Base.line (b : Base) (i : Int) : String := b.numeral i ++ "\n"

theorem Base.lineOf_line (b : Base) (i : Int) : LineOf b (b.line i) i := by
  have hread := Numeral.ofText_eq b (Bytes.ofText (b.numeral i))
  rw [b.integer?_numeral] at hread
  obtain ⟨x, hx, -, hint⟩ := hread
  exact ⟨b.numeral i, x, rfl, by rw [Numeral.ofTextIn_size, hx], hint⟩

/-- What stopped one machine is of the same kind as what stopped another, and
at the same instruction; or neither was stopped. -/
def SameFault : Option Failure → Option Failure → Prop
  | none, none => True
  | some f₁, some f₂ => ∃ kind id, f₁.fault? = some (kind, id) ∧ f₂.fault? = some (kind, id)
  | _, _ => False

theorem SameFault.isNone_eq {f₁ f₂ : Option Failure} (h : SameFault f₁ f₂) :
    f₁.isNone = f₂.isNone := by
  cases f₁ <;> cases f₂
  case none.none => rfl
  case some.some => rfl
  all_goals exact h.elim

/-- A machine was stopped because its output refused a text. -/
def Unwritten (fault : Option Failure) : Prop :=
  ∃ cause, fault = some (.within "writing output: " cause "")

namespace Ideal

/-! ## §2. Twins. -/

/-- Two machines over integers that differ only in the base they write in.
The first began with the output `o₁` and the second with `o₂`. -/
structure Twins (b₁ b₂ : Base) (o₁ o₂ : Sink) (m₁ m₂ : Ideal) : Prop where
  base₁ : m₁.base = b₁
  base₂ : m₂.base = b₂
  program : m₁.program = m₂.program
  pc : m₁.pc = m₂.pc
  stack : m₁.stack = m₂.stack
  fault : SameFault m₁.fault m₂.fault
  broken : m₁.broken = m₂.broken
  /-- The words to come denote the same integers.  A machine that has failed
  reads no more of them. -/
  input : m₁.fault = none →
    List.Forall₂ (fun w₁ w₂ => b₁.integer? w₁ = b₂.integer? w₂) m₁.input.drain.1 m₂.input.drain.1
  /-- They wrote the same integers. -/
  output : ∃ xs : List Int, (xs.map b₁.line).foldlM Sink.write o₁ = .ok m₁.output ∧
    (xs.map b₂.line).foldlM Sink.write o₂ = .ok m₂.output

section

variable {b₁ b₂ : Base} {o₁ o₂ : Sink} {m₁ m₂ : Ideal}

theorem Twins.alive_eq (h : Twins b₁ b₂ o₁ o₂ m₁ m₂) : m₁.alive = m₂.alive := by
  unfold alive
  rw [h.pc, h.fault.isNone_eq, h.broken]

/-- What twins do not share. -/
theorem Twins.exists_eq (h : Twins b₁ b₂ o₁ o₂ m₁ m₂) :
    ∃ steps input output fault, m₂ = { m₁ with steps, base := b₂, input, output, fault } := by
  refine ⟨m₂.steps, m₂.input, m₂.output, m₂.fault, ?_⟩
  rw [h.program, h.pc, h.stack, h.broken, ← h.base₂]

/-- Twins stop together, whatever they read last. -/
theorem Twins.stop (h : Twins b₁ b₂ o₁ o₂ m₁ m₂) (t₁ t₂ : Tokens) {f₁ f₂ : Failure}
    (hf : SameFault (some f₁) (some f₂)) :
    Twins b₁ b₂ o₁ o₂ ({ m₁ with input := t₁ }.fail f₁) ({ m₂ with input := t₂ }.fail f₂) :=
  { h with
    fault := hf
    input := fun hnone => absurd hnone (by simp [fail]) }

theorem Twins.fail (h : Twins b₁ b₂ o₁ o₂ m₁ m₂) {f₁ f₂ : Failure}
    (hf : SameFault (some f₁) (some f₂)) :
    Twins b₁ b₂ o₁ o₂ (m₁.fail f₁) (m₂.fail f₂) :=
  h.stop m₁.input m₂.input hf

/-- Twins take the same values off, or put the same ones on. -/
theorem Twins.hold (h : Twins b₁ b₂ o₁ o₂ m₁ m₂) (stack : List Int) :
    Twins b₁ b₂ o₁ o₂ { m₁ with stack } { m₂ with stack } :=
  { h with stack := rfl }

theorem Twins.goTo (h : Twins b₁ b₂ o₁ o₂ m₁ m₂) (pc : Int) :
    Twins b₁ b₂ o₁ o₂ { m₁ with pc } { m₂ with pc } :=
  { h with pc := rfl }

/-! ## §3. One step. -/

theorem onStack_twins (h : Twins b₁ b₂ o₁ o₂ m₁ m₂) (k : Kind) (next : Int) :
    Twins b₁ b₂ o₁ o₂ (m₁.onStack k next (operate k m₁.stack))
      (m₂.onStack k next (operate k m₂.stack)) := by
  rw [← h.stack]
  cases operate k m₁.stack with
  | none => exact h.fail ⟨_, _, rfl, by rw [h.pc]; rfl⟩
  | some stack => exact (h.hold stack).goTo next

theorem brace_twins (h : Twins b₁ b₂ o₁ o₂ m₁ m₂) (zero nonzero : Int) :
    Twins b₁ b₂ o₁ o₂ (m₁.brace zero nonzero) (m₂.brace zero nonzero) := by
  obtain ⟨steps, input, output, fault, rfl⟩ := h.exists_eq
  unfold brace
  dsimp only
  split
  next => exact h.fail ⟨_, _, rfl, rfl⟩
  next => exact h.goTo _

theorem execute_twins (h : Twins b₁ b₂ o₁ o₂ m₁ m₂) (ix : Instr) :
    Twins b₁ b₂ o₁ o₂ (m₁.execute ix) (m₂.execute ix) := by
  obtain ⟨steps, input, output, fault, rfl⟩ := h.exists_eq
  unfold execute
  dsimp only
  split
  next a b c d stack _ =>
      split
      next => exact (h.hold stack).fail ⟨_, _, rfl, rfl⟩
      next => exact { h with program := rfl, pc := rfl, stack := rfl }
  next => exact h.fail ⟨_, _, rfl, rfl⟩

/-- The inputs end together; and the words that come first are read as one
integer, or both are refused. -/
theorem readInput_twins (h : Twins b₁ b₂ o₁ o₂ m₁ m₂) (hfault : m₁.fault = none) (next : Int) :
    Twins b₁ b₂ o₁ o₂ (m₁.readInput next) (m₂.readInput next) := by
  have hinput := h.input hfault
  obtain rfl := h.base₁
  obtain ⟨steps, input, output, fault, rfl⟩ := h.exists_eq
  unfold readInput
  dsimp only at hinput ⊢
  rcases hnext₁ : m₁.input.next with ⟨f₁ | w₁, t₁⟩ <;>
    rcases hnext₂ : input.next with ⟨f₂ | w₂, t₂⟩
  · exact h.stop t₁ t₂ ⟨_, _, rfl, rfl⟩
  -- neither stream has a word more than the other
  · rw [Tokens.drain_error hnext₁, Tokens.drain_ok hnext₂] at hinput
    cases hinput
  · rw [Tokens.drain_ok hnext₁, Tokens.drain_error hnext₂] at hinput
    cases hinput
  · rw [Tokens.drain_ok hnext₁, Tokens.drain_ok hnext₂] at hinput
    obtain ⟨hsame, hrest⟩ := List.forall₂_cons.1 hinput
    dsimp only
    rw [← hsame]
    cases m₁.base.integer? w₁ with
    | none => exact h.stop t₁ t₂ ⟨_, _, rfl, rfl⟩
    | some i => exact { h with pc := rfl, stack := rfl, input := fun _ => hrest }

theorem writeOutput_nil {m : Ideal} (hs : m.stack = []) (next : Int) :
    m.writeOutput next = m.fail (.fault .emptyStack m.pc) := by
  unfold writeOutput
  rw [hs]

theorem writeOutput_cons {m : Ideal} {v : Int} {stack : List Int} (hs : m.stack = v :: stack)
    {next : Int} (hw : ¬ Unwritten (m.writeOutput next).fault) :
    ∃ output, m.output.write (m.base.line v) = .ok output ∧
      m.writeOutput next = { m with stack, output, pc := next } := by
  unfold writeOutput at hw ⊢
  rw [hs] at hw ⊢
  dsimp only at hw ⊢
  rcases hwrite : m.output.write (m.base.numeral v ++ "\n") with f | output
  · rw [hwrite] at hw
    exact absurd ⟨f, rfl⟩ hw
  · exact ⟨output, hwrite, rfl⟩

/-- One more line behind others. -/
theorem foldlM_write_concat {o out out' : Sink} {lines : List String} {line : String}
    (h : lines.foldlM Sink.write o = .ok out) (hline : out.write line = .ok out') :
    (lines ++ [line]).foldlM Sink.write o = .ok out' := by
  rw [List.foldlM_append, h]
  show [line].foldlM Sink.write out = _
  rw [List.foldlM_cons, hline]
  rfl

/-- Both write one integer, unless an output refuses it. -/
theorem writeOutput_twins (h : Twins b₁ b₂ o₁ o₂ m₁ m₂) (next : Int)
    (hw₁ : ¬ Unwritten (m₁.writeOutput next).fault)
    (hw₂ : ¬ Unwritten (m₂.writeOutput next).fault) :
    Twins b₁ b₂ o₁ o₂ (m₁.writeOutput next) (m₂.writeOutput next) := by
  cases hs : m₁.stack with
  | nil =>
      rw [writeOutput_nil hs, writeOutput_nil (h.stack.symm.trans hs)]
      exact h.fail ⟨_, _, rfl, by rw [h.pc]; rfl⟩
  | cons v stack =>
      obtain ⟨out₁, hline₁, heq₁⟩ := writeOutput_cons hs hw₁
      obtain ⟨out₂, hline₂, heq₂⟩ := writeOutput_cons (h.stack.symm.trans hs) hw₂
      rw [h.base₁] at hline₁
      rw [h.base₂] at hline₂
      obtain ⟨xs, hxs₁, hxs₂⟩ := h.output
      rw [heq₁, heq₂]
      refine { h with pc := rfl, stack := rfl, output := ⟨xs ++ [v], ?_, ?_⟩ }
      · rw [List.map_append]
        exact foldlM_write_concat hxs₁ hline₁
      · rw [List.map_append]
        exact foldlM_write_concat hxs₂ hline₂

/-- **A step keeps machines twins**, unless an output refuses a text. -/
theorem step_twins (h : Twins b₁ b₂ o₁ o₂ m₁ m₂) (hfault : m₁.fault = none)
    (hw₁ : ¬ Unwritten m₁.step.fault) (hw₂ : ¬ Unwritten m₂.step.fault) :
    Twins b₁ b₂ o₁ o₂ m₁.step m₂.step := by
  have hfetch : m₂.program.fetch? m₂.pc = m₁.program.fetch? m₁.pc := by rw [h.program, h.pc]
  revert hw₁ hw₂
  unfold step
  rw [hfetch]
  cases m₁.program.fetch? m₁.pc with
  | none => exact fun _ _ => { h with broken := rfl }
  | some ix =>
      dsimp only
      cases ix.kind with
      | input => exact fun _ _ => readInput_twins h hfault ix.next
      | output => exact writeOutput_twins h ix.next
      | lbrace => exact fun _ _ => brace_twins h ix.jump ix.next
      | rbrace => exact fun _ _ => brace_twins h ix.next ix.jump
      | execute => exact fun _ _ => execute_twins h ix
      | unknown code => exact fun _ _ => { h with broken := rfl }
      -- the others work on the stack alone
      | _ => exact fun _ _ => onStack_twins h _ ix.next

/-! ## §4. Every run. -/

theorem stepMany_stopped {m : Ideal} (h : m.alive = false) (n done : Nat) :
    stepMany n done m = (done, m) := by
  cases n with
  | zero => rfl
  | succ n => rw [stepMany, if_neg (by rw [h]; decide)]

/-- A text that was refused is refused for good. -/
theorem unwritten_stepMany {m : Ideal} (h : Unwritten m.fault) (n done : Nat) :
    Unwritten (stepMany n done m).2.fault := by
  obtain ⟨cause, hcause⟩ := h
  have hstopped : m.alive = false := by
    unfold alive
    rw [hcause, Option.isNone_some, Bool.and_false, Bool.false_and]
  rw [stepMany_stopped hstopped]
  exact ⟨cause, hcause⟩

theorem fault_of_alive {m : Ideal} (h : m.alive = true) : m.fault = none := by
  unfold alive at h
  simp only [Bool.and_eq_true, Option.isNone_iff_eq_none] at h
  exact h.1.2

/-- **A run keeps machines twins**, and it is as long for one as for the
other, unless an output refuses a text. -/
theorem stepMany_twins (n : Nat) :
    ∀ (done : Nat) {m₁ m₂ : Ideal}, Twins b₁ b₂ o₁ o₂ m₁ m₂ →
      ¬ Unwritten (stepMany n done m₁).2.fault → ¬ Unwritten (stepMany n done m₂).2.fault →
      (stepMany n done m₁).1 = (stepMany n done m₂).1 ∧
        Twins b₁ b₂ o₁ o₂ (stepMany n done m₁).2 (stepMany n done m₂).2 := by
  induction n with
  | zero => exact fun done m₁ m₂ h _ _ => ⟨rfl, h⟩
  | succ n ih =>
      intro done m₁ m₂ h hw₁ hw₂
      cases ha : m₁.alive with
      | false =>
          rw [stepMany_stopped ha, stepMany_stopped (h.alive_eq.symm.trans ha)]
          exact ⟨rfl, h⟩
      | true =>
          rw [stepMany, if_pos ha] at hw₁ ⊢
          rw [stepMany, if_pos (h.alive_eq.symm.trans ha)] at hw₂ ⊢
          -- a refused text would show at the end of the run
          have hstep := step_twins h (fault_of_alive ha)
            (fun hw => hw₁ (unwritten_stepMany hw n (done + 1)))
            (fun hw => hw₂ (unwritten_stepMany hw n (done + 1)))
          exact ih (done + 1) hstep hw₁ hw₂

end

end Ideal

namespace Machine

/-! ## §5. Machines in two bases. -/

/-- Two machines that can be told apart only by how they write numbers.  The
first began with the output `o₁` and the second with `o₂`. -/
structure Alike (b₁ b₂ : Base) (o₁ o₂ : Sink) (m₁ m₂ : Machine) : Prop where
  program : m₁.program = m₂.program
  pc : m₁.pc = m₂.pc
  /-- Both hold well-formed numerals, -/
  faithful : m₁.stack.Faithful ∧ m₂.stack.Faithful
  /-- and the same integers. -/
  integers : m₁.stack.integers = m₂.stack.integers
  alive : m₁.alive = m₂.alive
  fault : SameFault m₁.fault m₂.fault
  broken : m₁.broken = m₂.broken
  /-- They wrote lines for the same integers, each in its base. -/
  lines : ∃ lines₁ lines₂ xs, lines₁.foldlM Sink.write o₁ = .ok m₁.output ∧
    lines₂.foldlM Sink.write o₂ = .ok m₂.output ∧
    List.Forall₂ (LineOf b₁) lines₁ xs ∧ List.Forall₂ (LineOf b₂) lines₂ xs

theorem forall₂_lineOf (b : Base) (xs : List Int) : List.Forall₂ (LineOf b) (xs.map b.line) xs := by
  rw [List.forall₂_map_left_iff]
  exact List.forall₂_same.2 fun i _ => b.lineOf_line i

/-- Machines whose views are twins are alike. -/
theorem alike_of_twins {b₁ b₂ : Base} {o₁ o₂ : Sink} {m₁ m₂ : Machine}
    (h : Ideal.Twins b₁ b₂ o₁ o₂ m₁.view m₂.view) (h₁ : m₁.stack.Faithful)
    (h₂ : m₂.stack.Faithful) : Alike b₁ b₂ o₁ o₂ m₁ m₂ := by
  obtain ⟨xs, hxs₁, hxs₂⟩ := h.output
  exact {
    program := h.program
    pc := h.pc
    faithful := ⟨h₁, h₂⟩
    integers := h.stack
    alive := h.alive_eq
    fault := h.fault
    broken := h.broken
    lines := ⟨_, _, xs, hxs₁, hxs₂, forall₂_lineOf b₁ xs, forall₂_lineOf b₂ xs⟩ }

theorem new_size (p : Program) (b : Base) (input : Tokens) (output : Sink) :
    Machine.new p b.size input output
      = .ok ⟨p, if p.isEmpty then halt else 0, Stack.new, 0, b, input, output, none, none⟩ := by
  have hsize : (b.size : Int) ≠ 0 := by
    have := b.two_le
    omega
  unfold Machine.new
  rw [if_neg hsize, Base.ofInt?_size]

/-- Machines at the start of one program with the same integers and the same
numbers to read are twins. -/
theorem twins_new {p : Program} {b₁ b₂ : Base} {t₁ t₂ : Tokens}
    (htokens : List.Forall₂ (SameNumber b₁ b₂) t₁.drain.1 t₂.drain.1) {o₁ o₂ : Sink}
    {start₁ start₂ : Machine} (hstart₁ : Machine.new p b₁.size t₁ o₁ = .ok start₁)
    (hstart₂ : Machine.new p b₂.size t₂ o₂ = .ok start₂) {s₁ s₂ : Stack}
    (hs : s₁.integers = s₂.integers) :
    Ideal.Twins b₁ b₂ o₁ o₂ (view { start₁ with stack := s₁ })
      (view { start₂ with stack := s₂ }) := by
  obtain rfl := Except.ok.inj ((new_size p b₁ t₁ o₁).symm.trans hstart₁)
  obtain rfl := Except.ok.inj ((new_size p b₂ t₂ o₂).symm.trans hstart₂)
  exact {
    base₁ := rfl
    base₂ := rfl
    program := rfl
    pc := rfl
    stack := hs
    fault := trivial
    broken := rfl
    input := fun _ => htokens.imp fun w₁ w₂ => (sameNumber_iff b₁ b₂ w₁ w₂).1
    output := ⟨[], rfl, rfl⟩ }

/-- **The base is a way of writing and nothing else.**  Two machines are at
the start of one program, in any two bases, with stacks of the same integers
and with streams that give the same numbers, word by word, or refuse to.
Run both for any number of instructions.  If no output has refused a text,
both have executed as many, and they are alike: they stand at the same
instruction of the same program and hold the same integers; both have
stopped or neither has, and if they failed, it was at the same instruction
and for a reason of the same kind; and they wrote as many lines, each for
the same integer in both bases. -/
theorem run_alike {p : Program} {b₁ b₂ : Base} {t₁ t₂ : Tokens}
    (htokens : List.Forall₂ (SameNumber b₁ b₂) t₁.drain.1 t₂.drain.1) {o₁ o₂ : Sink}
    {start₁ start₂ : Machine} (hstart₁ : Machine.new p b₁.size t₁ o₁ = .ok start₁)
    (hstart₂ : Machine.new p b₂.size t₂ o₂ = .ok start₂) {s₁ s₂ : Stack} (hs₁ : s₁.Faithful)
    (hs₂ : s₂.Faithful) (hs : s₁.integers = s₂.integers) (n : Nat)
    (hw₁ : ¬ Unwritten ({ start₁ with stack := s₁ }.run n).2.fault)
    (hw₂ : ¬ Unwritten ({ start₂ with stack := s₂ }.run n).2.fault) :
    ({ start₁ with stack := s₁ }.run n).1 = ({ start₂ with stack := s₂ }.run n).1 ∧
      Alike b₁ b₂ o₁ o₂ ({ start₁ with stack := s₁ }.run n).2
        ({ start₂ with stack := s₂ }.run n).2 := by
  have htwins := twins_new htokens hstart₁ hstart₂ hs
  -- each machine goes the way of its view, which keeps the views twins
  obtain ⟨hdone₁, hfaithful₁, hview₁⟩ :=
    stepMany_mirrors n 0 (m := { start₁ with stack := s₁ }) hs₁
  obtain ⟨hdone₂, hfaithful₂, hview₂⟩ :=
    stepMany_mirrors n 0 (m := { start₂ with stack := s₂ }) hs₂
  have hfault₁ := congrArg Ideal.fault hview₁
  have hfault₂ := congrArg Ideal.fault hview₂
  obtain ⟨hdone, hafter⟩ := Ideal.stepMany_twins n 0 htwins
    (fun hw => hw₁ (show Unwritten (stepMany n 0 _).2.view.fault from hfault₁ ▸ hw))
    (fun hw => hw₂ (show Unwritten (stepMany n 0 _).2.view.fault from hfault₂ ▸ hw))
  refine ⟨hdone₁.trans (hdone.trans hdone₂.symm), ?_⟩
  rw [← hview₁, ← hview₂] at hafter
  have halike := alike_of_twins hafter hfaithful₁ hfaithful₂
  -- counting the instructions touches nothing that is compared
  exact { halike with }

/-- The product of 255 and -10, and a zero below it, in bases 16 and 10; one
zero is the empty numeral. -/
theorem run_alike_product :
    ∃ m₁ m₂ : Machine, m₁.base.size = 16 ∧ m₂.base.size = 10 ∧
      m₁.stack.values = [Numeral.empty] ∧ m₂.stack.values = [Numeral.zero] ∧
      m₁.input.drain.1 = [Bytes.ofText "FF", Bytes.ofText "-0a"] ∧
      m₂.input.drain.1 = [Bytes.ofText "255", Bytes.ofText "-10"] ∧
      (m₁.run 9).1 = (m₂.run 9).1 ∧
      Alike m₁.base m₂.base Sink.unlimited Sink.unlimited (m₁.run 9).2 (m₂.run 9).2 ∧
      (m₁.run 9).2.output.text = "-9F6\n0\n" ∧ (m₂.run 9).2.output.text = "-2550\n0\n" := by
  let p : Program := #[⟨.input, 0, 1, 1, 0⟩, ⟨.input, 1, 2, 2, 1⟩, ⟨.multiply, 2, 3, 3, 2⟩,
    ⟨.output, 3, 4, 4, 3⟩, ⟨.output, 4, halt, halt, 4⟩]
  let start (b : Base) (v : Numeral) (words : List String) : Machine :=
    ⟨p, 0, Stack.new.push v, 0, b, Tokens.ofBytes (Tokens.lines (words.map Bytes.ofText)) none,
      Sink.unlimited, none, none⟩
  let m₁ := start { size := 16 } Numeral.empty ["FF", "-0a"]
  let m₂ := start { size := 10 } Numeral.zero ["255", "-10"]
  have hwords₁ : m₁.input.drain.1 = [Bytes.ofText "FF", Bytes.ofText "-0a"] := by decide +kernel
  have hwords₂ : m₂.input.drain.1 = [Bytes.ofText "255", Bytes.ofText "-10"] := by decide +kernel
  have htokens : List.Forall₂ (SameNumber m₁.base m₂.base) m₁.input.drain.1
      m₂.input.drain.1 := by
    rw [hwords₁, hwords₂]
    refine .cons ?_ (.cons ?_ .nil)
    · rw [sameNumber_iff]
      decide +kernel
    · rw [sameNumber_iff]
      decide +kernel
  have hvalid : ∀ v, (Stack.new.push v).ring.Valid := fun v =>
    (Ring.pushBack_spec (Ring.valid_withSlots 16) v).1
  have hvalues₁ : m₁.stack.values = [Numeral.empty] := by decide +kernel
  have hvalues₂ : m₂.stack.values = [Numeral.zero] := by decide +kernel
  have hs₁ : m₁.stack.Faithful := by
    refine ⟨hvalid _, fun v hv => .inl ?_⟩
    rw [hvalues₁] at hv
    exact List.mem_singleton.1 hv
  have hs₂ : m₂.stack.Faithful := by
    refine ⟨hvalid _, fun v hv => .inr ?_⟩
    rw [hvalues₂] at hv
    rw [List.mem_singleton.1 hv]
    exact Numeral.canonical_zero
  have hfault₁ : (m₁.run 9).2.fault = none := by decide +kernel
  have hfault₂ : (m₂.run 9).2.fault = none := by decide +kernel
  have hwritten : ¬ Unwritten none := by
    rintro ⟨cause, hcause⟩
    cases hcause
  obtain ⟨hcount, halike⟩ := run_alike htokens (new_size p _ m₁.input Sink.unlimited)
    (new_size p _ m₂.input Sink.unlimited) hs₁ hs₂ (by decide +kernel) 9
    (hfault₁.symm ▸ hwritten) (hfault₂.symm ▸ hwritten)
  exact ⟨m₁, m₂, rfl, rfl, hvalues₁, hvalues₂, hwords₁, hwords₂, hcount, halike,
    by decide +kernel, by decide +kernel⟩

end Machine

end Tetraglyph
