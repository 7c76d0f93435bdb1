/-
  Tetraglyph.Proofs.Machine.Ideal
  ───────────────────────────────
  **THE MACHINE OVER INTEGERS.**

  An ideal machine has no digits and no buffer: its stack is a list of
  integers, the top first.  It adds, multiplies and negates integers, tests
  whether one is 0 and whether two are equal, writes the canonical numeral
  of one and reads the integer that a token denotes.

  A machine whose stack holds well-formed numerals is FAITHFUL.  Seen
  through the integers it holds, it does in every step what the ideal
  machine does, and it stays faithful.  So both go through the same
  positions, programs, outputs, inputs and faults, however long they run.

  Main results

      rotate_agrees …      — operations on the stack alone
      step_mirrors         — one step
      run_refines_integers — every run
-/
import Tetraglyph.Machine
import Tetraglyph.Proofs.Numeral.Bases
import Tetraglyph.Proofs.Pattern
import Tetraglyph.Proofs.Stack

namespace Tetraglyph

/-! ## §1. Ideal machines. -/

/-- A program under way on integers. -/
structure Ideal where
  /-- The program, which grows. -/
  program : Program
  /-- The index of the next instruction. -/
  pc : Int
  /-- The values, the top first. -/
  stack : List Int
  /-- The number of instructions executed. -/
  steps : UInt64
  /-- The base in which numbers are read and written. -/
  base : Base
  /-- The input. -/
  input : Tokens
  /-- The output. -/
  output : Sink
  /-- What stopped the machine, if something did. -/
  fault : Option Failure
  /-- What broke the machine, if something did. -/
  broken : Option Misuse

namespace Ideal

/-- Whether there is more to execute. -/
def alive (m : Ideal) : Bool := m.pc != halt && m.fault.isNone && m.broken.isNone

/-- The machine stopped by a failure. -/
def fail (m : Ideal) (f : Failure) : Ideal := { m with fault := some f }

/-- What an operation makes of the values, `none` if there are too few. -/
def operate : Kind → List Int → Option (List Int)
  | .nop, s => some s
  | .push, s => some (1 :: s)
  | .rot, v :: s => some (s ++ [v])
  | .rrot, s => s.getLast?.map (· :: s.dropLast)
  | .swap, a :: b :: s => some (b :: a :: s)
  | .dup, v :: s => some (v :: v :: s)
  | .add, a :: b :: s => some ((a + b) :: s)
  | .multiply, a :: b :: s => some ((a * b) :: s)
  | .negate, v :: s => some (-v :: s)
  | .pop, _ :: s => some s
  | _, _ => none

/-- What it is called if there are too few values. -/
def shortage : Kind → ErrorKind
  | .swap | .add | .multiply | .execute => .insufficientStackSize
  | _ => .emptyStack

/-- Goes on at an index with what an operation of kind `k` left, or stops. -/
def onStack (m : Ideal) (k : Kind) (next : Int) : Option (List Int) → Ideal
  | none => m.fail (.fault (shortage k) m.pc)
  | some stack => { m with stack, pc := next }

/-- Reads a token and pushes the integer it denotes. -/
def readInput (m : Ideal) (next : Int) : Ideal :=
  match m.input.next with
  | (.error f, input) => { m with input }.fail (.faultFrom .inputNotValidInteger m.pc f)
  | (.ok token, input) =>
    match m.base.integer? token with
    | none =>
      { m with input }.fail (.faultFrom .inputNotValidInteger m.pc (m.base.refusal token))
    | some i => { m with input, stack := i :: m.stack, pc := next }

/-- Takes the top and writes its canonical numeral on a line of its own. -/
def writeOutput (m : Ideal) (next : Int) : Ideal :=
  match m.stack with
  | [] => m.fail (.fault .emptyStack m.pc)
  | v :: stack =>
    match m.output.write (m.base.numeral v ++ "\n") with
    | .error f => { m with stack }.fail (.within "writing output: " f "")
    | .ok output => { m with stack, output, pc := next }

/-- A brace: goes to one place if the top is 0 and to another if not. -/
def brace (m : Ideal) (zero nonzero : Int) : Ideal :=
  match m.stack with
  | [] => m.fail (.fault .emptyStack m.pc)
  | v :: _ => { m with pc := if v = 0 then zero else nonzero }

/-- Integers in a message. -/
def showIntegers (xs : List Int) : String :=
  "[" ++ " ".intercalate (xs.map Base.ten.numeral) ++ "]"

/-- The kind which four integers spell: only which of them are equal counts. -/
def spelled (q : Quad Int) : Kind := (patternOf (fun x y => decide (x = y)) q).kind

/-- Takes four integers, and splices in the instruction which they spell. -/
def execute (m : Ideal) (ix : Instr) : Ideal :=
  match m.stack with
  | a :: b :: c :: d :: stack =>
    let kind := spelled ⟨a, b, c, d⟩
    if kind.isBrace then
      { m with stack }.fail
        (.faultFrom .invalidExecute m.pc
          (.plain s!"values {showIntegers [a, b, c, d]} decode to {kind.name}"))
    else
      { m with
        stack
        program := Machine.splice m.program m.pc.toNat ix kind
        pc := (m.program.size : Int) }
  | _ => m.fail (.fault .insufficientStackSize m.pc)

/-- Executes the instruction at `pc`. -/
def step (m : Ideal) : Ideal :=
  match m.program.fetch? m.pc with
  | none => { m with broken := some .outOfRange }
  | some ix =>
    match ix.kind with
    | .input => m.readInput ix.next
    | .output => m.writeOutput ix.next
    | .lbrace => m.brace ix.jump ix.next
    | .rbrace => m.brace ix.next ix.jump
    | .execute => m.execute ix
    | .unknown _ => { m with broken := some (.unknownInstruction ix.listing) }
    | k => m.onStack k ix.next (operate k m.stack)

/-- Executes up to `n` instructions behind `done` others, and counts them. -/
def stepMany : Nat → Nat → Ideal → Nat × Ideal
  | 0, done, m => (done, m)
  | n + 1, done, m => if m.alive then stepMany n (done + 1) m.step else (done, m)

/-- Executes up to `n` instructions: how many there were, and the machine
after them. -/
def run (m : Ideal) (n : Nat) : Nat × Ideal :=
  let (done, m) := stepMany n 0 m
  (done, { m with steps := m.steps + UInt64.ofNat done })

end Ideal

/-! ## §2. Stacks that denote integers. -/

/-- The integers of a stack, the top first. -/
def Stack.integers (s : Stack) : List Int := s.values.reverse.map Numeral.toInt

/-- A valid buffer of well-formed numerals. -/
def Stack.Faithful (s : Stack) : Prop := s.ring.Valid ∧ ∀ v ∈ s.values, v.WellFormed

namespace Stack

/-- The stack shows well-formed numerals of these integers. -/
def Denotes (s : Stack) (xs : List Int) : Prop :=
  ∃ vs, s.Shows vs ∧ (∀ v ∈ vs, v.WellFormed) ∧ vs.map Numeral.toInt = xs

theorem Faithful.denotes {s : Stack} (h : s.Faithful) : s.Denotes s.integers :=
  ⟨s.values.reverse, shows_values h.1, fun v hv => h.2 v (List.mem_reverse.1 hv), rfl⟩

theorem Denotes.faithful {s : Stack} {xs : List Int} (h : s.Denotes xs) : s.Faithful := by
  obtain ⟨vs, hs, hwf, _⟩ := h
  refine ⟨hs.1, fun v hv => hwf v ?_⟩
  rw [hs.values_eq] at hv
  exact List.mem_reverse.1 hv

theorem Denotes.integers_eq {s : Stack} {xs : List Int} (h : s.Denotes xs) : s.integers = xs := by
  obtain ⟨vs, hs, _, hxs⟩ := h
  unfold integers
  rw [hs.2, hxs]

theorem Denotes.push {s : Stack} {xs : List Int} (h : s.Denotes xs) {v : Numeral}
    (hv : v.WellFormed) : (s.push v).Denotes (v.toInt :: xs) := by
  obtain ⟨vs, hs, hwf, hxs⟩ := h
  refine ⟨v :: vs, hs.push v, ?_, by rw [List.map_cons, hxs]⟩
  exact List.forall_mem_cons.2 ⟨hv, hwf⟩

theorem Denotes.take {s : Stack} {x : Int} {xs : List Int} (h : s.Denotes (x :: xs)) (id : Int) :
    ∃ v s', s.take id = .ok (v, s') ∧ v.WellFormed ∧ v.toInt = x ∧ s'.Denotes xs := by
  obtain ⟨vs, hs, hwf, hxs⟩ := h
  obtain ⟨v, vs, rfl, hv, hvs⟩ := List.map_eq_cons_iff.1 hxs
  obtain ⟨s', htake, hs'⟩ := hs.take id
  obtain ⟨hv', hwf'⟩ := List.forall_mem_cons.1 hwf
  exact ⟨v, s', htake, hv', hv, vs, hs', hwf', hvs⟩

theorem Denotes.shows_nil {s : Stack} (h : s.Denotes []) : s.Shows [] := by
  obtain ⟨vs, hs, _, hxs⟩ := h
  rw [List.map_eq_nil_iff.1 hxs] at hs
  exact hs

/-! ## §3. Operations on the stack alone. -/

/-- An operation of kind `k` came out as the one on integers did. -/
def Agrees (k : Kind) (id : Int) (r : Except Failure Stack) : Option (List Int) → Prop
  | none => r = .error (.fault (Ideal.shortage k) id)
  | some xs => ∃ s', r = .ok s' ∧ s'.Denotes xs

theorem rotate_agrees {s : Stack} {xs : List Int} (h : s.Denotes xs) (id : Int) :
    Agrees .rot id (s.rotate id) (Ideal.operate .rot xs) := by
  obtain ⟨vs, hs, hwf, rfl⟩ := h
  match vs with
  | [] =>
      show s.rotate id = _
      unfold Stack.rotate
      rw [hs.take_nil id]
      rfl
  | v :: vs =>
      obtain ⟨s', hs', hshows⟩ := hs.rotate id
      refine ⟨s', hs', vs ++ [v], hshows, ?_, by simp⟩
      intro u hu
      exact hwf u (by simpa [or_comm] using hu)

theorem reverseRotate_agrees {s : Stack} {xs : List Int} (h : s.Denotes xs) (id : Int) :
    Agrees .rrot id (s.reverseRotate id) (Ideal.operate .rrot xs) := by
  obtain ⟨vs, hs, hwf, rfl⟩ := h
  -- the bottom is the last of the list
  rcases List.eq_nil_or_concat' vs with rfl | ⟨ws, w, rfl⟩
  · exact hs.reverseRotate_nil id
  · obtain ⟨s', hs', hshows⟩ := hs.reverseRotate id
    have hop : Ideal.operate .rrot ((ws ++ [w]).map Numeral.toInt)
        = some (w.toInt :: ws.map Numeral.toInt) := by
      simp [Ideal.operate]
    rw [hop]
    refine ⟨s', hs', w :: ws, hshows, ?_, rfl⟩
    intro u hu
    exact hwf u (by simpa [or_comm] using hu)

theorem swap_agrees {s : Stack} {xs : List Int} (h : s.Denotes xs) (id : Int) :
    Agrees .swap id (s.swap id) (Ideal.operate .swap xs) := by
  obtain ⟨vs, hs, hwf, rfl⟩ := h
  match vs with
  | [] => exact hs.swap_short (by simp) id
  | [v] => exact hs.swap_short (by simp) id
  | a :: b :: vs =>
      obtain ⟨s', hs', hshows⟩ := hs.swap id
      obtain ⟨ha, hb, hvs⟩ := by simpa using hwf
      refine ⟨s', hs', b :: a :: vs, hshows, ?_, rfl⟩
      simpa using ⟨hb, ha, hvs⟩

theorem dup_agrees {s : Stack} {xs : List Int} (h : s.Denotes xs) (id : Int) :
    Agrees .dup id (s.dup id) (Ideal.operate .dup xs) := by
  obtain ⟨vs, hs, hwf, rfl⟩ := h
  match vs with
  | [] =>
      show s.dup id = _
      unfold Stack.dup
      rw [hs.top_nil id]
      rfl
  | v :: vs =>
      refine ⟨s.push v, ?_, v :: v :: vs, hs.push v, ?_, rfl⟩
      · unfold Stack.dup
        rw [hs.top id]
        rfl
      · exact List.forall_mem_cons.2 ⟨hwf v List.mem_cons_self, hwf⟩

theorem pop_agrees {s : Stack} {xs : List Int} (h : s.Denotes xs) (id : Int) :
    Agrees .pop id (s.pop id) (Ideal.operate .pop xs) := by
  cases xs with
  | nil =>
      show s.pop id = _
      unfold Stack.pop
      rw [h.shows_nil.take_nil id]
      rfl
  | cons x xs =>
      obtain ⟨v, s', htake, _, _, hs'⟩ := h.take id
      refine ⟨s', ?_, hs'⟩
      unfold Stack.pop
      rw [htake]
      rfl

theorem negate_agrees {s : Stack} {xs : List Int} (h : s.Denotes xs) (id : Int) :
    Agrees .negate id (s.negate id) (Ideal.operate .negate xs) := by
  obtain ⟨vs, hs, hwf, rfl⟩ := h
  match vs with
  | [] =>
      show s.negate id = _
      unfold Stack.negate
      rw [hs.top_nil id]
      rfl
  | v :: vs =>
      obtain ⟨s', hs', hshows⟩ := hs.negate id
      obtain ⟨hv, hvs⟩ := List.forall_mem_cons.1 hwf
      obtain ⟨hint, hcan⟩ := Numeral.toInt_negate hv
      refine ⟨s', hs', v.negate :: vs, hshows, ?_, by rw [List.map_cons, hint]⟩
      exact List.forall_mem_cons.2 ⟨hcan.wellFormed, hvs⟩

/-- Two values become one. -/
theorem combine_agrees {s : Stack} {vs : List Numeral} (hs : s.Shows vs)
    (hwf : ∀ v ∈ vs, v.WellFormed) {f : Numeral → Numeral → Numeral} {g : Int → Int → Int}
    (hfg : ∀ {x y : Numeral}, x.WellFormed → y.WellFormed →
      (f x y).toInt = g x.toInt y.toInt ∧ (f x y).Canonical) (id : Int) :
    match vs with
    | a :: b :: vs => ∃ s', s.combine id f = .ok s' ∧
        s'.Denotes (g a.toInt b.toInt :: vs.map Numeral.toInt)
    | _ => s.combine id f = .error (.fault .insufficientStackSize id) := by
  match vs with
  | [] => exact hs.combine_short (by simp) id f
  | [v] => exact hs.combine_short (by simp) id f
  | a :: b :: vs =>
      obtain ⟨s', hs', hshows⟩ := hs.combine id f
      obtain ⟨ha, hwf⟩ := List.forall_mem_cons.1 hwf
      obtain ⟨hb, hvs⟩ := List.forall_mem_cons.1 hwf
      obtain ⟨hint, hcan⟩ := hfg ha hb
      refine ⟨s', hs', f a b :: vs, hshows, ?_, by rw [List.map_cons, hint]⟩
      exact List.forall_mem_cons.2 ⟨hcan.wellFormed, hvs⟩

theorem add_agrees {s : Stack} {xs : List Int} (h : s.Denotes xs) (id : Int) :
    Agrees .add id (s.add id) (Ideal.operate .add xs) := by
  obtain ⟨vs, hs, hwf, rfl⟩ := h
  have hcomb := combine_agrees hs hwf Numeral.toInt_add id
  match vs with
  | [] => exact hcomb
  | [v] => exact hcomb
  | a :: b :: vs => exact hcomb

theorem multiply_agrees {s : Stack} {xs : List Int} (h : s.Denotes xs) (id : Int) :
    Agrees .multiply id (s.multiply id) (Ideal.operate .multiply xs) := by
  obtain ⟨vs, hs, hwf, rfl⟩ := h
  have hcomb := combine_agrees hs hwf Numeral.toInt_mul id
  match vs with
  | [] => exact hcomb
  | [v] => exact hcomb
  | a :: b :: vs => exact hcomb

end Stack

namespace Machine

/-! ## §4. One step. -/

/-- A machine, seen through the integers it holds. -/
def view (m : Machine) : Ideal :=
  ⟨m.program, m.pc, m.stack.integers, m.steps, m.base, m.input, m.output, m.fault, m.broken⟩

theorem view_alive (m : Machine) : m.view.alive = m.alive := rfl

/-- The machine `m` holds well-formed numerals, and `i` is its view. -/
def Mirrors (m : Machine) (i : Ideal) : Prop := m.stack.Faithful ∧ m.view = i

/-- A machine with another stack, seen through its integers. -/
theorem mirrors_stack {m : Machine} {s : Stack} {xs : List Int} (h : s.Denotes xs) :
    Mirrors { m with stack := s } { m.view with stack := xs } := by
  refine ⟨h.faithful, ?_⟩
  rw [← h.integers_eq]
  rfl

theorem Mirrors.fail {m : Machine} {i : Ideal} (h : Mirrors m i) (f : Failure) :
    Mirrors (m.fail f) (i.fail f) := by
  obtain ⟨hm, rfl⟩ := h
  exact ⟨hm, rfl⟩

theorem Mirrors.goTo {m : Machine} {i : Ideal} (h : Mirrors m i) (pc : Int) :
    Mirrors { m with pc } { i with pc } := by
  obtain ⟨hm, rfl⟩ := h
  exact ⟨hm, rfl⟩

theorem onStack_mirrors {m : Machine} (hm : m.stack.Faithful) {k : Kind} (next : Int)
    {r : Except Failure Stack} {o : Option (List Int)} (h : Stack.Agrees k m.pc r o) :
    Mirrors (m.onStack next r) (m.view.onStack k next o) := by
  cases o with
  | none =>
      rw [show r = _ from h]
      exact ⟨hm, rfl⟩
  | some xs =>
      obtain ⟨s, rfl, hs⟩ := h
      exact (mirrors_stack (m := m) hs).goTo next

theorem readInput_mirrors {m : Machine} (hm : m.stack.Faithful) (next : Int) :
    Mirrors (m.readInput next) (m.view.readInput next) := by
  unfold readInput Ideal.readInput
  show Mirrors _ (match m.input.next with | (.error f, input) => _ | (.ok token, input) => _)
  rcases m.input.next with ⟨f | token, input⟩
  · exact ⟨hm, rfl⟩
  · have htext := Numeral.ofText_eq m.base token
    show Mirrors _ (match m.base.integer? token with | none => _ | some i => _)
    cases hint : m.base.integer? token with
    | none =>
        rw [hint] at htext
        have htext : Numeral.ofText m.base token = .error (m.base.refusal token) := htext
        dsimp only
        rw [htext]
        exact ⟨hm, rfl⟩
    | some i =>
        -- the numeral read is canonical, and denotes what is pushed here
        rw [hint] at htext
        obtain ⟨v, hv, hcan, hi⟩ := htext
        dsimp only
        rw [hv]
        have hpush := hm.denotes.push hcan.wellFormed
        rw [hi] at hpush
        exact (mirrors_stack (m := { m with input }) hpush).goTo next

theorem writeOutput_mirrors {m : Machine} (hm : m.stack.Faithful) (next : Int) :
    Mirrors (m.writeOutput next) (m.view.writeOutput next) := by
  have hden := hm.denotes
  unfold writeOutput Ideal.writeOutput
  show Mirrors _ (match m.stack.integers with | [] => _ | v :: stack => _)
  cases hxs : m.stack.integers with
  | nil =>
      rw [hxs] at hden
      rw [hden.shows_nil.take_nil]
      exact ⟨hm, rfl⟩
  | cons x xs =>
      rw [hxs] at hden
      obtain ⟨v, s', htake, hv, hint, hs'⟩ := hden.take m.pc
      rw [htake]
      dsimp only
      -- the same text, so the output takes it or fails on both sides
      rw [Numeral.format_eq hv, hint]
      show Mirrors _
        (match m.output.write (m.base.numeral x ++ "\n") with | .error f => _ | .ok output => _)
      cases m.output.write (m.base.numeral x ++ "\n") with
      | error f => exact (mirrors_stack (m := m) hs').fail _
      | ok output => exact (mirrors_stack (m := { m with output }) hs').goTo next

theorem brace_mirrors {m : Machine} (hm : m.stack.Faithful) (ix : Instr) {test : Numeral → Bool}
    {zero nonzero : Int}
    (htest : ∀ v : Numeral, (if test v then ix.jump else ix.next)
      = if v.toInt = 0 then zero else nonzero) :
    Mirrors (m.brace ix test) (m.view.brace zero nonzero) := by
  obtain ⟨vs, hs, hwf, hxs⟩ := hm.denotes
  unfold brace Ideal.brace
  show Mirrors _ (match m.stack.integers with | [] => _ | v :: _ => _)
  rw [← hxs]
  match vs with
  | [] =>
      rw [hs.top_nil]
      exact ⟨hm, rfl⟩
  | v :: vs =>
      rw [hs.top]
      dsimp only
      rw [htest v]
      exact ⟨hm, rfl⟩

/-- Well-formed numerals spell what their integers spell. -/
theorem spelled_eq {a b c d : Numeral} (hwf : ∀ v ∈ [a, b, c, d], v.WellFormed) :
    spelled [a, b, c, d] = Ideal.spelled ⟨a.toInt, b.toInt, c.toInt, d.toInt⟩ := by
  have hpattern : patternOf Numeral.equal ⟨a, b, c, d⟩
      = patternOf (fun x y => decide (x = y)) (Quad.map Numeral.toInt ⟨a, b, c, d⟩) :=
    patternOf_congr fun x hx y hy => Numeral.equal_eq (hwf x hx) (hwf y hy)
  show (patternOf Numeral.equal ⟨a, b, c, d⟩).kind = _
  rw [hpattern]
  rfl

theorem showValues_eq {vs : List Numeral} (hwf : ∀ v ∈ vs, v.WellFormed) :
    showValues vs = Ideal.showIntegers (vs.map Numeral.toInt) := by
  unfold showValues Ideal.showIntegers
  rw [List.map_map, List.map_congr_left fun v hv => Numeral.text_eq (hwf v hv)]
  rfl

theorem execute_mirrors {m : Machine} (hm : m.stack.Faithful) (ix : Instr) :
    Mirrors (m.execute ix) (m.view.execute ix) := by
  obtain ⟨vs, hs, hwf, hxs⟩ := hm.denotes
  unfold execute Ideal.execute
  show Mirrors _ (match m.stack.integers with | a :: b :: c :: d :: stack => _ | _ => _)
  rw [← hxs]
  match vs with
  -- fewer than four values: both fail before they take any
  | [] => rw [hs.takeMany_short (by simp)]; exact ⟨hm, rfl⟩
  | [_] => rw [hs.takeMany_short (by simp)]; exact ⟨hm, rfl⟩
  | [_, _] => rw [hs.takeMany_short (by simp)]; exact ⟨hm, rfl⟩
  | [_, _, _] => rw [hs.takeMany_short (by simp)]; exact ⟨hm, rfl⟩
  | a :: b :: c :: d :: vs =>
      obtain ⟨s', htake, hs'⟩ := hs.takeMany (k := 4) (by simp) m.pc
      have hfour : ∀ v ∈ [a, b, c, d], v.WellFormed := fun v hv => hwf v (by
        simp only [List.mem_cons, List.not_mem_nil, or_false] at hv ⊢
        tauto)
      have hden : s'.Denotes (vs.map Numeral.toInt) :=
        ⟨vs, hs', fun v hv => hwf v (by simp [hv]), rfl⟩
      rw [htake]
      show Mirrors (if (spelled [a, b, c, d]).isBrace then _ else _)
        (if (Ideal.spelled ⟨a.toInt, b.toInt, c.toInt, d.toInt⟩).isBrace then _ else _)
      -- both spell the same kind, so both fail or both splice
      have hkind := spelled_eq hfour
      by_cases hb : (Ideal.spelled ⟨a.toInt, b.toInt, c.toInt, d.toInt⟩).isBrace
      · rw [if_pos hb, if_pos (by rw [hkind]; exact hb)]
        show Mirrors ({ m with stack := s' }.fail (.faultFrom .invalidExecute m.pc
          (.plain s!"values {showValues [a, b, c, d]} decode to {(spelled [a, b, c, d]).name}"))) _
        rw [showValues_eq hfour, hkind]
        exact (mirrors_stack (m := m) hden).fail _
      · rw [if_neg hb, if_neg (by rw [hkind]; exact hb)]
        show Mirrors { m with
          stack := s'
          program := splice m.program m.pc.toNat ix (spelled [a, b, c, d])
          pc := (m.program.size : Int) } _
        rw [hkind]
        exact mirrors_stack
          (m := { m with program := splice m.program m.pc.toNat ix _, pc := _ }) hden

/-- **One step of a faithful machine is one step over integers.** -/
theorem step_mirrors {m : Machine} (hm : m.stack.Faithful) : Mirrors m.step m.view.step := by
  have hden := hm.denotes
  unfold step Ideal.step
  show Mirrors _ (match m.program.fetch? m.pc with | none => _ | some ix => _)
  cases m.program.fetch? m.pc with
  | none => exact ⟨hm, rfl⟩
  | some ix =>
      dsimp only
      -- one case for each kind; what works on the stack alone shares a lemma
      cases ix.kind with
      | nop => exact ⟨hm, rfl⟩
      | push => exact (mirrors_stack (m := m) (hden.push Numeral.canonical_one.wellFormed)).goTo _
      | input => exact readInput_mirrors hm ix.next
      | output => exact writeOutput_mirrors hm ix.next
      | rot => exact onStack_mirrors hm ix.next (Stack.rotate_agrees hden m.pc)
      | swap => exact onStack_mirrors hm ix.next (Stack.swap_agrees hden m.pc)
      | rrot => exact onStack_mirrors hm ix.next (Stack.reverseRotate_agrees hden m.pc)
      | dup => exact onStack_mirrors hm ix.next (Stack.dup_agrees hden m.pc)
      | add => exact onStack_mirrors hm ix.next (Stack.add_agrees hden m.pc)
      | multiply => exact onStack_mirrors hm ix.next (Stack.multiply_agrees hden m.pc)
      | negate => exact onStack_mirrors hm ix.next (Stack.negate_agrees hden m.pc)
      | pop => exact onStack_mirrors hm ix.next (Stack.pop_agrees hden m.pc)
      | lbrace =>
          refine brace_mirrors hm ix fun v => ?_
          rw [Numeral.isZero_eq]
          simp only [decide_eq_true_iff]
      | rbrace =>
          refine brace_mirrors hm ix fun v => ?_
          rw [Numeral.isZero_eq]
          by_cases hz : v.toInt = 0 <;> simp [hz]
      | execute => exact execute_mirrors hm ix
      | unknown code => exact ⟨hm, rfl⟩

/-! ## §5. Every run. -/

theorem stepMany_mirrors (n : Nat) :
    ∀ (done : Nat) {m : Machine}, m.stack.Faithful →
      (stepMany n done m).1 = (Ideal.stepMany n done m.view).1 ∧
        Mirrors (stepMany n done m).2 (Ideal.stepMany n done m.view).2 := by
  induction n with
  | zero => exact fun done {m} hm => ⟨rfl, hm, rfl⟩
  | succ n ih =>
      intro done m hm
      unfold stepMany Ideal.stepMany
      rw [view_alive]
      split
      next =>
          -- the step keeps the stack faithful, so the next one is mirrored, too
          obtain ⟨hstep, hview⟩ := step_mirrors hm
          rw [← hview]
          exact ih (done + 1) hstep
      next => exact ⟨rfl, hm, rfl⟩

/-- **A machine refines the machine over integers.**  From any valid stack of
well-formed numerals, in any program, base, input and output, a run of any
length executes as many instructions as the ideal machine does; and seen
through the integers on its stack the machine is then in the same state,
with the same program, position, input, output and fault. -/
theorem run_refines_integers {m : Machine} (hvalid : m.stack.ring.Valid)
    (hwf : ∀ v ∈ m.stack.values, v.WellFormed) (n : Nat) :
    (m.run n).1 = (m.view.run n).1 ∧ (m.run n).2.view = (m.view.run n).2 ∧
      (m.run n).2.stack.ring.Valid ∧ ∀ v ∈ (m.run n).2.stack.values, v.WellFormed := by
  obtain ⟨hdone, ⟨hvalid', hwf'⟩, hview⟩ := stepMany_mirrors n 0 (m := m) ⟨hvalid, hwf⟩
  refine ⟨hdone, ?_, hvalid', hwf'⟩
  unfold Ideal.run
  dsimp only
  rw [← hdone, ← hview]
  rfl

/-- The product of -12 and 34, written in base 16. -/
theorem run_refines_integers_product :
    ∃ m : Machine, m.stack.ring.Valid ∧ (∀ v ∈ m.stack.values, v.WellFormed) ∧
      m.view.stack = [34, -12] ∧ (m.run 2).2.view = (m.view.run 2).2 ∧
      (m.view.run 2).2.output.text = "-198\n" := by
  let stack := (Stack.new.push ⟨true, [2, 1]⟩).push ⟨false, [4, 3]⟩
  let m : Machine := ⟨#[⟨.multiply, 0, 1, 1, 0⟩, ⟨.output, 1, halt, halt, 1⟩], 0, stack, 0,
    { size := 16 }, Tokens.ofBytes [] none, Sink.unlimited, none, none⟩
  have hvalid : m.stack.ring.Valid :=
    (Ring.pushBack_spec (Ring.pushBack_spec (Ring.valid_withSlots 16) _).1 _).1
  have hvalues : m.stack.values = [⟨true, [2, 1]⟩, ⟨false, [4, 3]⟩] := by decide +kernel
  have hwf : ∀ v ∈ m.stack.values, v.WellFormed := by
    rw [hvalues]
    intro v hv
    simp only [List.mem_cons, List.not_mem_nil, or_false] at hv
    rcases hv with rfl | rfl
    · exact .inr (Numeral.canonical_of_getLast? (d := 1) (by simp) rfl (by decide))
    · exact .inr (Numeral.canonical_of_getLast? (d := 3) (by simp) rfl (by decide))
  obtain ⟨_, hview, _⟩ := run_refines_integers hvalid hwf 2
  have htext : (m.run 2).2.view.output.text = "-198\n" := by decide +kernel
  exact ⟨m, hvalid, hwf, by decide +kernel, hview, by rw [← hview]; exact htext⟩

end Machine

end Tetraglyph
