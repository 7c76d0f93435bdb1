/-
  Tetraglyph.Proofs.Machine.Faults
  ────────────────────────────────
  **WHEN A STEP FAILS, AND WHAT IT LEAVES.**

  An instruction fails for one of five causes: it needs more values than
  there are, there is no token, the token is no number, four values spell a
  brace, or a value cannot be written.  `Faults` lists them, each with the
  failure it is reported as and the values that are lost with it.  The list
  is complete: a step of a machine with a valid stack fails for a cause in
  the list, or goes on.

      needs    — how many values an instruction needs
      Faults   — why it fails
      Failed   — what a step that failed leaves
      WentOn   — what a step that did not fail leaves

  Main results

      operation_settles    — operations on the stack alone
      step_short           — too few values are reported
      Faults.failed        — a cause makes the step fail
      faults_or_wentOn     — without a cause it goes on
      step_faults_exactly  — in every history, both
-/
import Tetraglyph.Proofs.Stack
import Tetraglyph.Proofs.Machine.Arena

namespace Tetraglyph

/-! ## §1. What instructions need. -/

/-- How many values an instruction needs. -/
def Kind.needs : Kind → Nat
  | .pop | .output | .dup | .rot | .rrot | .negate | .lbrace | .rbrace => 1
  | .swap | .add | .multiply => 2
  | .execute => 4
  | .nop | .input | .push | .unknown _ => 0

/-- What it is called if there are fewer. -/
def Kind.shortage (k : Kind) : ErrorKind :=
  if k.needs = 1 then .emptyStack else .insufficientStackSize

/-- The operations on the stack alone that can fail. -/
def Kind.operation? : Kind → Option (Stack → Int → Except Failure Stack)
  | .rot => some Stack.rotate
  | .swap => some Stack.swap
  | .rrot => some Stack.reverseRotate
  | .dup => some Stack.dup
  | .add => some Stack.add
  | .multiply => some Stack.multiply
  | .negate => some Stack.negate
  | .pop => some Stack.pop
  | _ => none

/-- The sorts of instructions there are. -/
theorem Kind.sorts {k : Kind} (h : k.Known) :
    k = .nop ∨ k = .push ∨ k = .input ∨ k = .output ∨ k.isBrace = true ∨ k = .execute ∨
      ∃ op, k.operation? = some op := by
  cases k with
  | unknown code => exact absurd h (by simp [Kind.Known, Kind.all])
  | _ => simp [Kind.isBrace, Kind.operation?]

theorem Kind.needs_brace {k : Kind} (h : k.isBrace = true) :
    k.needs = 1 ∧ k.shortage = .emptyStack := by
  cases k with
  | lbrace => exact ⟨rfl, rfl⟩
  | rbrace => exact ⟨rfl, rfl⟩
  | _ => exact absurd h (by simp [Kind.isBrace])

namespace Stack

/-- How an operation that needs `n` values comes out on the values `vs`.  Too
few are reported; else there is a valid stack, by one value larger at most. -/
def Settles (vs : List Numeral) (id : Int) (n : Nat) (r : Except Failure Stack) : Prop :=
  (vs.length < n ∧ r = .error (shortage id n)) ∨
    (n ≤ vs.length ∧ ∃ s vs', r = .ok s ∧ s.Shows vs' ∧ vs'.length ≤ vs.length + 1)

section

variable {s : Stack} {vs : List Numeral} (h : s.Shows vs) (id : Int)

include h

theorem rotate_settles : Settles vs id 1 (s.rotate id) := by
  cases vs with
  | nil =>
      refine .inl ⟨by simp, ?_⟩
      unfold Stack.rotate
      rw [h.take_nil id]
      rfl
  | cons v vs =>
      obtain ⟨s', hs', hshows⟩ := h.rotate id
      exact .inr ⟨by simp, s', _, hs', hshows, by simp⟩

theorem reverseRotate_settles : Settles vs id 1 (s.reverseRotate id) := by
  rcases List.eq_nil_or_concat' vs with rfl | ⟨ws, w, rfl⟩
  · exact .inl ⟨by simp, h.reverseRotate_nil id⟩
  · obtain ⟨s', hs', hshows⟩ := h.reverseRotate id
    exact .inr ⟨by simp, s', _, hs', hshows, by simp⟩

theorem dup_settles : Settles vs id 1 (s.dup id) := by
  unfold Stack.dup
  cases vs with
  | nil =>
      rw [h.top_nil id]
      exact .inl ⟨by simp, rfl⟩
  | cons v vs =>
      rw [h.top id]
      exact .inr ⟨by simp, _, _, rfl, h.push v, by simp⟩

theorem pop_settles : Settles vs id 1 (s.pop id) := by
  unfold Stack.pop
  cases vs with
  | nil =>
      rw [h.take_nil id]
      exact .inl ⟨by simp, rfl⟩
  | cons v vs =>
      obtain ⟨s', htake, hshows⟩ := h.take id
      rw [htake]
      exact .inr ⟨by simp, s', _, rfl, hshows, by simp only [List.length_cons]; omega⟩

theorem negate_settles : Settles vs id 1 (s.negate id) := by
  cases vs with
  | nil =>
      refine .inl ⟨by simp, ?_⟩
      unfold Stack.negate
      rw [h.top_nil id]
      rfl
  | cons v vs =>
      obtain ⟨s', hs', hshows⟩ := h.negate id
      exact .inr ⟨by simp, s', _, hs', hshows, by simp⟩

theorem swap_settles : Settles vs id 2 (s.swap id) := by
  match vs with
  | [] => exact .inl ⟨by simp, h.swap_short (by simp) id⟩
  | [v] => exact .inl ⟨by simp, h.swap_short (by simp) id⟩
  | a :: b :: vs =>
      obtain ⟨s', hs', hshows⟩ := h.swap id
      exact .inr ⟨by simp, s', _, hs', hshows, by simp⟩

theorem combine_settles (f : Numeral → Numeral → Numeral) :
    Settles vs id 2 (s.combine id f) := by
  match vs with
  | [] => exact .inl ⟨by simp, h.combine_short (by simp) id f⟩
  | [v] => exact .inl ⟨by simp, h.combine_short (by simp) id f⟩
  | a :: b :: vs =>
      obtain ⟨s', hs', hshows⟩ := h.combine id f
      exact .inr ⟨by simp, s', _, hs', hshows, by simp only [List.length_cons]; omega⟩

/-- **Operations on the stack alone** fail exactly for too few values. -/
theorem operation_settles {k : Kind} {op : Stack → Int → Except Failure Stack}
    (hop : k.operation? = some op) : Settles vs id k.needs (op s id) := by
  cases k <;> simp only [Kind.operation?, Option.some.injEq, reduceCtorEq] at hop <;> subst hop
  case rot => exact rotate_settles h id
  case swap => exact swap_settles h id
  case rrot => exact reverseRotate_settles h id
  case dup => exact dup_settles h id
  case add => exact combine_settles h id Numeral.add
  case multiply => exact combine_settles h id Numeral.mul
  case negate => exact negate_settles h id
  case pop => exact pop_settles h id

end

end Stack

/-! ## §2. How the input ends. -/

/-- A request for a token fails with the ending of the stream, or because the
token is too long; and the stream it leaves has one of these endings. -/
theorem Tokens.next_ending (t : Tokens) :
    (t.next.2.ending = t.ending ∨ t.next.2.ending = tooLong) ∧
      ∀ f, t.next.1 = .error f → f = t.ending ∨ f = tooLong := by
  unfold Tokens.next
  dsimp only
  generalize Text.wordLength _ (Text.skipBlank t.rest) = n
  split
  next => exact ⟨.inl rfl, fun f hf => .inl (Except.error.inj hf).symm⟩
  next =>
      split
      next => exact ⟨.inr rfl, fun f hf => .inr (Except.error.inj hf).symm⟩
      next => exact ⟨.inl rfl, fun f hf => absurd hf (by simp)⟩

namespace Machine

/-! ## §3. Why steps fail. -/

/-- **Why an instruction of a kind fails**, with the failure and the values
that are lost, from bottom to top. -/
inductive Faults (m : Machine) : Kind → Failure → List Numeral → Prop where
  /-- There are too few values. -/
  | short {k : Kind} (h : m.stack.values.length < k.needs) :
      Faults m k (.fault k.shortage m.pc) []
  /-- There is no token. -/
  | noToken {f : Failure} (h : m.input.next.1 = .error f) :
      Faults m .input (.faultFrom .inputNotValidInteger m.pc f) []
  /-- The token is no number in the base of the machine. -/
  | noNumber {token : Bytes} {f : Failure} (h : m.input.next.1 = .ok token)
      (hf : Numeral.ofText m.base token = .error f) :
      Faults m .input (.faultFrom .inputNotValidInteger m.pc f) []
  /-- The four topmost values, the top first, spell a brace. -/
  | spellsBrace {rest : List Numeral} {a b c d : Numeral}
      (h : m.stack.values = rest ++ [d, c, b, a]) (hb : (spelled [a, b, c, d]).isBrace = true) :
      Faults m .execute
        (.faultFrom .invalidExecute m.pc
          (.plain s!"values {showValues [a, b, c, d]} decode to {(spelled [a, b, c, d]).name}"))
        [d, c, b, a]
  /-- The output does not take the topmost value. -/
  | unwritten {rest : List Numeral} {v : Numeral} {f : Failure}
      (h : m.stack.values = rest ++ [v])
      (hf : m.output.write (v.format m.base ++ "\n") = .error f) :
      Faults m .output (.within "writing output: " f "") [v]

/-- The machine `m'` came of `m` by a step that failed and lost some values
from the top of the stack. -/
structure Failed (m m' : Machine) (f : Failure) (lost : List Numeral) : Prop where
  fault : m'.fault = some f
  pc : m'.pc = m.pc
  program : m'.program = m.program
  output : m'.output = m.output
  input : m'.input = m.input ∨ m'.input = m.input.next.2
  values : m.stack.values = m'.stack.values ++ lost
  same : lost = [] → m'.stack = m.stack
  valid : m'.stack.ring.Valid

/-- The machine `m'` came of `m` by an instruction of kind `k` that did not
fail.  An Execute takes four values, all others add one at most. -/
structure WentOn (m m' : Machine) (k : Kind) : Prop where
  fault : m'.fault = none
  input : m'.input = m.input ∨ m'.input = m.input.next.2
  valid : m'.stack.ring.Valid
  execute : k = .execute → m'.stack.size + 4 = m.stack.size
  others : k ≠ .execute → m'.stack.size ≤ m.stack.size + 1

/-- A failure that loses nothing. -/
theorem failed_fail {m : Machine} (hvalid : m.stack.ring.Valid) (f : Failure) :
    Failed m (m.fail f) f [] :=
  ⟨rfl, rfl, rfl, rfl, .inl rfl, (List.append_nil _).symm, fun _ => rfl, hvalid⟩

/-- A failure behind the values that were taken. -/
theorem failed_taken {m : Machine} {s : Stack} {rest lost : List Numeral}
    (hs : s.Shows rest.reverse) (hne : lost ≠ []) (hvalues : m.stack.values = rest ++ lost)
    (f : Failure) : Failed m ({ m with stack := s }.fail f) f lost := by
  refine ⟨rfl, rfl, rfl, rfl, .inl rfl, ?_, fun hnil => absurd hnil hne, hs.1⟩
  show m.stack.values = s.values ++ lost
  rw [hs.values_eq, List.reverse_reverse, hvalues]

/-- A failure behind a request for a token. -/
theorem failed_read {m : Machine} (hvalid : m.stack.ring.Valid) (f : Failure) :
    Failed m ({ m with input := m.input.next.2 }.fail f) f [] :=
  ⟨rfl, rfl, rfl, rfl, .inr rfl, (List.append_nil _).symm, fun _ => rfl, hvalid⟩

/-- Going on with a stack that is by one value larger at most. -/
theorem wentOn_shows {m m' : Machine} {k : Kind} (hk : k ≠ .execute) {vs vs' : List Numeral}
    (hs : m.stack.Shows vs) (hs' : m'.stack.Shows vs') (hfault : m'.fault = none)
    (hinput : m'.input = m.input ∨ m'.input = m.input.next.2)
    (hle : vs'.length ≤ vs.length + 1) : WentOn m m' k := by
  refine ⟨hfault, hinput, hs'.1, fun h => absurd h hk, fun _ => ?_⟩
  rw [hs.size_eq, hs'.size_eq]
  exact hle

/-! ## §4. The instructions one by one. -/

section

variable {m : Machine} {ix : Instr} (hix : m.program.fetch? m.pc = some ix)

include hix

theorem step_nop (hk : ix.kind = .nop) : m.step = { m with pc := ix.next } := by
  unfold step
  rw [hix]
  dsimp only
  rw [hk]

theorem step_push (hk : ix.kind = .push) :
    m.step = { m with stack := m.stack.pushOne, pc := ix.next } := by
  unfold step
  rw [hix]
  dsimp only
  rw [hk]

theorem step_operation {op : Stack → Int → Except Failure Stack}
    (hop : ix.kind.operation? = some op) : m.step = m.onStack ix.next (op m.stack m.pc) := by
  unfold step
  rw [hix]
  dsimp only
  cases hk : ix.kind <;> rw [hk] at hop <;>
    simp only [Kind.operation?, Option.some.injEq, reduceCtorEq] at hop <;> subst hop <;> rfl

theorem step_input (hk : ix.kind = .input) : m.step = m.readInput ix.next := by
  unfold step
  rw [hix]
  dsimp only
  rw [hk]

theorem step_output (hk : ix.kind = .output) : m.step = m.writeOutput ix.next := by
  unfold step
  rw [hix]
  dsimp only
  rw [hk]

theorem step_brace (hk : ix.kind.isBrace = true) : ∃ test, m.step = m.brace ix test := by
  unfold step
  rw [hix]
  dsimp only
  cases hkind : ix.kind <;> rw [hkind] at hk <;> simp only [Kind.isBrace, reduceCtorEq] at hk
  case lbrace => exact ⟨_, rfl⟩
  case rbrace => exact ⟨_, rfl⟩

theorem step_execute (hk : ix.kind = .execute) : m.step = m.execute ix := by
  unfold step
  rw [hix]
  dsimp only
  rw [hk]

end

section

variable {m : Machine} {vs : List Numeral}

theorem readInput_noToken {f : Failure} (h : m.input.next.1 = .error f) (next : Int) :
    m.readInput next
      = { m with input := m.input.next.2 }.fail (.faultFrom .inputNotValidInteger m.pc f) := by
  unfold readInput
  rw [← Prod.eta m.input.next, h]

theorem readInput_noNumber {token : Bytes} {f : Failure} (h : m.input.next.1 = .ok token)
    (hf : Numeral.ofText m.base token = .error f) (next : Int) :
    m.readInput next
      = { m with input := m.input.next.2 }.fail (.faultFrom .inputNotValidInteger m.pc f) := by
  unfold readInput
  rw [← Prod.eta m.input.next, h]
  dsimp only
  rw [hf]

theorem readInput_number {token : Bytes} {v : Numeral} (h : m.input.next.1 = .ok token)
    (hv : Numeral.ofText m.base token = .ok v) (next : Int) :
    m.readInput next
      = { m with input := m.input.next.2, stack := m.stack.push v, pc := next } := by
  unfold readInput
  rw [← Prod.eta m.input.next, h]
  dsimp only
  rw [hv]

theorem brace_empty (hs : m.stack.Shows []) (ix : Instr) (test : Numeral → Bool) :
    m.brace ix test = m.fail (.fault .emptyStack m.pc) := by
  unfold brace
  rw [hs.top_nil]

theorem brace_top {v : Numeral} (hs : m.stack.Shows (v :: vs)) (ix : Instr)
    (test : Numeral → Bool) :
    m.brace ix test = { m with pc := if test v then ix.jump else ix.next } := by
  unfold brace
  rw [hs.top]

theorem writeOutput_empty (hs : m.stack.Shows []) (next : Int) :
    m.writeOutput next = m.fail (.fault .emptyStack m.pc) := by
  unfold writeOutput
  rw [hs.take_nil]

/-- The top is taken before it is written. -/
theorem writeOutput_top {v : Numeral} (hs : m.stack.Shows (v :: vs)) (next : Int) :
    ∃ s : Stack, s.Shows vs ∧
      m.writeOutput next
        = match m.output.write (v.format m.base ++ "\n") with
          | .error f => { m with stack := s }.fail (.within "writing output: " f "")
          | .ok output => { m with stack := s, output, pc := next } := by
  obtain ⟨s, htake, hs'⟩ := hs.take m.pc
  refine ⟨s, hs', ?_⟩
  cases hw : m.output.write (v.format m.base ++ "\n") <;> simp only [writeOutput, htake, hw]

theorem execute_short (hs : m.stack.Shows vs) (hlen : vs.length < 4) (ix : Instr) :
    m.execute ix = m.fail (.fault .insufficientStackSize m.pc) := by
  unfold execute
  rw [hs.takeMany_short hlen]

/-- Four values are taken before it is known what they spell. -/
theorem execute_four {a b c d : Numeral} (hs : m.stack.Shows (a :: b :: c :: d :: vs))
    (ix : Instr) :
    ∃ s : Stack, s.Shows vs ∧
      m.execute ix
        = if (spelled [a, b, c, d]).isBrace then
            { m with stack := s }.fail
              (.faultFrom .invalidExecute m.pc
                (.plain
                  s!"values {showValues [a, b, c, d]} decode to {(spelled [a, b, c, d]).name}"))
          else
            { m with
              stack := s
              program := splice m.program m.pc.toNat ix (spelled [a, b, c, d])
              pc := (m.program.size : Int) } := by
  obtain ⟨s, htake, hs'⟩ := hs.takeMany (k := 4) (by simp) m.pc
  refine ⟨s, hs', ?_⟩
  unfold execute
  rw [htake]
  rfl

end

/-! ## §5. All instructions. -/

section

variable {m : Machine} (hvalid : m.stack.ring.Valid) {ix : Instr}
  (hix : m.program.fetch? m.pc = some ix)

include hvalid hix

/-- **Too few values** are reported by every instruction that needs some. -/
theorem step_short (hknown : ix.kind.Known) (hlen : m.stack.values.length < ix.kind.needs) :
    m.step = m.fail (.fault ix.kind.shortage m.pc) := by
  have hs := Stack.shows_values hvalid
  rw [← List.length_reverse] at hlen
  generalize m.stack.values.reverse = vs at hs hlen
  have hnil : vs.length < 1 → m.stack.Shows [] := by
    intro h
    rw [← List.length_eq_zero_iff.1 (Nat.lt_one_iff.1 h)]
    exact hs
  rcases Kind.sorts hknown with hk | hk | hk | hk | hk | hk | ⟨op, hop⟩
  · exact absurd (hk ▸ hlen) (Nat.not_lt_zero _)
  · exact absurd (hk ▸ hlen) (Nat.not_lt_zero _)
  · exact absurd (hk ▸ hlen) (Nat.not_lt_zero _)
  · rw [hk] at hlen ⊢
    rw [step_output hix hk, writeOutput_empty (hnil hlen)]
    rfl
  · obtain ⟨hneeds, hshort⟩ := Kind.needs_brace hk
    obtain ⟨test, hstep⟩ := step_brace hix hk
    rw [hneeds] at hlen
    rw [hstep, brace_empty (hnil hlen), hshort]
  · rw [hk] at hlen ⊢
    rw [step_execute hix hk, execute_short hs hlen]
    rfl
  · -- the operation itself reports the shortage
    rcases Stack.operation_settles hs m.pc hop with ⟨_, hr⟩ | ⟨hle, _⟩
    · rw [step_operation hix hop, hr]
      show m.fail (Stack.shortage m.pc ix.kind.needs) = _
      unfold Stack.shortage Kind.shortage
      split <;> rfl
    · omega

/-- **A cause makes the step fail**, and it leaves all but the values that
are lost. -/
theorem Faults.failed (hknown : ix.kind.Known) {k : Kind} (hk : ix.kind = k) {f : Failure}
    {lost : List Numeral} (h : Faults m k f lost) : Failed m m.step f lost := by
  have hs := Stack.shows_values hvalid
  cases h with
  | short hlen =>
      subst hk
      rw [step_short hvalid hix hknown hlen]
      exact failed_fail hvalid _
  | noToken h =>
      rw [step_input hix hk, readInput_noToken h]
      exact failed_read hvalid _
  | noNumber h hf =>
      rw [step_input hix hk, readInput_noNumber h hf]
      exact failed_read hvalid _
  | @spellsBrace rest a b c d h hb =>
      rw [h, List.reverse_append] at hs
      obtain ⟨s, hs', hexec⟩ := execute_four hs ix
      rw [step_execute hix hk, hexec, if_pos hb]
      exact failed_taken hs' (by simp) h _
  | @unwritten rest v f h hf =>
      rw [h, List.reverse_append] at hs
      obtain ⟨s, hs', hwrite⟩ := writeOutput_top hs ix.next
      rw [step_output hix hk, hwrite, hf]
      exact failed_taken hs' (by simp) h _

variable (hfault : m.fault = none)

include hfault

theorem input_faults_or_wentOn (hk : ix.kind = .input) :
    (∃ f lost, Faults m .input f lost) ∨ WentOn m m.step .input := by
  have hs := Stack.shows_values hvalid
  cases hnext : m.input.next.1 with
  | error f => exact .inl ⟨_, _, .noToken hnext⟩
  | ok token =>
      cases htext : Numeral.ofText m.base token with
      | error f => exact .inl ⟨_, _, .noNumber hnext htext⟩
      | ok v =>
          rw [step_input hix hk, readInput_number hnext htext]
          exact .inr (wentOn_shows (by decide) hs (hs.push v) hfault (.inr rfl) (Nat.le_refl _))

theorem output_faults_or_wentOn (hk : ix.kind = .output) :
    (∃ f lost, Faults m .output f lost) ∨ WentOn m m.step .output := by
  have hs := Stack.shows_values hvalid
  rcases List.eq_nil_or_concat' m.stack.values with hnil | ⟨rest, v, hvalues⟩
  · exact .inl ⟨_, _, .short (by rw [hnil]; decide)⟩
  · rw [hvalues, List.reverse_concat] at hs
    obtain ⟨s, hs', hwrite⟩ := writeOutput_top hs ix.next
    cases hout : m.output.write (v.format m.base ++ "\n") with
    | error f => exact .inl ⟨_, _, .unwritten hvalues hout⟩
    | ok output =>
        rw [step_output hix hk, hwrite, hout]
        refine .inr (wentOn_shows (by decide) hs hs' hfault (.inl rfl) ?_)
        rw [List.length_cons]
        omega

theorem brace_faults_or_wentOn (hk : ix.kind.isBrace = true) :
    (∃ f lost, Faults m ix.kind f lost) ∨ WentOn m m.step ix.kind := by
  have hs := Stack.shows_values hvalid
  obtain ⟨test, hstep⟩ := step_brace hix hk
  rcases List.eq_nil_or_concat' m.stack.values with hnil | ⟨rest, v, hvalues⟩
  · exact .inl ⟨_, _, .short (by rw [hnil, (Kind.needs_brace hk).1]; decide)⟩
  · have hne : ix.kind ≠ .execute := by
      intro hx
      rw [hx] at hk
      exact absurd hk (by decide)
    rw [hvalues, List.reverse_concat] at hs
    rw [hstep, brace_top hs]
    exact .inr (wentOn_shows hne hs hs hfault (.inl rfl) (by omega))

theorem execute_faults_or_wentOn (hk : ix.kind = .execute) :
    (∃ f lost, Faults m .execute f lost) ∨ WentOn m m.step .execute := by
  have hs := Stack.shows_values hvalid
  by_cases hlen : m.stack.values.length < 4
  · exact .inl ⟨_, _, .short hlen⟩
  -- the four values from the top, and those below them
  match hvs : m.stack.values.reverse with
  | [] | [_] | [_, _] | [_, _, _] =>
      rw [← List.length_reverse, hvs] at hlen
      exact absurd (by simp) hlen
  | a :: b :: c :: d :: vs =>
      rw [hvs] at hs
      obtain ⟨s, hs', hexec⟩ := execute_four hs ix
      by_cases hb : (spelled [a, b, c, d]).isBrace = true
      · have hvalues : m.stack.values = vs.reverse ++ [d, c, b, a] := by
          rw [← List.reverse_reverse m.stack.values, hvs]
          simp
        exact .inl ⟨_, _, .spellsBrace hvalues hb⟩
      · rw [step_execute hix hk, hexec, if_neg hb]
        refine .inr ⟨hfault, .inl rfl, hs'.1, fun _ => ?_, fun hne => absurd rfl hne⟩
        rw [hs.size_eq]
        show s.size + 4 = _
        rw [hs'.size_eq]
        rfl

theorem operation_faults_or_wentOn {op : Stack → Int → Except Failure Stack}
    (hop : ix.kind.operation? = some op) :
    (∃ f lost, Faults m ix.kind f lost) ∨ WentOn m m.step ix.kind := by
  have hs := Stack.shows_values hvalid
  have hne : ix.kind ≠ .execute := by
    intro hx
    rw [hx] at hop
    exact absurd hop (by simp [Kind.operation?])
  rcases Stack.operation_settles hs m.pc hop with ⟨hlt, _⟩ | ⟨_, s, vs', hr, hs', hle⟩
  · rw [List.length_reverse] at hlt
    exact .inl ⟨_, _, .short hlt⟩
  · rw [step_operation hix hop, hr]
    exact .inr (wentOn_shows hne hs hs' hfault (.inl rfl) hle)

/-- **Without a cause the step goes on.** -/
theorem faults_or_wentOn (hknown : ix.kind.Known) :
    (∃ f lost, Faults m ix.kind f lost) ∨ WentOn m m.step ix.kind := by
  have hs := Stack.shows_values hvalid
  rcases Kind.sorts hknown with hk | hk | hk | hk | hk | hk | ⟨op, hop⟩
  · rw [step_nop hix hk, hk]
    exact .inr (wentOn_shows (by decide) hs hs hfault (.inl rfl) (by omega))
  · rw [step_push hix hk, hk]
    exact .inr (wentOn_shows (by decide) hs (hs.push Numeral.one) hfault (.inl rfl) (Nat.le_refl _))
  · exact hk ▸ input_faults_or_wentOn hvalid hix hfault hk
  · exact hk ▸ output_faults_or_wentOn hvalid hix hfault hk
  · exact brace_faults_or_wentOn hvalid hix hfault hk
  · exact hk ▸ execute_faults_or_wentOn hvalid hix hfault hk
  · exact operation_faults_or_wentOn hvalid hix hfault hop

end

/-- **A step fails exactly for a cause.** -/
theorem step_fault_iff {m : Machine} (hvalid : m.stack.ring.Valid) (hfault : m.fault = none)
    {ix : Instr} (hix : m.program.fetch? m.pc = some ix) (hknown : ix.kind.Known) (f : Failure) :
    m.step.fault = some f ↔ ∃ lost, Faults m ix.kind f lost := by
  constructor
  · intro hf
    rcases faults_or_wentOn hvalid hix hfault hknown with ⟨f', lost, h⟩ | h
    · have hf' := (h.failed hvalid hix hknown rfl).fault
      rw [hf, Option.some.injEq] at hf'
      subst hf'
      exact ⟨lost, h⟩
    · rw [h.fault] at hf
      exact absurd hf (by simp)
  · intro ⟨lost, h⟩
    exact (h.failed hvalid hix hknown rfl).fault

/-- A fault names the instruction at which the machine stands, and is of one
of four kinds. -/
theorem Faults.names {m : Machine} {k : Kind} {f : Failure} {lost : List Numeral}
    (h : Faults m k f lost) {kind : ErrorKind} {id : Int} (hf : f.fault? = some (kind, id)) :
    id = m.pc ∧ kind ∈ [.emptyStack, .insufficientStackSize, .inputNotValidInteger,
      .invalidExecute] := by
  cases h with
  | short =>
      obtain ⟨rfl, rfl⟩ := Prod.mk.inj (Option.some.inj hf)
      refine ⟨rfl, ?_⟩
      unfold Kind.shortage
      split <;> simp
  | noToken =>
      obtain ⟨rfl, rfl⟩ := Prod.mk.inj (Option.some.inj hf)
      simp
  | noNumber =>
      obtain ⟨rfl, rfl⟩ := Prod.mk.inj (Option.some.inj hf)
      simp
  | spellsBrace =>
      obtain ⟨rfl, rfl⟩ := Prod.mk.inj (Option.some.inj hf)
      simp
  | unwritten => exact absurd hf (by simp [Failure.fault?])

/-! ## §6. Histories. -/

/-- A safe machine with a valid stack, and an input that ends as the input
it was given, or with a token that is too long. -/
structure Steady (loaded : Program) (input : Tokens) (m : Machine) : Prop where
  safe : Safe loaded m
  valid : m.stack.ring.Valid
  ending : m.input.ending = input.ending ∨ m.input.ending = Tokens.tooLong

/-- What is read next fails as the input ends, or because it is too long. -/
theorem Steady.next_error {loaded : Program} {input : Tokens} {m : Machine}
    (h : Steady loaded input m) {f : Failure} (hf : m.input.next.1 = .error f) :
    f = input.ending ∨ f = Tokens.tooLong := by
  rcases (Tokens.next_ending m.input).2 f hf with rfl | hlong
  · exact h.ending
  · exact .inr hlong

/-- **Every step keeps a machine steady.** -/
theorem steady_kept (loaded : Program) (input : Tokens) : Kept (Steady loaded input) := by
  refine ⟨?_, fun m v h => ⟨(safe_kept loaded).push m v h.safe,
    ((Stack.shows_values h.valid).push v).1, h.ending⟩,
    fun m k h => ⟨(safe_kept loaded).count m k h.safe, h.valid, h.ending⟩⟩
  intro m h halive
  have hread : ∀ t : Tokens, t = m.input ∨ t = m.input.next.2 →
      t.ending = input.ending ∨ t.ending = Tokens.tooLong := by
    intro t ht
    rcases ht with rfl | rfl
    · exact h.ending
    · rcases (Tokens.next_ending m.input).1 with he | he
      · rw [he]
        exact h.ending
      · exact .inr he
  obtain ⟨_, ix, _, _, hfetch, hknown⟩ := h.safe.fetch halive
  have hsafe := (safe_kept loaded).step m h.safe halive
  rcases faults_or_wentOn h.valid hfetch (fault_of_alive halive) hknown with ⟨f, lost, hf⟩ | hgo
  · have hfailed := hf.failed h.valid hfetch hknown rfl
    exact ⟨hsafe, hfailed.valid, hread _ hfailed.input⟩
  · exact ⟨hsafe, hgo.valid, hread _ hgo.input⟩

theorem steady_new {p : Program} (hp : p.Loaded) {base : Int} {input : Tokens} {output : Sink}
    {start : Machine} (h : Machine.new p base input output = .ok start) :
    Steady p input start := by
  refine ⟨safe_new hp h, ?_, ?_⟩
  · obtain ⟨b, rfl⟩ := new_eq h
    exact Ring.valid_withSlots 16
  · obtain ⟨b, rfl⟩ := new_eq h
    exact .inl rfl

/-- **Steps fail exactly for a cause, and leave all but what is lost.**  In
every history, a machine that is alive has an instruction to execute, and
the step fails if and only if there is a cause for it in the list `Faults`,
as the failure that the list gives.  It then leaves position, program and
output as they are, and the stack but for the values that the list says are
lost; as a fault it names the instruction and is of one of four kinds.  A
token is missing only where the input ends or a token is too long. -/
theorem step_faults_exactly {p : Program} (hp : p.Loaded) {base : Int} {input : Tokens}
    {output : Sink} {start : Machine} (hstart : Machine.new p base input output = .ok start)
    (es : List Event) :
    let m := start.after es
    m.alive = true → ∃ ix, m.program.fetch? m.pc = some ix ∧
      (∀ f, m.step.fault = some f ↔ ∃ lost, Faults m ix.kind f lost) ∧
      (∀ f lost, Faults m ix.kind f lost →
        m.step.pc = m.pc ∧ m.step.program = m.program ∧ m.step.output = m.output ∧
        m.stack.values = m.step.stack.values ++ lost ∧ (lost = [] → m.step.stack = m.stack) ∧
        ∀ kind id, f.fault? = some (kind, id) → id = m.pc ∧
          kind ∈ [.emptyStack, .insufficientStackSize, .inputNotValidInteger, .invalidExecute]) ∧
      ∀ f, m.input.next.1 = .error f → f = input.ending ∨ f = Tokens.tooLong := by
  intro m halive
  have hsteady : Steady p input m := (steady_kept p input).after (steady_new hp hstart) es
  obtain ⟨_, ix, _, _, hfetch, hknown⟩ := hsteady.safe.fetch halive
  refine ⟨ix, hfetch, step_fault_iff hsteady.valid (fault_of_alive halive) hfetch hknown, ?_,
    fun f hf => hsteady.next_error hf⟩
  intro f lost h
  have hfailed := h.failed hsteady.valid hfetch hknown rfl
  exact ⟨hfailed.pc, hfailed.program, hfailed.output, hfailed.values, hfailed.same,
    fun kind id hf => h.names hf⟩

/-- Four values that spell an L-brace are lost, and the one below them is
kept. -/
theorem step_faults_exactly_brace :
    ∃ (p : Program) (start : Machine) (es : List Event) (f : Failure), p.Loaded ∧
      Machine.new p 10 (Tokens.ofBytes [] none) Sink.unlimited = .ok start ∧
      (start.after es).alive = true ∧ f.fault? = some (.invalidExecute, 0) ∧
      (start.after es).step.fault = some f ∧ (start.after es).step.pc = 0 ∧
      (start.after es).stack.values = (start.after es).step.stack.values
        ++ [⟨false, [1]⟩, ⟨false, [2]⟩, ⟨false, [2]⟩, ⟨false, [1]⟩] := by
  let p : Program := #[⟨.execute, 0, halt, halt, 0⟩]
  let start : Machine :=
    ⟨p, 0, Stack.new, 0, .ten, Tokens.ofBytes [] none, Sink.unlimited, none, none⟩
  let digit (d : UInt8) : Event := .push ⟨false, [d]⟩
  let es : List Event := [digit 7, digit 1, digit 2, digit 2, digit 1]
  have hp : p.Loaded := .codes 1 1 none #[⟨97, 98, 99, 97⟩] rfl
  have hstart : Machine.new p 10 (Tokens.ofBytes [] none) Sink.unlimited = .ok start := rfl
  have halive : (start.after es).alive = true := by cbv
  obtain ⟨ix, hfetch, hiff, hleft, _⟩ := step_faults_exactly hp hstart es halive
  have hkind : ix.kind = .execute := by
    have hix : some ⟨.execute, 0, halt, halt, 0⟩ = some ix := hfetch
    rw [← Option.some.inj hix]
  have hvalues : (start.after es).stack.values
      = [⟨false, [7]⟩] ++ [⟨false, [1]⟩, ⟨false, [2]⟩, ⟨false, [2]⟩, ⟨false, [1]⟩] := by cbv
  have hcause := Faults.spellsBrace hvalues (by cbv)
  rw [← hkind] at hcause
  obtain ⟨hpc, _, _, hlost, _⟩ := hleft _ _ hcause
  exact ⟨p, start, es, _, hp, hstart, halive, rfl, (hiff _).2 ⟨_, hcause⟩, hpc, hlost⟩

end Machine

end Tetraglyph
