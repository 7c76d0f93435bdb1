/-
  Tetraglyph.Proofs.Machine.Below
  ───────────────────────────────
  **WHAT LIES BELOW DOES NOT MATTER.**

  An instruction looks at the top of the stack and at as many values below
  it as it needs.  Only the two rotations look at the bottom.  So as long as
  a machine does not fail and does not rotate, values may be put BELOW its
  stack: it takes the same way, reads, writes and splices in the same, and in
  the end the values below are what they were.

      Kind.isRotation  — the instructions that look at the bottom
      Kind.atTop       — what the other operations do near the top
      Stack.Raised     — the same values on top of others
      Machine.Raised   — the same machine on top of other values

  Main results

      atTop_append       — what is below stays below
      operation_raised   — operations do not look below what they need
      step_raised        — no step does, unless it rotates or fails
      goOn_raised        — so no run does
      run_raised         — the whole run on top of other values
-/
import Tetraglyph.Proofs.Machine.Faults
import Tetraglyph.Proofs.Machine.Runs

namespace Tetraglyph

/-! ## §1. Near the top. -/

/-- Whether an instruction looks at the bottom of the stack. -/
def Kind.isRotation : Kind → Bool
  | .rot | .rrot => true
  | _ => false

/-- What the operations that do not rotate do to values, the top first, if
there are enough. -/
def Kind.atTop : Kind → List Numeral → Option (List Numeral)
  | .swap, a :: b :: vs => some (b :: a :: vs)
  | .dup, v :: vs => some (v :: v :: vs)
  | .add, a :: b :: vs => some (a.add b :: vs)
  | .multiply, a :: b :: vs => some (a.mul b :: vs)
  | .negate, v :: vs => some (v.negate :: vs)
  | .pop, _ :: vs => some vs
  | _, _ => none

/-- **What is below stays below.** -/
theorem Kind.atTop_append {k : Kind} {vs vs' : List Numeral} (h : k.atTop vs = some vs')
    (below : List Numeral) : k.atTop (vs ++ below) = some (vs' ++ below) := by
  unfold atTop at h
  split at h
  case h_7 => exact absurd h (by simp)
  -- the other rules leave the values behind the first two alone
  all_goals exact Option.some.inj h ▸ rfl

namespace Stack

/-- With enough values there is something to do near the top. -/
theorem exists_atTop {k : Kind} {op : Stack → Int → Except Failure Stack}
    (hop : k.operation? = some op) (hk : k.isRotation = false) {vs : List Numeral}
    (hle : k.needs ≤ vs.length) : ∃ vs', k.atTop vs = some vs' := by
  cases k <;> simp only [Kind.operation?, reduceCtorEq, Kind.isRotation] at hop hk
  case dup | negate | pop =>
    obtain ⟨v, vs, rfl⟩ := List.exists_cons_of_length_pos hle
    exact ⟨_, rfl⟩
  case swap | add | multiply =>
    obtain _ | ⟨a, _ | ⟨b, vs⟩⟩ := vs
    · exact absurd hle (by simp [Kind.needs])
    · exact absurd hle (by simp [Kind.needs])
    · exact ⟨_, rfl⟩

/-- An operation does what is to be done near the top. -/
theorem operation_atTop {k : Kind} {op : Stack → Int → Except Failure Stack}
    (hop : k.operation? = some op) {s : Stack} {vs vs' : List Numeral} (hs : s.Shows vs)
    (h : k.atTop vs = some vs') (id : Int) : ∃ s', op s id = .ok s' ∧ s'.Shows vs' := by
  unfold Kind.atTop at h
  split at h
  next a b vs =>
      obtain rfl := Option.some.inj hop
      obtain rfl := Option.some.inj h
      exact hs.swap id
  next v vs =>
      obtain rfl := Option.some.inj hop
      obtain rfl := Option.some.inj h
      refine ⟨s.push v, ?_, hs.push v⟩
      unfold Stack.dup
      rw [hs.top id]
      rfl
  next a b vs =>
      obtain rfl := Option.some.inj hop
      obtain rfl := Option.some.inj h
      exact hs.combine id Numeral.add
  next a b vs =>
      obtain rfl := Option.some.inj hop
      obtain rfl := Option.some.inj h
      exact hs.combine id Numeral.mul
  next v vs =>
      obtain rfl := Option.some.inj hop
      obtain rfl := Option.some.inj h
      exact hs.negate id
  next v vs =>
      obtain rfl := Option.some.inj hop
      obtain rfl := Option.some.inj h
      obtain ⟨s', htake, hs'⟩ := hs.take id
      refine ⟨s', ?_, hs'⟩
      unfold Stack.pop
      rw [htake]
      rfl
  next => exact absurd h (by simp)

/-! ## §2. Stacks on top of other values. -/

/-- The stack `t` holds the values of `s` on top of the values `below`, which
are given from bottom to top. -/
structure Raised (below : List Numeral) (s t : Stack) : Prop where
  valid : s.ring.Valid
  raised_valid : t.ring.Valid
  values : t.values = below ++ s.values

theorem Shows.raised {below vs : List Numeral} {s t : Stack} (hs : s.Shows vs)
    (ht : t.Shows (vs ++ below.reverse)) : Raised below s t := by
  refine ⟨hs.1, ht.1, ?_⟩
  rw [ht.values_eq, hs.values_eq, List.reverse_append, List.reverse_reverse]

section

variable {below vs : List Numeral} {s t : Stack} (h : Raised below s t)

include h

/-- Seen from the top, the values below come last. -/
theorem Raised.shows (hs : s.Shows vs) : t.Shows (vs ++ below.reverse) := by
  refine ⟨h.raised_valid, ?_⟩
  rw [h.values, hs.values_eq, List.reverse_append, List.reverse_reverse]

theorem Raised.push (v : Numeral) : Raised below (s.push v) (t.push v) := by
  have hs := shows_values h.valid
  exact (hs.push v).raised ((h.shows hs).push v)

/-- **Operations do not look below what they need.** -/
theorem operation_raised {k : Kind} {op : Stack → Int → Except Failure Stack}
    (hop : k.operation? = some op) (hk : k.isRotation = false) {id : Int} {s' : Stack}
    (hok : op s id = .ok s') : ∃ t', op t id = .ok t' ∧ Raised below s' t' := by
  have hs := shows_values h.valid
  rcases operation_settles hs id hop with ⟨_, hshort⟩ | ⟨hle, _⟩
  · rw [hshort] at hok
    exact absurd hok (by simp)
  · obtain ⟨vs', hvs'⟩ := exists_atTop hop hk hle
    obtain ⟨s'', hok', hs'⟩ := operation_atTop hop hs hvs' id
    obtain rfl : s' = s'' := Except.ok.inj (hok.symm.trans hok')
    obtain ⟨t', ht', hshows⟩ :=
      operation_atTop hop (h.shows hs) (Kind.atTop_append hvs' below.reverse) id
    exact ⟨t', ht', hs'.raised hshows⟩

end

end Stack

namespace Machine

/-! ## §3. One step. -/

/-- Whether the machine is at an instruction that rotates the stack. -/
def atRotation (m : Machine) : Bool :=
  match m.program.fetch? m.pc with
  | some ix => ix.kind.isRotation
  | none => false

/-- The machine `m'` is `m` on top of other values. -/
def Raised (below : List Numeral) (m m' : Machine) : Prop :=
  ∃ t, Stack.Raised below m.stack t ∧ m' = { m with stack := t }

section

variable {below : List Numeral} {m : Machine} {t : Stack} (h : Stack.Raised below m.stack t)

include h

theorem onStack_raised {k : Kind} {op : Stack → Int → Except Failure Stack}
    (hop : k.operation? = some op) (hk : k.isRotation = false) {next : Int}
    (hgo : (m.onStack next (op m.stack m.pc)).fault = none) :
    Raised below (m.onStack next (op m.stack m.pc))
      ({ m with stack := t }.onStack next (op t m.pc)) := by
  cases hr : op m.stack m.pc with
  | error f =>
      rw [hr] at hgo
      exact absurd hgo (by simp [onStack, fail])
  | ok s' =>
      obtain ⟨t', ht', hraised⟩ := Stack.operation_raised h hop hk hr
      rw [ht']
      exact ⟨t', hraised, rfl⟩

theorem readInput_raised (next : Int) :
    Raised below (m.readInput next) ({ m with stack := t }.readInput next) := by
  unfold readInput
  dsimp only
  rcases m.input.next with ⟨f | token, input⟩
  · exact ⟨t, h, rfl⟩
  · dsimp only
    cases Numeral.ofText m.base token with
    | error f => exact ⟨t, h, rfl⟩
    | ok v => exact ⟨t.push v, h.push v, rfl⟩

theorem writeOutput_raised {next : Int} (hgo : (m.writeOutput next).fault = none) :
    Raised below (m.writeOutput next) ({ m with stack := t }.writeOutput next) := by
  have hs := Stack.shows_values h.valid
  cases hvs : m.stack.values.reverse with
  | nil =>
      rw [hvs] at hs
      rw [writeOutput_empty hs] at hgo
      exact absurd hgo (by simp [fail])
  | cons v vs =>
      rw [hvs] at hs
      obtain ⟨s', hs', hwrite⟩ := writeOutput_top hs next
      obtain ⟨t', ht', hwrite'⟩ := writeOutput_top (m := { m with stack := t }) (h.shows hs) next
      rw [hwrite, hwrite']
      -- the same text goes to the same output
      dsimp only
      cases m.output.write (v.format m.base ++ "\n") with
      | error f => exact ⟨t', hs'.raised ht', rfl⟩
      | ok output => exact ⟨t', hs'.raised ht', rfl⟩

theorem brace_raised {ix : Instr} {test : Numeral → Bool}
    (hgo : (m.brace ix test).fault = none) :
    Raised below (m.brace ix test) ({ m with stack := t }.brace ix test) := by
  have hs := Stack.shows_values h.valid
  cases hvs : m.stack.values.reverse with
  | nil =>
      rw [hvs] at hs
      rw [brace_empty hs] at hgo
      exact absurd hgo (by simp [fail])
  | cons v vs =>
      rw [hvs] at hs
      rw [brace_top hs, brace_top (m := { m with stack := t }) (h.shows hs)]
      exact ⟨t, h, rfl⟩

theorem execute_raised {ix : Instr} (hgo : (m.execute ix).fault = none) :
    Raised below (m.execute ix) ({ m with stack := t }.execute ix) := by
  have hs := Stack.shows_values h.valid
  match hvs : m.stack.values.reverse with
  | [] | [_] | [_, _] | [_, _, _] =>
      rw [hvs] at hs
      rw [execute_short hs (by simp)] at hgo
      exact absurd hgo (by simp [fail])
  | a :: b :: c :: d :: vs =>
      rw [hvs] at hs
      obtain ⟨s', hs', hexec⟩ := execute_four hs ix
      obtain ⟨t', ht', hexec'⟩ := execute_four (m := { m with stack := t }) (h.shows hs) ix
      rw [hexec, hexec']
      cases (spelled [a, b, c, d]).isBrace with
      | true => exact ⟨t', hs'.raised ht', rfl⟩
      | false => exact ⟨t', hs'.raised ht', rfl⟩

end

/-- **No step looks below what it needs**, unless it rotates or fails. -/
theorem step_raised {below : List Numeral} {m m' : Machine} (h : Raised below m m')
    (hrot : m.atRotation = false) (hgo : m.step.fault = none) :
    Raised below m.step m'.step := by
  obtain ⟨t, ht, rfl⟩ := h
  unfold atRotation at hrot
  unfold step at hgo ⊢
  dsimp only
  cases hfetch : m.program.fetch? m.pc with
  | none => exact ⟨t, ht, rfl⟩
  | some ix =>
      rw [hfetch] at hrot hgo
      dsimp only at hrot hgo ⊢
      cases hk : ix.kind <;> rw [hk] at hrot hgo <;> dsimp only at hgo ⊢
      case nop => exact ⟨t, ht, rfl⟩
      case push => exact ⟨t.pushOne, ht.push Numeral.one, rfl⟩
      case unknown code => exact ⟨t, ht, rfl⟩
      case input => exact readInput_raised ht ix.next
      case output => exact writeOutput_raised ht hgo
      case lbrace => exact brace_raised ht hgo
      case rbrace => exact brace_raised ht hgo
      case execute => exact execute_raised ht hgo
      case rot => exact absurd hrot (by decide)
      case rrot => exact absurd hrot (by decide)
      -- the others work on the stack alone
      all_goals exact onStack_raised (k := ix.kind) ht (by rw [hk]; rfl) (by rw [hk]; rfl) hgo

/-! ## §4. Runs. -/

/-- **No run looks below what it needs**, unless it rotates or fails. -/
theorem goOn_raised {below : List Numeral} (n : Nat) :
    ∀ {m m' : Machine}, Raised below m m' → (goOn n m).fault = none →
      (∀ k < n, (goOn k m).alive = true → (goOn k m).atRotation = false) →
      stepCount n m' = stepCount n m ∧ Raised below (goOn n m) (goOn n m') := by
  induction n with
  | zero => exact fun h _ _ => ⟨rfl, h⟩
  | succ n ih =>
      intro m m' h hgo hrot
      have halive : m'.alive = m.alive := by
        obtain ⟨t, _, rfl⟩ := h
        rfl
      cases ha : m.alive with
      | false =>
          rw [ha] at halive
          rw [stepCount_stopped ha, stepCount_stopped halive, goOn_stopped ha, goOn_stopped halive]
          exact ⟨rfl, h⟩
      | true =>
          rw [ha] at halive
          rw [goOn_alive ha] at hgo
          have hstep := step_raised h (hrot 0 (Nat.zero_lt_succ n) ha) (fault_of_goOn hgo)
          have hlater : ∀ k < n, (goOn k m.step).alive = true →
              (goOn k m.step).atRotation = false := by
            intro k hk
            have := hrot (k + 1) (Nat.succ_lt_succ hk)
            rw [goOn_alive ha] at this
            exact this
          obtain ⟨hcount, hraised⟩ := ih hstep hgo hlater
          rw [stepCount_alive ha, stepCount_alive halive, goOn_alive ha, goOn_alive halive, hcount]
          exact ⟨rfl, hraised⟩

/-- **What lies below does not matter.**  A machine with a valid stack runs
for `n` instructions without failing, and none of those it executes rotates
the stack.  Put any values below its stack and let it run again: after each
of these instructions it has executed as many, and it is the same machine but
for the stack, which holds the values of the first run on top of those below.
So it stands at the same instruction of the same program, has read and
written the same, and has not failed. -/
theorem run_raised {m : Machine} (hvalid : m.stack.ring.Valid) {below : List Numeral}
    {t : Stack} (ht : t.ring.Valid) (hvalues : t.values = below ++ m.stack.values) {n : Nat}
    (hfault : (m.run n).2.fault = none)
    (hrot : ∀ k < n, (m.run k).2.alive = true → (m.run k).2.atRotation = false) :
    ∀ k ≤ n, ({ m with stack := t }.run k).1 = (m.run k).1 ∧
      ({ m with stack := t }.run k).2.fault = none ∧
      ∃ t' : Stack, t'.ring.Valid ∧ t'.values = below ++ (m.run k).2.stack.values ∧
        ({ m with stack := t }.run k).2 = { (m.run k).2 with stack := t' } := by
  intro k hk
  -- in the terms of single instructions
  have hgo : (goOn k m).fault = none := by
    have := fault_run_of_le hfault hk
    rw [run_eq] at this
    exact this
  have hrot' : ∀ j < k, (goOn j m).alive = true → (goOn j m).atRotation = false := by
    intro j hj hj'
    have := hrot j (by omega)
    rw [run_eq] at this
    exact this hj'
  have hstart : Raised below m { m with stack := t } := ⟨t, ⟨hvalid, ht, hvalues⟩, rfl⟩
  obtain ⟨hcount, t', hraised, hgoOn⟩ := goOn_raised k hstart hgo hrot'
  rw [run_eq, run_eq m, hcount, hgoOn]
  exact ⟨rfl, hgo, t', hraised.raised_valid, hraised.values, rfl⟩

/-- A number is read, an Execute makes a Dup, and the number is written; a 3
and a 9 below the values do not change that. -/
theorem run_raised_execute :
    ∃ (p : Program) (start : Machine) (es fs : List Event), p.Loaded ∧
      Machine.new p 10 (Tokens.ofBytes [49] none) Sink.unlimited = .ok start ∧
      let m := start.after es
      let t := (start.after fs).stack
      m.stack.values.length = 4 ∧ t.values = [⟨false, [3]⟩, ⟨false, [9]⟩] ++ m.stack.values ∧
      (m.run 4).1 = 4 ∧ (m.run 4).2.program.size = 4 ∧ (m.run 4).2.output.text = "7\n" ∧
      ({ m with stack := t }.run 4).1 = 4 ∧
      ∃ t' : Stack, t'.values = [⟨false, [3]⟩, ⟨false, [9]⟩] ++ (m.run 4).2.stack.values ∧
        ({ m with stack := t }.run 4).2 = { (m.run 4).2 with stack := t' } := by
  let p : Program :=
    #[⟨.input, 0, 1, 1, 0⟩, ⟨.execute, 1, 2, 2, 1⟩, ⟨.output, 2, halt, halt, 2⟩]
  let start : Machine :=
    ⟨p, 0, Stack.new, 0, .ten, Tokens.ofBytes [49] none, Sink.unlimited, none, none⟩
  let digit (d : UInt8) : Event := .push ⟨false, [d]⟩
  let es : List Event := [digit 7, digit 5, digit 1, digit 5]
  let fs : List Event := [digit 3, digit 9, digit 7, digit 5, digit 1, digit 5]
  have hp : p.Loaded :=
    .codes 1 1 none #[⟨97, 97, 97, 98⟩, ⟨97, 98, 99, 97⟩, ⟨97, 98, 98, 98⟩] rfl
  have hstart : Machine.new p 10 (Tokens.ofBytes [49] none) Sink.unlimited = .ok start := rfl
  have hvalid := ((steady_kept p _).after (steady_new hp hstart) es).valid
  have ht := ((steady_kept p _).after (steady_new hp hstart) fs).valid
  have hvalues : (start.after fs).stack.values
      = [⟨false, [3]⟩, ⟨false, [9]⟩] ++ (start.after es).stack.values := by cbv
  have hrot : ∀ k < 4, ((start.after es).run k).2.alive = true →
      ((start.after es).run k).2.atRotation = false := by
    intro k hk _
    obtain rfl | rfl | rfl | rfl : k = 0 ∨ k = 1 ∨ k = 2 ∨ k = 3 := by omega
    all_goals cbv
  obtain ⟨hcount, _, t', _, hvalues', hrun⟩ :=
    run_raised hvalid ht hvalues (by cbv) hrot 4 (Nat.le_refl 4)
  exact ⟨p, start, es, fs, hp, hstart, by cbv, hvalues, by cbv, by cbv, by cbv,
    hcount.trans (by cbv), t', hvalues', hrun⟩

end Machine

end Tetraglyph
