/-
  Tetraglyph.Proofs.Machine.Output
  ────────────────────────────────
  **WHAT WAS WRITTEN STAYS WRITTEN.**

  A step writes one text or none, so the output of a machine only grows.  No
  step looks at what was written before: a machine whose output stands
  BEHIND other texts does what it does without them.

      Sink.Extends   — one sink came of another by writing
      behind         — the same sink, or machine, behind other texts

  Main results

      output_step    — a step writes one text or none
      extends_run    — the output of a run extends the output before it
      step_behind    — no step looks at what was written
      run_behind     — so no run does
-/
import Tetraglyph.Proofs.Machine.Runs

namespace Tetraglyph

/-! ## §1. Sinks. -/

namespace Sink

/-- The sink with other texts in front of what was written, the latest of
them first. -/
def behind (s : Sink) (front : List String) : Sink := { s with written := s.written ++ front }

/-- A write does not look at what was written before. -/
theorem write_behind (s : Sink) (front : List String) (text : String) :
    (s.behind front).write text = (s.write text).map fun t => t.behind front := by
  have hroom : (s.behind front).room = s.room := rfl
  unfold write
  rw [hroom]
  cases s.room.take? text with
  | none => rfl
  | some room => cases hk : s.keeps <;> simp [behind, Except.map, hk]

theorem text_behind (s : Sink) (front : List String) :
    (s.behind front).text = String.join front.reverse ++ s.text := by
  unfold text
  show String.join (s.written ++ front).reverse = _
  rw [List.reverse_append, String.join_append]

/-- The sink `t` came of `s` by writing. -/
structure Extends (s t : Sink) : Prop where
  /-- What was written stays written. -/
  written : ∃ more, t.written = more ++ s.written
  /-- A write that does not fit fails as before. -/
  failure : t.failure = s.failure

theorem Extends.refl (s : Sink) : s.Extends s := ⟨⟨[], rfl⟩, rfl⟩

theorem Extends.trans {s t u : Sink} (hst : s.Extends t) (htu : t.Extends u) : s.Extends u := by
  obtain ⟨more, hmore⟩ := hst.written
  obtain ⟨further, hfurther⟩ := htu.written
  refine ⟨⟨further ++ more, ?_⟩, htu.failure.trans hst.failure⟩
  rw [hfurther, hmore, List.append_assoc]

theorem extends_write {s t : Sink} {text : String} (h : s.write text = .ok t) : s.Extends t := by
  unfold write at h
  split at h
  next room _ =>
      injection h with h
      subst h
      refine ⟨?_, rfl⟩
      cases hk : s.keeps with
      | true => exact ⟨[text], by simp⟩
      | false => exact ⟨[], by simp⟩
  next => exact absurd h (by simp)

theorem write_error {s : Sink} {text : String} {f : Failure} (h : s.write text = .error f) :
    f = s.failure := by
  unfold write at h
  split at h
  next => exact absurd h (by simp)
  next => exact (Except.error.inj h).symm

/-- The text of the larger sink starts with that of the smaller one. -/
theorem Extends.text {s t : Sink} (h : s.Extends t) : ∃ rest, t.text = s.text ++ rest := by
  obtain ⟨more, hmore⟩ := h.written
  refine ⟨String.join more.reverse, ?_⟩
  unfold Sink.text
  rw [hmore, List.reverse_append, String.join_append]

theorem text_write {s t : Sink} (hkeeps : s.keeps = true) {text : String}
    (h : s.write text = .ok t) : t.keeps = true ∧ t.text = s.text ++ text := by
  unfold write at h
  split at h
  next room _ =>
      obtain rfl := Except.ok.inj h
      refine ⟨hkeeps, ?_⟩
      unfold Sink.text
      dsimp only
      rw [if_pos hkeeps, List.reverse_cons, String.join_append, String.join_cons, String.join_nil,
        String.append_empty]
  next => exact absurd h (by simp)

/-- Texts that are written to a sink stand behind each other. -/
theorem text_foldlM {s t : Sink} (hkeeps : s.keeps = true) {texts : List String}
    (h : texts.foldlM Sink.write s = .ok t) : t.text = s.text ++ String.join texts := by
  induction texts generalizing s with
  | nil =>
      obtain rfl : s = t := Except.ok.inj h
      rw [String.join_nil, String.append_empty]
  | cons text texts ih =>
      rw [List.foldlM_cons] at h
      cases hwrite : s.write text with
      | error f =>
          rw [hwrite] at h
          exact absurd h (by simp [bind, Except.bind])
      | ok s₁ =>
          rw [hwrite] at h
          obtain ⟨hkeeps₁, htext⟩ := text_write hkeeps hwrite
          rw [ih hkeeps₁ h, htext, String.join_cons, String.append_assoc]

end Sink

namespace Machine

/-! ## §2. Steps write one text or none. -/

theorem onStack_output (m : Machine) (next : Int) (r : Except Failure Stack) :
    (m.onStack next r).output = m.output := by
  cases r <;> rfl

theorem readInput_output (m : Machine) (next : Int) : (m.readInput next).output = m.output := by
  unfold readInput
  split
  next => rfl
  next => split <;> rfl

theorem writeOutput_output (m : Machine) (next : Int) :
    (m.writeOutput next).output = m.output ∨
      ∃ text, m.output.write text = .ok (m.writeOutput next).output := by
  unfold writeOutput
  split
  next => exact .inl rfl
  next v stack _ =>
      split
      next => exact .inl rfl
      next output hwrite => exact .inr ⟨v.format m.base ++ "\n", hwrite⟩

theorem brace_output (m : Machine) (ix : Instr) (test : Numeral → Bool) :
    (m.brace ix test).output = m.output := by
  unfold brace
  split <;> rfl

theorem execute_output (m : Machine) (ix : Instr) : (m.execute ix).output = m.output := by
  unfold execute
  split
  next => rfl
  next =>
      dsimp only
      split <;> rfl

/-- **A step writes one text or none.** -/
theorem output_step (m : Machine) :
    m.step.output = m.output ∨ ∃ text, m.output.write text = .ok m.step.output := by
  unfold step
  cases m.program.fetch? m.pc with
  | none => exact .inl rfl
  | some ix =>
      dsimp only
      cases ix.kind with
      | nop => exact .inl rfl
      | push => exact .inl rfl
      | unknown code => exact .inl rfl
      | input => exact .inl (readInput_output m ix.next)
      | output => exact writeOutput_output m ix.next
      | lbrace => exact .inl (brace_output m ix _)
      | rbrace => exact .inl (brace_output m ix _)
      | execute => exact .inl (execute_output m ix)
      | _ => exact .inl (onStack_output m ix.next _)

theorem extends_kept (s : Sink) : Kept fun m => s.Extends m.output := by
  refine ⟨?_, fun _ _ h => h, fun _ _ h => h⟩
  intro m h _
  rcases output_step m with hout | ⟨text, hwrite⟩
  · rw [hout]
    exact h
  · exact h.trans (Sink.extends_write hwrite)

/-- **The output of a run extends the output before it.** -/
theorem extends_run (m : Machine) (n : Nat) : m.output.Extends (m.run n).2.output :=
  (extends_kept m.output).occur (Sink.Extends.refl m.output) (.run n)

/-! ## §3. No step looks at what was written. -/

/-- The machine with other texts in front of what it wrote. -/
def behind (m : Machine) (front : List String) : Machine :=
  { m with output := m.output.behind front }

theorem alive_behind (m : Machine) (front : List String) :
    (m.behind front).alive = m.alive := rfl

theorem onStack_behind (m : Machine) (front : List String) (next : Int)
    (r : Except Failure Stack) :
    (m.behind front).onStack next r = (m.onStack next r).behind front := by
  cases r <;> rfl

theorem readInput_behind (m : Machine) (front : List String) (next : Int) :
    (m.behind front).readInput next = (m.readInput next).behind front := by
  rcases h : m.input.next with ⟨f | token, input⟩
  · simp only [readInput, behind, h, fail]
  · cases hv : Numeral.ofText m.base token <;> simp only [readInput, behind, h, hv, fail]

theorem writeOutput_behind (m : Machine) (front : List String) (next : Int) :
    (m.behind front).writeOutput next = (m.writeOutput next).behind front := by
  rcases h : m.stack.take m.pc with f | ⟨v, stack⟩
  · simp only [writeOutput, behind, h, fail]
  · have hwrite := m.output.write_behind front (v.format m.base ++ "\n")
    cases hw : m.output.write (v.format m.base ++ "\n") <;> rw [hw] at hwrite <;>
      simp only [writeOutput, behind, h, hw, hwrite, fail, Except.map]

theorem brace_behind (m : Machine) (front : List String) (ix : Instr) (test : Numeral → Bool) :
    (m.behind front).brace ix test = (m.brace ix test).behind front := by
  cases h : m.stack.top m.pc <;> simp only [brace, behind, h, fail]

theorem execute_behind (m : Machine) (front : List String) (ix : Instr) :
    (m.behind front).execute ix = (m.execute ix).behind front := by
  rcases h : m.stack.takeMany m.pc 4 with f | ⟨vs, stack⟩
  · simp only [execute, behind, h, fail]
  · simp only [execute, behind, h]
    cases (spelled vs).isBrace <;> rfl

/-- **No step looks at what was written.** -/
theorem step_behind (m : Machine) (front : List String) :
    (m.behind front).step = m.step.behind front := by
  have hfetch : (m.behind front).program.fetch? (m.behind front).pc = m.program.fetch? m.pc := rfl
  unfold step
  rw [hfetch]
  cases m.program.fetch? m.pc with
  | none => rfl
  | some ix =>
      dsimp only
      cases ix.kind with
      | nop => rfl
      | push => rfl
      | unknown code => rfl
      | input => exact readInput_behind m front ix.next
      | output => exact writeOutput_behind m front ix.next
      | lbrace => exact brace_behind m front ix _
      | rbrace => exact brace_behind m front ix _
      | execute => exact execute_behind m front ix
      | _ => exact onStack_behind m front ix.next _

theorem stepMany_behind (n done : Nat) (m : Machine) (front : List String) :
    stepMany n done (m.behind front)
      = ((stepMany n done m).1, (stepMany n done m).2.behind front) := by
  induction n generalizing done m with
  | zero => rfl
  | succ n ih =>
      unfold stepMany
      rw [alive_behind, step_behind]
      cases m.alive with
      | true => exact ih (done + 1) m.step
      | false => rfl

/-- **No run looks at what was written.** -/
theorem run_behind (m : Machine) (n : Nat) (front : List String) :
    (m.behind front).run n = ((m.run n).1, (m.run n).2.behind front) := by
  unfold run
  rw [stepMany_behind]
  rfl

/-- Nor does running until the machine stops. -/
theorem runToHalt_behind (done : Option Failure) (limit : Nat) (m : Machine)
    (front : List String) :
    runToHalt done limit (m.behind front)
      = (runToHalt done limit m).map fun r => (r.1, r.2.behind front) := by
  induction limit generalizing m with
  | zero => rfl
  | succ limit ih =>
      unfold runToHalt
      rw [alive_behind, run_behind]
      cases m.alive with
      | false => rfl
      | true =>
          cases done with
          | some f => rfl
          | none => exact ih (m.run batchSize).2

end Machine

end Tetraglyph
