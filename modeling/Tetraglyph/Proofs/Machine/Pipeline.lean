/-
  Tetraglyph.Proofs.Machine.Pipeline
  ──────────────────────────────────
  **WHAT ONE MACHINE WRITES, ANOTHER READS.**

  A machine writes a number on a line of its own, and reads one from a
  token.  A numeral has no white space in it and is not empty, so each line
  is one token; and the token denotes the number that was written.  So the
  output of one machine is an input for another in the same base, which
  reads the same numbers in the same order and then finds no more.

      Program.Row       — instructions of one kind, one behind the other
      Machine.Facing    — a machine that stands in front of such a row

  Main results

      isWord_of_integer?   — what denotes a number is one word
      drain_numerals       — lines of numbers are split into their numerals
      passes_outputs       — a row of Outputs writes the values from the top
      passes_inputs        — a row of Inputs reads the tokens to come
      output_feeds_input   — a row of Inputs reads what Outputs wrote
-/
import Tetraglyph.Proofs.Machine.Faults
import Tetraglyph.Proofs.Machine.Runs
import Tetraglyph.Proofs.Numeral.RoundTrip
import Tetraglyph.Proofs.Tokens

namespace Tetraglyph

/-! ## §1. Numerals are words. -/

namespace Base

theorem digitValue?_plain {c : UInt8} {d : Nat} (h : digitValue? c = some d) : Text.IsPlain c := by
  have hall : ∀ c, (digitValue? c).isSome →
      c < 0x80 ∧ Text.isBlank (Char.ofNat c.toNat) = false :=
    Bytes.forall_byte (by decide +kernel)
  exact hall c (by rw [h]; rfl)

theorem isWord_of_natural? {b : Base} {body : Bytes} {n : Nat} (h : b.natural? body = some n) :
    Text.IsWord body := by
  unfold natural? at h
  split at h
  next => exact absurd h (by simp)
  next hne =>
      obtain ⟨ds, hds, -⟩ := Option.map_eq_some_iff.1 h
      refine ⟨hne, ?_⟩
      clear h hne
      -- each byte is a digit
      induction body generalizing ds with
      | nil => exact fun c hc => absurd hc (by simp)
      | cons c body ih =>
          rw [List.mapM_cons] at hds
          obtain ⟨d, hd, hds⟩ := Option.bind_eq_some_iff.1 hds
          obtain ⟨es, hes, -⟩ := Option.bind_eq_some_iff.1 hds
          exact List.forall_mem_cons.2 ⟨digitValue?_plain (digit?_eq_some.1 hd).1, ih es hes⟩

/-- **What denotes a number is one word.** -/
theorem isWord_of_integer? {b : Base} {w : Bytes} {i : Int} (h : b.integer? w = some i) :
    Text.IsWord w := by
  unfold integer? at h
  split at h
  next body =>
      obtain ⟨n, hn, -⟩ := Option.map_eq_some_iff.1 h
      refine ⟨by simp, List.forall_mem_cons.2 ⟨?_, (isWord_of_natural? hn).2⟩⟩
      exact ⟨by decide, by decide⟩
  next =>
      obtain ⟨n, hn, -⟩ := Option.map_eq_some_iff.1 h
      exact isWord_of_natural? hn

end Base

namespace Numeral

/-- The bytes of a number as it is written. -/
def word (b : Base) (x : Numeral) : Bytes := Bytes.ofText (x.format b)

theorem integer?_word (b : Base) {x : Numeral} (hx : x.WellFormed) :
    b.integer? (x.word b) = some x.toInt := by
  unfold word
  rw [format_eq hx, Base.integer?_numeral]

/-- A number is read back as an equal one. -/
theorem ofText_word (b : Base) {x : Numeral} (hx : x.WellFormed) :
    ∃ y, ofText b (x.word b) = .ok y ∧ y.equal x = true := by
  have hread := ofText_eq b (x.word b)
  rw [integer?_word b hx] at hread
  obtain ⟨y, hy, hcan, hint⟩ := hread
  refine ⟨y, hy, ?_⟩
  rw [equal_eq hcan.wellFormed hx, hint, decide_eq_true rfl]

/-- Numbers, each on a line of its own. -/
def lines (b : Base) (xs : List Numeral) : String :=
  String.join (xs.map fun x => x.format b ++ "\n")

theorem lines_cons (b : Base) (x : Numeral) (xs : List Numeral) :
    lines b (x :: xs) = x.format b ++ "\n" ++ lines b xs := by
  unfold lines
  rw [List.map_cons, String.join_cons]

end Numeral

/-! ## §2. Lines are tokens. -/

namespace Bytes

theorem ofText_append (s t : String) : ofText (s ++ t) = ofText s ++ ofText t := by
  rw [ofText_eq, ofText_eq, ofText_eq, String.toList_append, List.flatMap_append]

theorem ofText_lines (b : Base) (xs : List Numeral) :
    ofText (Numeral.lines b xs) = Tokens.lines (xs.map (Numeral.word b)) := by
  induction xs with
  | nil =>
      show ofText "" = []
      decide +kernel
  | cons x xs ih =>
      have hnewline : ofText "\n" = [10] := by decide +kernel
      rw [Numeral.lines_cons, ofText_append, ofText_append, hnewline, ih]
      rfl

end Bytes

/-- **The lines of numbers are split into their numerals**, and then there is
no more input. -/
theorem Tokens.drain_numerals (b : Base) {xs : List Numeral} (hwf : ∀ x ∈ xs, x.WellFormed)
    (hlen : ∀ x ∈ xs, (x.word b).length < 2 ^ 24 - 3) :
    (ofBytes (Bytes.ofText (Numeral.lines b xs)) none).drain
      = (xs.map (Numeral.word b), .known .endOfInput) := by
  rw [Bytes.ofText_lines]
  refine drain_lines ?_ ?_ (.known .endOfInput)
  · intro w hw
    obtain ⟨x, hx, rfl⟩ := List.mem_map.1 hw
    exact Base.isWord_of_integer? (Numeral.integer?_word b (hwf x hx))
  · intro w hw
    obtain ⟨x, hx, rfl⟩ := List.mem_map.1 hw
    have hlt := hlen x hx
    unfold maxTokenSize
    omega

/-! ## §3. Rows of instructions. -/

/-- There are `n` instructions of kind `k` from index `i` on, each behind the
other, and `j` comes after them. -/
inductive Program.Row (p : Program) (k : Kind) : Nat → Int → Int → Prop where
  | nil (i : Int) : Row p k 0 i i
  | cons {n : Nat} {i j : Int} {ix : Instr} (hix : p.fetch? i = some ix) (hk : ix.kind = k)
      (rest : Row p k n ix.next j) : Row p k (n + 1) i j

/-- A sink that takes everything and keeps it. -/
structure Sink.Keeping (s : Sink) : Prop where
  room : s.room = .unlimited
  keeps : s.keeps = true

theorem Sink.Keeping.write {s : Sink} (h : s.Keeping) (text : String) :
    ∃ t : Sink, s.write text = .ok t ∧ t.Keeping ∧ t.text = s.text ++ text := by
  refine ⟨{ s with written := text :: s.written }, ?_, ⟨h.room, h.keeps⟩, ?_⟩
  · unfold Sink.write
    rw [h.room, h.keeps]
    cases s
    cases h.room
    rfl
  · unfold Sink.text
    rw [List.reverse_cons, String.join_append, String.join_cons, String.join_nil,
      String.append_empty]

namespace Machine

/-- A machine that has not stopped and stands in front of `n` instructions of
kind `k`, with `j` behind them. -/
structure Facing (m : Machine) (k : Kind) (n : Nat) (j : Int) : Prop where
  fault : m.fault = none
  broken : m.broken = none
  row : m.program.Row k n m.pc j

/-- A machine in front of a row executes the first of it. -/
theorem Facing.first {m : Machine} {k : Kind} {n : Nat} {j : Int} (h : m.Facing k (n + 1) j) :
    m.alive = true ∧ ∃ ix, m.program.fetch? m.pc = some ix ∧ ix.kind = k ∧
      m.program.Row k n ix.next j := by
  obtain ⟨hfault, hbroken, hrow⟩ := h
  cases hrow with
  | cons hix hk hrest =>
      refine ⟨?_, _, hix, hk, hrest⟩
      obtain ⟨i, hi, -⟩ := Program.fetch?_eq_some.1 hix
      unfold alive halted
      rw [hfault, hbroken, hi]
      rfl

/-- The machine executes `n` instructions, and is then `m'`. -/
def Passes (m : Machine) (n : Nat) (m' : Machine) : Prop := stepCount n m = n ∧ goOn n m = m'

theorem Passes.step {m m₁ m' : Machine} {n : Nat} (halive : m.alive = true) (hstep : m.step = m₁)
    (h : m₁.Passes n m') : m.Passes (n + 1) m' := by
  refine ⟨?_, ?_⟩
  · rw [stepCount_alive halive, hstep, h.1]
  · rw [goOn_alive halive, hstep, h.2]

theorem Passes.run {m m' : Machine} {n : Nat} (h : m.Passes n m') :
    m.run n = (n, m'.recount (m.steps + UInt64.ofNat n)) := by
  rw [run_eq, h.1, h.2]

/-! ## §4. Writing and reading. -/

/-- **A row of Outputs writes the values from the top**, each on a line. -/
theorem passes_outputs (xs : List Numeral) :
    ∀ {m : Machine} {j : Int}, m.Facing .output xs.length j → m.output.Keeping →
      ∀ {below : List Numeral}, m.stack.Shows (xs ++ below) →
      ∃ stack output, m.Passes xs.length { m with stack, output, pc := j } ∧
        stack.Shows below ∧ output.text = m.output.text ++ Numeral.lines m.base xs := by
  induction xs with
  | nil =>
      intro m j hface _ below hs
      cases hface.row
      exact ⟨m.stack, m.output, ⟨rfl, rfl⟩, hs, String.append_empty.symm⟩
  | cons x xs ih =>
      intro m j hface hout below hs
      obtain ⟨halive, ix, hix, hk, hrest⟩ := hface.first
      obtain ⟨s, hs', hwrite⟩ := writeOutput_top hs ix.next
      obtain ⟨out, hline, hout', htext⟩ := hout.write (x.format m.base ++ "\n")
      rw [hline] at hwrite
      -- what is left is in front of the rest of the row
      obtain ⟨stack, output, hpasses, hshows, hlines⟩ :=
        ih (m := { m with stack := s, output := out, pc := ix.next })
          ⟨hface.fault, hface.broken, hrest⟩ hout' hs'
      refine ⟨stack, output, .step halive ((step_output hix hk).trans hwrite) hpasses, hshows, ?_⟩
      rw [hlines, htext, Numeral.lines_cons, String.append_assoc]

/-- **A row of Inputs reads the tokens to come**, and pushes what they
denote. -/
theorem passes_inputs {b : Base} {ws : List Bytes} {vs : List Numeral}
    (hread : List.Forall₂ (fun w v => Numeral.ofText b w = .ok v) ws vs) :
    ∀ {m : Machine} {j : Int}, m.Facing .input ws.length j → m.base = b →
      ∀ {f : Failure}, m.input.drain = (ws, f) →
      ∀ {below : List Numeral}, m.stack.Shows below →
      ∃ stack input, m.Passes ws.length { m with stack, input, pc := j } ∧
        stack.Shows (vs.reverse ++ below) ∧ input.drain = ([], f) := by
  induction hread with
  | nil =>
      intro m j hface _ f hdrain below hs
      cases hface.row
      exact ⟨m.stack, m.input, ⟨rfl, rfl⟩, hs, hdrain⟩
  | @cons w v ws vs hv _ ih =>
      intro m j hface hbase f hdrain below hs
      obtain ⟨halive, ix, hix, hk, hrest⟩ := hface.first
      obtain ⟨t, hnext, hdrain'⟩ := Tokens.next_of_drain hdrain
      have hpush := readInput_number (congrArg Prod.fst hnext) (hbase ▸ hv) ix.next
      rw [hnext] at hpush
      obtain ⟨stack, input, hpasses, hshows, hempty⟩ :=
        ih (m := { m with input := t, stack := m.stack.push v, pc := ix.next })
          ⟨hface.fault, hface.broken, hrest⟩ hbase hdrain' (hs.push v)
      refine ⟨stack, input, .step halive ((step_input hix hk).trans hpush) hpasses, ?_, hempty⟩
      rw [List.reverse_cons, List.append_assoc]
      exact hshows

/-- Numbers are read back as equal ones. -/
theorem exists_readBack (b : Base) {xs : List Numeral} (hwf : ∀ x ∈ xs, x.WellFormed) :
    ∃ ys, List.Forall₂ (fun w y => Numeral.ofText b w = .ok y) (xs.map (Numeral.word b)) ys ∧
      List.Forall₂ (fun y x => y.equal x = true) ys xs := by
  induction xs with
  | nil => exact ⟨[], .nil, .nil⟩
  | cons x xs ih =>
      obtain ⟨hx, hxs⟩ := List.forall_mem_cons.1 hwf
      obtain ⟨y, hy, heq⟩ := Numeral.ofText_word b hx
      obtain ⟨ys, hys, heqs⟩ := ih hxs
      exact ⟨y :: ys, .cons hy hys, .cons heq heqs⟩

/-- **What Outputs write, Inputs read back.**  In any base, let one machine
have some well-formed numbers on top of its stack and as many Outputs in
front of it, and let another machine have as many Inputs in front of it, and
as its input the bytes that the first one writes.  If the numerals are
shorter than 2^24 - 3 bytes, then the first machine writes each number on a
line of its own, from the top on, and the bytes are split into exactly these
numerals, with the end of the input behind them; and the second machine
pushes equal numbers in the same order.  Both execute all instructions of
their rows without a fault, and no token is left. -/
theorem output_feeds_input {b : Base} {xs : List Numeral} (hwf : ∀ x ∈ xs, x.WellFormed)
    (hlen : ∀ x ∈ xs, (Bytes.ofText (x.format b)).length < 2 ^ 24 - 3)
    {writer reader : Machine} (hwb : writer.base = b) (hrb : reader.base = b)
    (hout : writer.output.Keeping) {below : List Numeral}
    (hstack : writer.stack.Shows (xs ++ below)) (hvalid : reader.stack.ring.Valid) {j k : Int}
    (hwriter : writer.Facing .output xs.length j) (hreader : reader.Facing .input xs.length k)
    {written : String}
    (hwritten : (writer.run xs.length).2.output.text = writer.output.text ++ written)
    (hinput : reader.input = Tokens.ofBytes (Bytes.ofText written) none) :
    ((writer.run xs.length).1 = xs.length ∧ (writer.run xs.length).2.fault = none ∧
      (writer.run xs.length).2.broken = none ∧ (writer.run xs.length).2.pc = j ∧
      (writer.run xs.length).2.stack.Shows below ∧
      written = String.join (xs.map fun x => x.format b ++ "\n")) ∧
    (Tokens.ofBytes (Bytes.ofText written) none).drain
      = (xs.map fun x => Bytes.ofText (x.format b), .known .endOfInput) ∧
    ((reader.run xs.length).1 = xs.length ∧ (reader.run xs.length).2.fault = none ∧
      (reader.run xs.length).2.broken = none ∧ (reader.run xs.length).2.pc = k ∧
      (∃ ys, (reader.run xs.length).2.stack.values = reader.stack.values ++ ys ∧
        List.Forall₂ (fun y x => y.equal x = true) ys xs) ∧
      (reader.run xs.length).2.input.drain = ([], .known .endOfInput)) := by
  -- the writer
  obtain ⟨stack, output, hpasses, hshows, htext⟩ := passes_outputs xs hwriter hout hstack
  have hrun := hpasses.run
  rw [hrun] at hwritten ⊢
  rw [show (recount _ _).output.text = output.text from rfl, htext, hwb,
    String.append_right_inj] at hwritten
  subst hwritten
  -- the tokens
  have hdrain := Tokens.drain_numerals b hwf hlen
  -- the reader
  obtain ⟨ys, hread, heq⟩ := exists_readBack b hwf
  obtain ⟨stack', input, hpasses', hshows', hempty⟩ :=
    passes_inputs hread (by rw [List.length_map]; exact hreader) hrb
      (by rw [hinput]; exact hdrain) (Stack.shows_values hvalid)
  rw [List.length_map] at hpasses'
  rw [hpasses'.run]
  refine ⟨⟨rfl, hwriter.fault, hwriter.broken, rfl, hshows, rfl⟩, hdrain, rfl, hreader.fault,
    hreader.broken, rfl, ⟨ys, ?_, heq⟩, hempty⟩
  show stack'.values = _
  rw [hshows'.values_eq, List.reverse_append, List.reverse_reverse, List.reverse_reverse]

/-- The numbers -255, 0 and 10 in base 16, the 0 as the empty numeral,
written from above a 7 and read onto a 1. -/
theorem output_feeds_input_hexadecimal :
    ∃ writer reader : Machine, writer.base.size = 16 ∧ reader.base.size = 16 ∧
      writer.stack.values = [⟨false, [7]⟩, ⟨false, [0, 1]⟩, Numeral.empty, ⟨true, [5, 5, 2]⟩] ∧
      reader.stack.values = [Numeral.one] ∧
      reader.input = Tokens.ofBytes (Bytes.ofText (writer.run 3).2.output.text) none ∧
      (writer.run 3).2.output.text = "-FF\n0\nA\n" ∧ (reader.run 3).2.fault = none ∧
      (∃ ys, (reader.run 3).2.stack.values = Numeral.one :: ys ∧
        List.Forall₂ (fun y x => y.equal x = true) ys
          [⟨true, [5, 5, 2]⟩, Numeral.empty, ⟨false, [0, 1]⟩]) ∧
      (reader.run 3).2.input.drain = ([], .known .endOfInput) := by
  let b : Base := { size := 16 }
  let xs : List Numeral := [⟨true, [5, 5, 2]⟩, Numeral.empty, ⟨false, [0, 1]⟩]
  let row (k : Kind) : Program := #[⟨k, 0, 1, 1, 0⟩, ⟨k, 1, 2, 2, 1⟩, ⟨k, 2, halt, halt, 2⟩]
  let writer : Machine := ⟨row .output, 0,
    xs.reverse.foldl Stack.push (Stack.new.push ⟨false, [7]⟩), 0, b, Tokens.ofBytes [] none,
    Sink.unlimited, none, none⟩
  let reader : Machine := ⟨row .input, 0, Stack.new.push Numeral.one, 0, b,
    Tokens.ofBytes (Bytes.ofText (writer.run 3).2.output.text) none, Sink.unlimited, none, none⟩
  have hrow : ∀ k, (row k).Row k 3 0 halt := fun k =>
    .cons rfl rfl (.cons rfl rfl (.cons rfl rfl (.nil halt)))
  have hwf : ∀ x ∈ xs, x.WellFormed := by
    intro x hx
    simp only [xs, List.mem_cons, List.not_mem_nil, or_false] at hx
    rcases hx with rfl | rfl | rfl
    · exact .inr (Numeral.canonical_of_getLast? (d := 2) (by simp) rfl (by decide))
    · exact .inl rfl
    · exact .inr (Numeral.canonical_of_getLast? (d := 1) (by simp) rfl (by decide))
  have hlen : ∀ x ∈ xs, (Bytes.ofText (x.format b)).length < 2 ^ 24 - 3 := by decide +kernel
  have hnew : Stack.new.Shows [] := ⟨Ring.valid_withSlots 16, rfl⟩
  have hwb : writer.base = b := rfl
  have hrb : reader.base = b := rfl
  have hnone : writer.output.text = "" := rfl
  have hthree : xs.length = 3 := rfl
  have hwritten : (writer.run xs.length).2.output.text
      = writer.output.text ++ (writer.run 3).2.output.text := by
    rw [hthree, hnone, String.empty_append]
  have hfeeds := output_feeds_input hwf hlen hwb hrb ⟨rfl, rfl⟩
    ((((hnew.push _).push _).push _).push _) (hnew.push _).1 ⟨rfl, rfl, hrow .output⟩
    ⟨rfl, rfl, hrow .input⟩ hwritten rfl
  rw [hthree] at hfeeds
  obtain ⟨⟨_, _, _, _, _, htext⟩, _, _, hfault, _, _, hys, hdrain⟩ := hfeeds
  exact ⟨writer, reader, rfl, rfl, by decide +kernel, by decide +kernel, rfl,
    htext.trans (by decide +kernel), hfault, hys, hdrain⟩

end Machine

end Tetraglyph
