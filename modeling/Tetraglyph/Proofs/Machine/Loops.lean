/-
  Tetraglyph.Proofs.Machine.Loops
  ───────────────────────────────
  **LINKED BRACES ARE LOOPS.**

  A tree (`Tetraglyph.Proofs.Program.Tree`) has a meaning of its own, without
  positions and jumps: plain instructions act on a STORE, the stack, input
  and output, and a loop tests the top of the stack before its body and
  after it.  `Ends` is that meaning; a tree may end, stop with a failure at
  one of its instructions, or do neither.

  A machine works on the flat program instead.  A brace jumps to its partner
  and lets that one test the top again, so the two differ in every pass
  through a loop; they agree on where they end.

  Main results

      ends_reaches     — what the tree says, the machine does
      reaches_ends     — what the machine does, the tree says
      braces_are_loops — a linked program halts, or faults, exactly as its
                         tree ends, or stops
-/
import Tetraglyph.Proofs.Program.Tree
import Tetraglyph.Proofs.Machine.Arena

namespace Tetraglyph

/-! ## §1. Stores and plain instructions. -/

/-- What the instructions of a program work on. -/
structure Store where
  /-- The values. -/
  stack : Stack
  /-- The input. -/
  input : Tokens
  /-- The output. -/
  output : Sink

/-- What comes of a plain instruction. -/
inductive Effect where
  /-- It was executed. -/
  | goes (s : Store)
  /-- It could not be executed. -/
  | stops (f : Failure) (s : Store)

namespace Store

/-- The topmost value. -/
def top? (s : Store) : Option Numeral := s.stack.values.getLast?

/-- The effect of an operation on the stack alone. -/
def onStack (s : Store) : Except Failure Stack → Effect
  | .ok stack => .goes { s with stack }
  | .error f => .stops f s

/-- Reads a token in base `b` and pushes the number. -/
def read (b : Base) (id : Int) (s : Store) : Effect :=
  match s.input.next with
  | (.error f, input) => .stops (.faultFrom .inputNotValidInteger id f) { s with input }
  | (.ok token, input) =>
    match Numeral.ofText b token with
    | .error f => .stops (.faultFrom .inputNotValidInteger id f) { s with input }
    | .ok v => .goes { s with input, stack := s.stack.push v }

/-- Takes the top and writes it in base `b`. -/
def write (b : Base) (id : Int) (s : Store) : Effect :=
  match s.stack.take id with
  | .error f => .stops f s
  | .ok (v, stack) =>
    match s.output.write (v.format b ++ "\n") with
    | .error f => .stops (.within "writing output: " f "") { s with stack }
    | .ok output => .goes { s with stack, output }

/-- What the plain instruction `id` of some kind does; braces, Execute and
unknown kinds are none. -/
def act (b : Base) (id : Int) (s : Store) : Kind → Option Effect
  | .nop => some (.goes s)
  | .input => some (s.read b id)
  | .rot => some (s.onStack (s.stack.rotate id))
  | .swap => some (s.onStack (s.stack.swap id))
  | .push => some (.goes { s with stack := s.stack.pushOne })
  | .rrot => some (s.onStack (s.stack.reverseRotate id))
  | .dup => some (s.onStack (s.stack.dup id))
  | .add => some (s.onStack (s.stack.add id))
  | .output => some (s.write b id)
  | .multiply => some (s.onStack (s.stack.multiply id))
  | .negate => some (s.onStack (s.stack.negate id))
  | .pop => some (s.onStack (s.stack.pop id))
  | .lbrace | .rbrace | .execute | .unknown _ => none

end Store

/-! ## §2. The meaning of a tree. -/

/-- How a tree can end. -/
inductive Outcome where
  /-- Behind its last instruction. -/
  | ended (s : Store)
  /-- With a failure of the instruction `id`. -/
  | faulted (f : Failure) (id : Nat) (s : Store)

/-- What is to be done: a tree, or the body of a loop once more and then what
is behind the loop. -/
inductive Work where
  | tree (t : Tree)
  | again (l : Nat) (body : Tree) (r : Nat) (rest : Tree)

/-- **The meaning of trees.**  A loop is skipped if the top is 0.  Else its
body is run; after it the loop is left if the top is 0, and else its body is
run again.  Both tests fail on an empty stack. -/
inductive Ends (b : Base) : Work → Store → Outcome → Prop where
  | done {s : Store} : Ends b (.tree .done) s (.ended s)
  | plain {id : Nat} {k : Kind} {rest : Tree} {s s' : Store} {o : Outcome}
      (hact : s.act b id k = some (.goes s')) (hrest : Ends b (.tree rest) s' o) :
      Ends b (.tree (.plain id k rest)) s o
  | plainStops {id : Nat} {k : Kind} {rest : Tree} {s s' : Store} {f : Failure}
      (hact : s.act b id k = some (.stops f s')) :
      Ends b (.tree (.plain id k rest)) s (.faulted f id s')
  | openEmpty {l : Nat} {body : Tree} {r : Nat} {rest : Tree} {s : Store} (htop : s.top? = none) :
      Ends b (.tree (.loop l body r rest)) s (.faulted (.fault .emptyStack l) l s)
  | skip {l : Nat} {body : Tree} {r : Nat} {rest : Tree} {s : Store} {v : Numeral} {o : Outcome}
      (htop : s.top? = some v) (hzero : v.isZero = true) (hrest : Ends b (.tree rest) s o) :
      Ends b (.tree (.loop l body r rest)) s o
  | enter {l : Nat} {body : Tree} {r : Nat} {rest : Tree} {s : Store} {v : Numeral} {o : Outcome}
      (htop : s.top? = some v) (hzero : v.isZero = false)
      (hagain : Ends b (.again l body r rest) s o) :
      Ends b (.tree (.loop l body r rest)) s o
  | bodyStops {l : Nat} {body : Tree} {r : Nat} {rest : Tree} {s s' : Store} {f : Failure}
      {id : Nat} (hbody : Ends b (.tree body) s (.faulted f id s')) :
      Ends b (.again l body r rest) s (.faulted f id s')
  | closeEmpty {l : Nat} {body : Tree} {r : Nat} {rest : Tree} {s s' : Store}
      (hbody : Ends b (.tree body) s (.ended s')) (htop : s'.top? = none) :
      Ends b (.again l body r rest) s (.faulted (.fault .emptyStack r) r s')
  | leave {l : Nat} {body : Tree} {r : Nat} {rest : Tree} {s s' : Store} {v : Numeral}
      {o : Outcome} (hbody : Ends b (.tree body) s (.ended s')) (htop : s'.top? = some v)
      (hzero : v.isZero = true) (hrest : Ends b (.tree rest) s' o) :
      Ends b (.again l body r rest) s o
  | repeats {l : Nat} {body : Tree} {r : Nat} {rest : Tree} {s s' : Store} {v : Numeral}
      {o : Outcome} (hbody : Ends b (.tree body) s (.ended s')) (htop : s'.top? = some v)
      (hzero : v.isZero = false) (hagain : Ends b (.again l body r rest) s' o) :
      Ends b (.again l body r rest) s o

/-! ## §3. Failures name their instruction. -/

/-- Errors which name the instruction `id`. -/
def Names {α : Type} (id : Int) (r : Except Failure α) : Prop :=
  ∀ f, r = .error f → ∃ k, f.fault? = some (k, id)

theorem Names.map {α β : Type} {id : Int} {r : Except Failure α} (h : Names id r) (g : α → β) :
    Names id (r.map g) := by
  intro f hf
  cases r with
  | error f' =>
      rw [show f = f' from (Except.error.inj hf).symm]
      exact h f' rfl
  | ok a => exact absurd hf (by simp [Except.map])

theorem Names.bind {α β : Type} {id : Int} {r : Except Failure α} {g : α → Except Failure β}
    (h : Names id r) (hg : ∀ a, Names id (g a)) : Names id (r >>= g) := by
  intro f hf
  cases r with
  | error f' =>
      rw [show f = f' from (Except.error.inj hf).symm]
      exact h f' rfl
  | ok a => exact hg a f hf

theorem names_error {α : Type} {id : Int} {f : Failure} (h : ∃ k, f.fault? = some (k, id)) :
    Names id (Except.error f : Except Failure α) := by
  intro f' hf
  rw [← Except.error.inj hf]
  exact h

theorem names_ok {α : Type} (id : Int) (a : α) : Names id (.ok a) := fun _ hf => by cases hf

theorem names_shortage {α : Type} (id : Int) (n : Nat) :
    Names id (Except.error (Stack.shortage id n) : Except Failure α) := by
  apply names_error
  unfold Stack.shortage
  split
  · exact ⟨_, rfl⟩
  · exact ⟨_, rfl⟩

theorem names_take (s : Stack) (id : Int) : Names id (s.take id) := by
  unfold Stack.take
  split
  · exact names_ok id _
  · exact names_shortage id 1

theorem names_top (s : Stack) (id : Int) : Names id (s.top id) := by
  unfold Stack.top
  split
  · exact names_shortage id 1
  · exact names_ok id _

theorem names_reverseRotate (s : Stack) (id : Int) : Names id (s.reverseRotate id) := by
  unfold Stack.reverseRotate
  split
  · exact names_ok id _
  · exact names_shortage id 1

theorem names_swap (s : Stack) (id : Int) : Names id (s.swap id) := by
  unfold Stack.swap
  split
  · exact names_shortage id 2
  · exact names_ok id _

theorem names_combine (s : Stack) (id : Int) (g : Numeral → Numeral → Numeral) :
    Names id (s.combine id g) := by
  unfold Stack.combine
  split
  · exact names_shortage id 2
  · exact (names_take s id).bind fun a => (names_take a.2 id).bind fun b => names_ok id _

/-- The output takes anything still, or the failure names the instruction. -/
def Effect.Orderly (id : Int) : Effect → Prop
  | .goes s => s.output.room = .unlimited
  | .stops f _ => ∃ k, f.fault? = some (k, id)

theorem Store.orderly_onStack {s : Store} (hroom : s.output.room = .unlimited) {id : Int}
    {r : Except Failure Stack} (h : Names id r) : (s.onStack r).Orderly id := by
  cases r with
  | error f => exact h f rfl
  | ok stack => exact hroom

theorem Store.orderly_read {s : Store} (hroom : s.output.room = .unlimited) (b : Base) (id : Int) :
    (s.read b id).Orderly id := by
  unfold Store.read
  split
  · exact ⟨_, rfl⟩
  · split
    · exact ⟨_, rfl⟩
    · exact hroom

/-- An output without limit takes every text. -/
theorem Sink.write_unlimited {o : Sink} (hroom : o.room = .unlimited) (text : String) :
    ∃ o', o.write text = .ok o' ∧ o'.room = .unlimited := by
  unfold Sink.write
  rw [hroom]
  exact ⟨_, rfl, rfl⟩

theorem Store.orderly_write {s : Store} (hroom : s.output.room = .unlimited) (b : Base)
    (id : Int) : (s.write b id).Orderly id := by
  unfold Store.write
  split
  next f hf => exact names_take s.stack id f hf
  next v stack _ =>
      obtain ⟨o, ho, hroom'⟩ := Sink.write_unlimited hroom (v.format b ++ "\n")
      rw [ho]
      exact hroom'

/-- **Plain instructions are orderly**: none fails for its output. -/
theorem Store.orderly_act {s : Store} (hroom : s.output.room = .unlimited) {b : Base} {id : Int}
    {k : Kind} {eff : Effect} (h : s.act b id k = some eff) : eff.Orderly id := by
  cases k <;> simp only [Store.act, Option.some.injEq, reduceCtorEq] at h <;> subst h
  case nop => exact hroom
  case push => exact hroom
  case input => exact orderly_read hroom b id
  case output => exact orderly_write hroom b id
  case rot => exact orderly_onStack hroom ((names_take s.stack id).map _)
  case swap => exact orderly_onStack hroom (names_swap s.stack id)
  case rrot => exact orderly_onStack hroom (names_reverseRotate s.stack id)
  case dup => exact orderly_onStack hroom ((names_top s.stack id).map _)
  case add => exact orderly_onStack hroom (names_combine s.stack id _)
  case multiply => exact orderly_onStack hroom (names_combine s.stack id _)
  case negate => exact orderly_onStack hroom ((names_top s.stack id).map _)
  case pop => exact orderly_onStack hroom ((names_take s.stack id).map _)

/-- How a tree ends if its output never fails. -/
def Outcome.Orderly : Outcome → Prop
  | .ended s => s.output.room = .unlimited
  | .faulted f id _ => ∃ k, f.fault? = some (k, (id : Int))

/-- **A tree is orderly**: what stops it is a fault of one of its
instructions. -/
theorem Ends.orderly {b : Base} {w : Work} {s : Store} {o : Outcome} (h : Ends b w s o) :
    s.output.room = .unlimited → o.Orderly := by
  induction h with
  | done => exact id
  | plain hact _ ih => exact fun hroom => ih (Store.orderly_act hroom hact)
  | plainStops hact => exact fun hroom => Store.orderly_act hroom hact
  | openEmpty => exact fun _ => ⟨_, rfl⟩
  | skip _ _ _ ih => exact ih
  | enter _ _ _ ih => exact ih
  | bodyStops _ ih => exact ih
  | closeEmpty => exact fun _ => ⟨_, rfl⟩
  | leave _ _ _ _ ihbody ihrest => exact fun hroom => ihrest (ihbody hroom)
  | repeats _ _ _ _ ihbody ihagain => exact fun hroom => ihagain (ihbody hroom)

namespace Machine

/-! ## §4. Single steps of the machine. -/

/-- What the instructions of a machine work on. -/
def store (m : Machine) : Store := ⟨m.stack, m.input, m.output⟩

/-- The machine somewhere else, with another store. -/
def place (m : Machine) (pc : Int) (s : Store) : Machine :=
  { m with pc, stack := s.stack, input := s.input, output := s.output }

/-- A machine that nothing has stopped. -/
def Fresh (m : Machine) : Prop := m.fault = none ∧ m.broken = none

theorem alive_place {m : Machine} (h : m.Fresh) (id : Nat) (s : Store) :
    (m.place (id : Int) s).alive = true := by
  have hpc : ((id : Int) == halt) = false := by
    rw [beq_eq_false_iff_ne]
    intro hid
    have : (id : Int) = -1 := hid
    omega
  show (!((id : Int) == halt) && m.fault.isNone && m.broken.isNone) = true
  rw [hpc, h.1, h.2]
  rfl

theorem alive_place_halt (m : Machine) (s : Store) : (m.place halt s).alive = false := rfl

/-- The top of the stack, as an operation and as the last of the values. -/
theorem top_eq (s : Store) (id : Int) :
    s.stack.top id = match s.top? with
      | none => .error (.fault .emptyStack id)
      | some v => .ok v := by
  -- both read the last place of the buffer
  unfold Stack.top Store.top? Stack.values Ring.toList Stack.size
  cases hc : s.stack.ring.count with
  | zero => rfl
  | succ n => simp [List.range_succ]

/-- The machine after an effect of the instruction `id`, which leads to
`next`. -/
def settle (m : Machine) (id : Nat) (next : Int) : Effect → Machine
  | .goes s => m.place next s
  | .stops f s => (m.place id s).fail f

theorem onStack_place (m : Machine) (id : Nat) (next : Int) (s : Store)
    (r : Except Failure Stack) :
    (m.place id s).onStack next r = m.settle id next (s.onStack r) := by
  cases r <;> rfl

theorem readInput_place (m : Machine) (id : Nat) (next : Int) (s : Store) :
    (m.place id s).readInput next = m.settle id next (s.read m.base id) := by
  unfold readInput Store.read
  show (match s.input.next with | (.error f, input) => _ | (.ok token, input) => _) = _
  rcases s.input.next with ⟨f | token, input⟩
  · rfl
  · show (match Numeral.ofText m.base token with | .error f => _ | .ok v => _)
      = m.settle id next (match Numeral.ofText m.base token with | .error f => _ | .ok v => _)
    cases Numeral.ofText m.base token <;> rfl

theorem writeOutput_place (m : Machine) (id : Nat) (next : Int) (s : Store) :
    (m.place id s).writeOutput next = m.settle id next (s.write m.base id) := by
  unfold writeOutput Store.write
  show (match s.stack.take id with | .error f => _ | .ok (v, stack) => _)
    = m.settle id next (match s.stack.take id with | .error f => _ | .ok (v, stack) => _)
  rcases s.stack.take id with f | ⟨v, stack⟩
  · rfl
  · show (match s.output.write (v.format m.base ++ "\n") with | .error f => _ | .ok output => _)
      = m.settle id next
          (match s.output.write (v.format m.base ++ "\n") with | .error f => _ | .ok output => _)
    cases s.output.write (v.format m.base ++ "\n") <;> rfl

theorem fetch_place {m : Machine} {id : Nat} {ix : Instr} (hix : m.program[id]? = some ix)
    (s : Store) : (m.place id s).program.fetch? (m.place id s).pc = some ix :=
  Program.fetch?_eq_some.2 ⟨id, rfl, hix⟩

/-- **A plain instruction acts on the store**, and the machine goes on behind
it. -/
theorem step_plain {m : Machine} {id : Nat} {ix : Instr} (hix : m.program[id]? = some ix)
    (hb : ix.kind.isBrace = false) (hx : ix.kind ≠ .execute) (s : Store) :
    match s.act m.base id ix.kind with
    | some eff => (m.place id s).step = m.settle id ix.next eff
    | none => ∃ e, (m.place id s).step = (m.place id s).breakDown e := by
  unfold step
  rw [fetch_place hix s]
  dsimp only
  cases hk : ix.kind <;> rw [hk] at hb hx <;> simp only [Store.act]
  -- neither a brace nor an Execute is plain
  case lbrace => exact absurd hb (by decide)
  case rbrace => exact absurd hb (by decide)
  case execute => exact absurd rfl hx
  case nop => rfl
  case push => rfl
  case unknown code => exact ⟨_, rfl⟩
  case input => exact readInput_place m id ix.next s
  case output => exact writeOutput_place m id ix.next s
  all_goals exact onStack_place m id ix.next s _

/-- A brace looks at the top and goes on, jumps, or fails. -/
theorem brace_place (m : Machine) (id : Nat) (ix : Instr) (test : Numeral → Bool) (s : Store) :
    (m.place id s).brace ix test
      = match s.top? with
        | none => (m.place id s).fail (.fault .emptyStack id)
        | some v => m.place (if test v then ix.jump else ix.next) s := by
  unfold brace
  show (match s.stack.top id with | .error f => _ | .ok v => _) = _
  rw [top_eq]
  cases s.top? <;> rfl

theorem step_lbrace {m : Machine} {id : Nat} {ix : Instr} (hix : m.program[id]? = some ix)
    (hk : ix.kind = .lbrace) (s : Store) :
    (m.place id s).step
      = match s.top? with
        | none => (m.place id s).fail (.fault .emptyStack id)
        | some v => m.place (if v.isZero then ix.jump else ix.next) s := by
  unfold step
  rw [fetch_place hix s]
  dsimp only
  rw [hk]
  exact brace_place m id ix Numeral.isZero s

theorem step_rbrace {m : Machine} {id : Nat} {ix : Instr} (hix : m.program[id]? = some ix)
    (hk : ix.kind = .rbrace) (s : Store) :
    (m.place id s).step
      = match s.top? with
        | none => (m.place id s).fail (.fault .emptyStack id)
        | some v => m.place (if v.isZero then ix.next else ix.jump) s := by
  unfold step
  rw [fetch_place hix s]
  dsimp only
  rw [hk]
  -- the test of a closing brace is the other way round
  refine (brace_place m id ix (fun v => !v.isZero) s).trans ?_
  cases s.top? with
  | none => rfl
  | some v => cases hz : v.isZero <;> simp [hz]

/-! ## §5. What the tree says, the machine does. -/

/-- The machine comes to another state by going on. -/
def Reaches (m m' : Machine) : Prop := ∃ n, goOn n m = m'

theorem Reaches.refl (m : Machine) : Reaches m m := ⟨0, rfl⟩

theorem Reaches.trans {m₁ m₂ m₃ : Machine} (h : Reaches m₁ m₂) (h' : Reaches m₂ m₃) :
    Reaches m₁ m₃ := by
  obtain ⟨a, ha⟩ := h
  obtain ⟨b, hb⟩ := h'
  exact ⟨a + b, by rw [goOn_add, ha, hb]⟩

/-- One step in front. -/
theorem Reaches.step {m : Machine} (hm : m.Fresh) {id : Nat} {s : Store} {m₁ m₂ : Machine}
    (hstep : (m.place id s).step = m₁) (h : Reaches m₁ m₂) : Reaches (m.place id s) m₂ := by
  obtain ⟨n, hn⟩ := h
  exact ⟨n + 1, by rw [goOn_alive (alive_place hm id s), hstep, hn]⟩

/-- The machine after a tree that leads to `x`. -/
def finish (m : Machine) (x : Int) : Outcome → Machine
  | .ended s => m.place x s
  | .faulted f id s => (m.place id s).fail f

/-- What is to be done stands in the program, from `e` on and to `x`. -/
def WorkFits (p : Program) : Work → Int → Int → Prop
  | .tree t, e, x => t.Fits p e x
  | .again l body r rest, e, x =>
    (Tree.loop l body r rest).Fits p (l : Int) x ∧ (p.instr l).next = e

/-- **What the tree says, the machine does.** -/
theorem ends_reaches {m : Machine} (hm : m.Fresh)
    (hx : ∀ (i : Nat) (ix : Instr), m.program[i]? = some ix → ix.kind ≠ .execute) {w : Work}
    {s : Store} {o : Outcome} (h : Ends m.base w s o) :
    ∀ {e x : Int}, WorkFits m.program w e x → Reaches (m.place e s) (m.finish x o) := by
  induction h with
  | done =>
      intro e x hfits
      rw [show e = x from hfits]
      exact Reaches.refl _
  | @plain id k rest s s' o hact _ ih =>
      intro e x ⟨he, hb, ix, hix, hk, hrest⟩
      subst he hk
      have hstep := step_plain hix hb (hx id ix hix) s
      rw [hact] at hstep
      exact Reaches.step hm hstep (ih hrest)
  | @plainStops id k rest s s' f hact =>
      intro e x ⟨he, hb, ix, hix, hk, _⟩
      subst he hk
      have hstep := step_plain hix hb (hx id ix hix) s
      rw [hact] at hstep
      exact Reaches.step hm hstep (Reaches.refl _)
  | @openEmpty l body r rest s htop =>
      intro e x ⟨he, lx, rx, hlx, hkl, _⟩
      subst he
      have hstep := step_lbrace hlx hkl s
      rw [htop] at hstep
      exact Reaches.step hm hstep (Reaches.refl _)
  | @skip l body r rest s v o htop hzero _ ih =>
      intro e x ⟨he, lx, rx, hlx, hkl, hjl, hrx, hkr, hjr, _, hrest⟩
      subst he
      -- the opening brace jumps to its partner, which looks at the same top
      have hopen := step_lbrace hlx hkl s
      have hclose := step_rbrace hrx hkr s
      rw [htop] at hopen hclose
      simp only [hzero, if_true] at hopen hclose
      rw [hjl] at hopen
      exact Reaches.step hm hopen (Reaches.step hm hclose (ih hrest))
  | @enter l body r rest s v o htop hzero _ ih =>
      intro e x hfits
      have ⟨he, lx, rx, hlx, hkl, _⟩ := hfits
      subst he
      have hopen := step_lbrace hlx hkl s
      rw [htop] at hopen
      simp only [hzero, Bool.false_eq_true, if_false] at hopen
      refine Reaches.step hm hopen (ih ⟨hfits, ?_⟩)
      rw [Program.instr_of_getElem? hlx]
  | @bodyStops l body r rest s s' f id _ ih =>
      intro e x ⟨⟨_, lx, rx, hlx, _, _, _, _, _, hbody, _⟩, he⟩
      rw [Program.instr_of_getElem? hlx] at he
      subst he
      -- where the loop leads does not matter to a failure inside it
      exact @ih lx.next (r : Int) hbody
  | @closeEmpty l body r rest s s' _ htop ih =>
      -- the body leads to the closing brace, which finds nothing to test
      intro e x ⟨⟨_, lx, rx, hlx, _, _, hrx, hkr, _, hbody, _⟩, he⟩
      rw [Program.instr_of_getElem? hlx] at he
      subst he
      have hclose := step_rbrace hrx hkr s'
      rw [htop] at hclose
      exact (ih hbody).trans (Reaches.step hm hclose (Reaches.refl _))
  | @leave l body r rest s s' v o _ htop hzero _ ihbody ihrest =>
      intro e x ⟨⟨_, lx, rx, hlx, _, _, hrx, hkr, _, hbody, hrest⟩, he⟩
      rw [Program.instr_of_getElem? hlx] at he
      subst he
      have hclose := step_rbrace hrx hkr s'
      rw [htop] at hclose
      simp only [hzero, if_true] at hclose
      exact (ihbody hbody).trans (Reaches.step hm hclose (ihrest hrest))
  | @repeats l body r rest s s' v o _ htop hzero _ ihbody ihagain =>
      intro e x ⟨hloop, he⟩
      have ⟨_, lx, rx, hlx, hkl, _, hrx, hkr, hjr, hbody, _⟩ := hloop
      have hnext := Program.instr_of_getElem? hlx
      rw [hnext] at he
      subst he
      -- the closing brace jumps back, and the opening one lets pass
      have hclose := step_rbrace hrx hkr s'
      have hopen := step_lbrace hlx hkl s'
      rw [htop] at hclose hopen
      simp only [hzero, Bool.false_eq_true, if_false] at hclose hopen
      rw [hjr] at hclose
      refine (ihbody hbody).trans (Reaches.step hm hclose (Reaches.step hm hopen ?_))
      exact ihagain ⟨hloop, by rw [hnext]⟩

/-! ## §6. What the machine does, the tree says. -/

/-- What the tree says of a machine that stopped as `d`, after at most `n`
instructions: it ended and led to `x` with no more than these to come, it
stopped with that failure, or there was an instruction of no known kind. -/
def Told (m : Machine) (n : Nat) (w : Work) (s : Store) (x : Int) (d : Machine) : Prop :=
  (∃ s' k, k ≤ n ∧ Ends m.base w s (.ended s') ∧ goOn k (m.place x s') = d) ∨
  (∃ f id s', Ends m.base w s (.faulted f id s') ∧ d = (m.place (id : Nat) s').fail f) ∨
  (∃ (id : Nat) (s' : Store) (e : Misuse), d = (m.place id s').breakDown e)

/-- What the tree says of the work behind is what it says of the whole. -/
theorem Told.map {m : Machine} {k n : Nat} {w w' : Work} {s s' : Store} {x : Int} {d : Machine}
    (hle : k ≤ n) (hends : ∀ o, Ends m.base w s o → Ends m.base w' s' o)
    (h : Told m k w s x d) : Told m n w' s' x d := by
  rcases h with ⟨t, j, hj, he, hd⟩ | ⟨f, id, t, he, hd⟩ | hbroken
  · exact .inl ⟨t, j, Nat.le_trans hj hle, hends _ he, hd⟩
  · exact .inr (.inl ⟨f, id, t, hends _ he, hd⟩)
  · exact .inr (.inr hbroken)

/-- A machine at an instruction needs a step to stop. -/
theorem goOn_pos {m : Machine} (hm : m.Fresh) {n id : Nat} {s : Store} {d : Machine}
    (hgo : goOn n (m.place id s) = d) (hd : d.alive = false) :
    ∃ k, n = k + 1 ∧ goOn k (m.place id s).step = d := by
  have halive := alive_place hm id s
  cases n with
  | zero =>
      have hgo : m.place id s = d := hgo
      rw [hgo, hd] at halive
      exact absurd halive (by decide)
  | succ k => exact ⟨k, rfl, by rw [← goOn_alive halive, hgo]⟩

theorem alive_fail (m : Machine) (f : Failure) : (m.fail f).alive = false := by
  show (!m.halted && false && m.broken.isNone) = false
  rw [Bool.and_false, Bool.false_and]

theorem alive_breakDown (m : Machine) (e : Misuse) : (m.breakDown e).alive = false := by
  show (!m.halted && m.fault.isNone && false) = false
  rw [Bool.and_false]

/-- What holds of fewer instructions tells of a tree. -/
theorem told_tree {m : Machine} (hm : m.Fresh)
    (hx : ∀ (i : Nat) (ix : Instr), m.program[i]? = some ix → ix.kind ≠ .execute) {n : Nat}
    (ih : ∀ k < n, ∀ {w : Work} {e x : Int} {s : Store} {d : Machine},
      WorkFits m.program w e x → goOn k (m.place e s) = d → d.alive = false → Told m k w s x d)
    {t : Tree} {e x : Int} {s : Store} {d : Machine} (hfits : t.Fits m.program e x)
    (hgo : goOn n (m.place e s) = d) (hd : d.alive = false) : Told m n (.tree t) s x d := by
  cases t with
  | done =>
      rw [show e = x from hfits] at hgo
      exact .inl ⟨s, n, Nat.le_refl n, .done, hgo⟩
  | plain id k rest =>
      obtain ⟨rfl, hb, ix, hix, rfl, hrest⟩ := hfits
      obtain ⟨j, rfl, hrun⟩ := goOn_pos hm hgo hd
      have hstep := step_plain hix hb (hx id ix hix) s
      cases hact : s.act m.base id ix.kind with
      | none =>
          -- a kind without a meaning
          rw [hact] at hstep
          obtain ⟨e, hstep⟩ := hstep
          rw [hstep, goOn_stopped (alive_breakDown _ _)] at hrun
          exact .inr (.inr ⟨id, s, e, hrun.symm⟩)
      | some eff =>
          rw [hact] at hstep
          have hstep : (m.place id s).step = m.settle id ix.next eff := hstep
          rw [hstep] at hrun
          cases eff with
          | goes s' =>
              have := ih j (Nat.lt_succ_self j) (w := .tree rest) hrest hrun hd
              exact this.map (Nat.le_succ j) fun o ho => .plain hact ho
          | stops f s' =>
              have hrun : goOn j ((m.place id s').fail f) = d := hrun
              rw [goOn_stopped (alive_fail _ _)] at hrun
              exact .inr (.inl ⟨f, id, s', .plainStops hact, hrun.symm⟩)
  | loop l body r rest =>
      have hloop := hfits
      obtain ⟨rfl, lx, rx, hlx, hkl, hjl, hrx, hkr, hjr, hbody, hrest⟩ := hfits
      obtain ⟨j, rfl, hrun⟩ := goOn_pos hm hgo hd
      rw [step_lbrace hlx hkl s] at hrun
      cases htop : s.top? with
      | none =>
          rw [htop, goOn_stopped (alive_fail _ _)] at hrun
          exact .inr (.inl ⟨_, l, s, .openEmpty htop, hrun.symm⟩)
      | some v =>
          simp only [htop] at hrun
          cases hzero : v.isZero with
          | true =>
              -- the closing brace looks at the same top
              rw [hzero, if_pos rfl, hjl] at hrun
              obtain ⟨i, rfl, hback⟩ := goOn_pos hm hrun hd
              rw [step_rbrace hrx hkr s] at hback
              simp only [htop, hzero, if_true] at hback
              have := ih i (by omega) (w := .tree rest) hrest hback hd
              exact this.map (by omega) fun o ho => .skip htop hzero ho
          | false =>
              rw [hzero, if_neg (by decide)] at hrun
              have hwork : WorkFits m.program (.again l body r rest) lx.next x :=
                ⟨hloop, by rw [Program.instr_of_getElem? hlx]⟩
              have := ih j (Nat.lt_succ_self j) hwork hrun hd
              exact this.map (Nat.le_succ j) fun o ho => .enter htop hzero ho

/-- And the tree of a body tells of its loop. -/
theorem told_again {m : Machine} (hm : m.Fresh) {n : Nat}
    (ih : ∀ k < n, ∀ {w : Work} {e x : Int} {s : Store} {d : Machine},
      WorkFits m.program w e x → goOn k (m.place e s) = d → d.alive = false → Told m k w s x d)
    {l : Nat} {body : Tree} {r : Nat} {rest : Tree} {e x : Int} {s : Store} {d : Machine}
    (hfits : WorkFits m.program (.again l body r rest) e x) (hd : d.alive = false)
    (htold : Told m n (.tree body) s (r : Int) d) : Told m n (.again l body r rest) s x d := by
  obtain ⟨hloop, he⟩ := hfits
  have ⟨_, lx, rx, hlx, hkl, _, hrx, hkr, hjr, _, hrest⟩ := hloop
  rcases htold with ⟨s', k, hk, hends, hgo⟩ | ⟨f, id, s', hends, hdead⟩ | hbroken
  · -- the body ended, and the closing brace takes at least one of the steps left
    obtain ⟨j, rfl, hrun⟩ := goOn_pos hm hgo hd
    rw [step_rbrace hrx hkr s'] at hrun
    cases htop : s'.top? with
    | none =>
        rw [htop, goOn_stopped (alive_fail _ _)] at hrun
        exact .inr (.inl ⟨_, r, s', .closeEmpty hends htop, hrun.symm⟩)
    | some v =>
        simp only [htop] at hrun
        cases hzero : v.isZero with
        | true =>
            rw [hzero, if_pos rfl] at hrun
            have := ih j (by omega) (w := .tree rest) hrest hrun hd
            exact this.map (by omega) fun o ho => .leave hends htop hzero ho
        | false =>
            -- back to the opening brace, which looks at the same top
            rw [hzero, if_neg (by decide), hjr] at hrun
            obtain ⟨i, rfl, hback⟩ := goOn_pos hm hrun hd
            rw [step_lbrace hlx hkl s'] at hback
            simp only [htop, hzero, Bool.false_eq_true, if_false] at hback
            have hwork : WorkFits m.program (.again l body r rest) lx.next x :=
              ⟨hloop, by rw [Program.instr_of_getElem? hlx]⟩
            have := ih i (by omega) hwork hback hd
            exact this.map (by omega) fun o ho => .repeats hends htop hzero ho
  · exact .inr (.inl ⟨f, id, s', .bodyStops hends, hdead⟩)
  · exact .inr (.inr hbroken)

/-- **What the machine does, the tree says.** -/
theorem reaches_ends {m : Machine} (hm : m.Fresh)
    (hx : ∀ (i : Nat) (ix : Instr), m.program[i]? = some ix → ix.kind ≠ .execute) (n : Nat) :
    ∀ {w : Work} {e x : Int} {s : Store} {d : Machine}, WorkFits m.program w e x →
      goOn n (m.place e s) = d → d.alive = false → Told m n w s x d := by
  induction n using Nat.strongRecOn with
  | ind n ih =>
      intro w e x s d hfits hgo hd
      cases w with
      | tree t => exact told_tree hm hx ih hfits hgo hd
      | again l body r rest =>
          -- the body takes any part of the `n` instructions, the braces at least one
          have ⟨⟨_, lx, rx, hlx, _, _, _, _, _, hbody, _⟩, he⟩ := hfits
          rw [Program.instr_of_getElem? hlx] at he
          rw [← he] at hgo
          exact told_again hm ih hfits hd (told_tree hm hx ih hbody hgo hd)

/-! ## §7. Whole programs. -/

/-- A machine at the start of a program stands where its tree begins. -/
theorem new_place {p : Program} {base : Int} {input : Tokens} {output : Sink} {start : Machine}
    (h : Machine.new p base input output = .ok start) (stack : Stack) :
    { start with stack } = start.place (Tree.entry p 0) ⟨stack, input, output⟩ := by
  obtain ⟨b, rfl⟩ := new_eq h
  have hentry : Tree.entry p 0 = if p.isEmpty then halt else 0 := by
    unfold Tree.entry
    by_cases hp : p.size = 0
    · rw [if_neg (by omega), if_pos (Array.isEmpty_iff_size_eq_zero.2 hp)]
    · rw [if_pos (by omega), if_neg (fun he => hp (Array.isEmpty_iff_size_eq_zero.1 he))]
      rfl
  rw [hentry]
  rfl

/-- A run that ends, and how the tree ends. -/
theorem halts_iff {m : Machine} (hm : m.Fresh)
    (hx : ∀ (i : Nat) (ix : Instr), m.program[i]? = some ix → ix.kind ≠ .execute) {t : Tree}
    {e : Int} (hfits : t.Fits m.program e halt) (s s' : Store) :
    (∃ n, ((m.place e s).run n).2.halted = true ∧ ((m.place e s).run n).2.fault = none ∧
      ((m.place e s).run n).2.store = s') ↔ Ends m.base (.tree t) s (.ended s') := by
  constructor
  · intro ⟨n, hhalted, hfault, hstore⟩
    rw [run_snd] at hhalted hfault hstore
    have hhalted : (goOn n (m.place e s)).halted = true := hhalted
    have hd : (goOn n (m.place e s)).alive = false := by
      unfold alive
      rw [hhalted]
      rfl
    rcases reaches_ends hm hx n (w := .tree t) hfits rfl hd with
      ⟨s'', k, _, hends, hgo⟩ | ⟨f, id, s'', _, hdead⟩ | ⟨id, s'', e', hdead⟩
    · rw [goOn_stopped (alive_place_halt m s'')] at hgo
      rw [← hgo] at hstore
      rw [show s'' = s' from hstore] at hends
      exact hends
    · -- a machine that stopped with a failure has a fault
      rw [hdead] at hfault
      exact absurd hfault (by simp [fail])
    · -- one that broke stands at an instruction
      rw [hdead] at hhalted
      have hid : (id : Int) = -1 := eq_of_beq hhalted
      omega
  · intro h
    obtain ⟨n, hn⟩ := ends_reaches hm hx h hfits
    refine ⟨n, ?_⟩
    rw [run_snd, hn]
    exact ⟨rfl, hm.1, rfl⟩

/-- A run that faults, and how the tree stops. -/
theorem faults_iff {m : Machine} (hm : m.Fresh)
    (hx : ∀ (i : Nat) (ix : Instr), m.program[i]? = some ix → ix.kind ≠ .execute) {t : Tree}
    {e : Int} (hfits : t.Fits m.program e halt) (s s' : Store) (f : Failure) (id : Nat) :
    (∃ n, ((m.place e s).run n).2.fault = some f ∧ ((m.place e s).run n).2.pc = (id : Int) ∧
      ((m.place e s).run n).2.store = s') ↔ Ends m.base (.tree t) s (.faulted f id s') := by
  constructor
  · intro ⟨n, hfault, hpc, hstore⟩
    rw [run_snd] at hfault hpc hstore
    have hfault : (goOn n (m.place e s)).fault = some f := hfault
    have hd : (goOn n (m.place e s)).alive = false := by
      unfold alive
      rw [hfault, Option.isNone_some, Bool.and_false, Bool.false_and]
    rcases reaches_ends hm hx n (w := .tree t) hfits rfl hd with
      ⟨s'', k, _, _, hgo⟩ | ⟨f', id', s'', hends, hdead⟩ | ⟨id', s'', e', hdead⟩
    · rw [goOn_stopped (alive_place_halt m s'')] at hgo
      rw [← hgo, show (m.place halt s'').fault = none from hm.1] at hfault
      exact absurd hfault (by simp)
    · rw [hdead] at hfault hpc hstore
      rw [show f' = f from Option.some.inj hfault, show s'' = s' from hstore,
        show id' = id from Int.ofNat.inj hpc] at hends
      exact hends
    · rw [hdead, show ((m.place id' s'').breakDown e').fault = none from hm.1] at hfault
      exact absurd hfault (by simp)
  · intro h
    obtain ⟨n, hn⟩ := ends_reaches hm hx h hfits
    refine ⟨n, ?_⟩
    rw [run_snd, hn]
    exact ⟨rfl, rfl, rfl⟩

/-- **Linked braces are loops.**  Kinds without Execute which can be linked
spell a tree, with the same instructions in the same order.  From any stack
a machine halts with some stack, input and output if and only if the tree
ends with them, and it faults at an instruction if and only if the tree
stops there.  If the output never fails every fault is of a kind and names
that instruction. -/
theorem braces_are_loops {ks : List Kind} (hks : Kind.execute ∉ ks) {p : Program}
    (hlink : Linking.link (Program.unlinked ks) = .ok p) {base : Int} {input : Tokens}
    {output : Sink} {start : Machine} (hstart : Machine.new p base input output = .ok start)
    (stack : Stack) :
    let m : Machine := { start with stack }
    let s : Store := ⟨stack, input, output⟩
    ∃ t, Tree.parse ks = some t ∧ t.flatten = ks.zipIdx ∧
      (∀ s', (∃ n, (m.run n).2.halted = true ∧ (m.run n).2.fault = none ∧
        (m.run n).2.store = s') ↔ Ends start.base (.tree t) s (.ended s')) ∧
      (∀ (f : Failure) (id : Nat) (s' : Store), (∃ n, (m.run n).2.fault = some f ∧
        (m.run n).2.pc = (id : Int) ∧ (m.run n).2.store = s') ↔
          Ends start.base (.tree t) s (.faulted f id s')) ∧
      (output.room = .unlimited → ∀ (f : Failure) (id : Nat) (s' : Store),
        Ends start.base (.tree t) s (.faulted f id s') → ∃ k, f.fault? = some (k, (id : Int))) := by
  intro m s
  have hl := Linking.link_linked hlink
  obtain ⟨t, hparse, hfits⟩ := Tree.parse_fits hl
  -- the machine stands where the tree begins, and the tree leads to the end
  have hm : m = start.place (Tree.entry p 0) s := new_place hstart stack
  obtain ⟨b, rfl⟩ := new_eq hstart
  have hx : ∀ (i : Nat) (ix : Instr), p[i]? = some ix → ix.kind ≠ .execute := by
    intro i ix hix hk
    have hmem := List.mem_of_getElem? (hl.kind_eq i ix hix)
    rw [hk] at hmem
    exact hks hmem
  refine ⟨t, hparse, Tree.parse_flatten hparse, ?_, ?_, ?_⟩
  · intro s'
    rw [hm]
    exact halts_iff ⟨rfl, rfl⟩ hx hfits s s'
  · intro f id s'
    rw [hm]
    exact faults_iff ⟨rfl, rfl⟩ hx hfits s s' f id
  · intro hroom f id s' h
    exact h.orderly hroom

/-- A loop that counts down from a number read ends with the number 0. -/
theorem braces_are_loops_countdown :
    let ks : List Kind := [.input, .lbrace, .push, .negate, .add, .rbrace]
    let s : Store := ⟨Stack.new, Tokens.ofBytes [50] none, Sink.unlimited⟩
    ∃ t s', Tree.parse ks = some t ∧ t.flatten = ks.zipIdx ∧
      Ends .ten (.tree t) s (.ended s') ∧ s'.stack.values = [⟨false, [0]⟩] := by
  intro ks s
  let p : Program := #[⟨.input, 0, 1, 1, 0⟩, ⟨.lbrace, 1, 2, 5, 1⟩, ⟨.push, 2, 3, 3, 2⟩,
    ⟨.negate, 3, 4, 4, 3⟩, ⟨.add, 4, 5, 5, 4⟩, ⟨.rbrace, 5, halt, 1, 5⟩]
  let start : Machine := ⟨p, 0, Stack.new, 0, .ten, s.input, s.output, none, none⟩
  have hlink : Linking.link (Program.unlinked ks) = .ok p := by decide +kernel
  have hstart : Machine.new p 10 s.input s.output = .ok start := rfl
  obtain ⟨t, hparse, hflat, hends, _, _⟩ :=
    braces_are_loops (by decide) hlink hstart Stack.new
  have hended := (hends (start.run 20).2.store).1 ⟨20, by cbv, by cbv, rfl⟩
  exact ⟨t, (start.run 20).2.store, hparse, hflat, hended, by cbv⟩

end Machine

end Tetraglyph
