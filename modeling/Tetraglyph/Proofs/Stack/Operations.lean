/-
  Tetraglyph.Proofs.Stack.Operations
  ──────────────────────────────────
  **STACK OPERATIONS DO EVERYTHING OR NOTHING.**

  A stack has thirteen operations.  Each of them needs a number of values
  and looks first whether they are there.  If they are not it fails, names
  the instruction that asked for it, and the stack is what it was; if they
  are it succeeds, and changes the values, read from bottom to top, as it
  would change a list with the top at its end.

      Operation   — an operation, of thirteen kinds
      perform     — what an operation answers, and the stack it leaves
      Changes     — what it does to a list of values, and what it gives out
      after       — the stack after a sequence of operations

  An operation is several pops, pushes and writes in a row.  Done one after
  the other, and guarded, none of them breaks down, so no operation stops
  half way.

  Main results

      perform_short     — too few values: a failure that changes nothing
      perform_changes   — enough values: the change of the list
      run_perform       — an operation done guarded, one statement at a time
      all_or_nothing    — all of this of every stack that can be reached
-/
import Tetraglyph.Proofs.Numeral.Arithmetic
import Tetraglyph.Proofs.Ring.Deque
import Tetraglyph.Proofs.Stack

namespace Tetraglyph

namespace Stack

/-! ## §1. Operations. -/

/-- An operation on a stack. -/
inductive Operation where
  /-- Pushes 1. -/
  | pushOne
  /-- Pushes a value. -/
  | input (v : Numeral)
  /-- Drops the top. -/
  | pop
  /-- Gives out the top, which stays. -/
  | peek
  /-- Takes the top and gives it out. -/
  | output
  /-- Pushes the top once more. -/
  | dup
  /-- Exchanges the two topmost values. -/
  | swap
  /-- Moves the top to the bottom. -/
  | rotate
  /-- Moves the bottom to the top. -/
  | reverseRotate
  /-- Replaces the two topmost values by their sum. -/
  | add
  /-- Replaces the two topmost values by their product. -/
  | multiply
  /-- Changes the sign of the top. -/
  | negate
  /-- Takes a number of values and gives them out, the top first. -/
  | takeCount (k : Int)
  deriving Repr, DecidableEq

/-- How many values an operation needs. -/
def Operation.needs : Operation → Nat
  | .pushOne | .input _ => 0
  | .pop | .peek | .output | .dup | .rotate | .reverseRotate | .negate => 1
  | .swap | .add | .multiply => 2
  | .takeCount k => k.toNat

/-- What it is called if there are fewer: those on one value say that there
is none, but for those that take a number of values. -/
def Operation.shortage : Operation → ErrorKind
  | .swap | .add | .multiply | .takeCount _ => .insufficientStackSize
  | _ => .emptyStack

/-- What an operation answers: the values that it gives out, or a failure; or
it is refused, because a number of values cannot be negative. -/
abbrev Answer := Except Misuse (Except Failure (List Numeral))

/-- The answer of an operation that may fail, and the stack it leaves. -/
def settle (s : Stack) : Except Failure (List Numeral × Stack) → Answer × Stack
  | .ok (vs, s') => (.ok (.ok vs), s')
  | .error f => (.ok (.error f), s)

/-- What an operation that the instruction `id` asks for answers, and the
stack it leaves. -/
def perform (s : Stack) (id : Int) : Operation → Answer × Stack
  | .pushOne => (.ok (.ok []), s.pushOne)
  | .input v => (.ok (.ok []), s.push v)
  | .pop => s.settle ((s.pop id).map fun s' => ([], s'))
  | .peek => s.settle ((s.top id).map fun v => ([v], s))
  | .output => s.settle ((s.take id).map fun (v, s') => ([v], s'))
  | .dup => s.settle ((s.dup id).map fun s' => ([], s'))
  | .swap => s.settle ((s.swap id).map fun s' => ([], s'))
  | .rotate => s.settle ((s.rotate id).map fun s' => ([], s'))
  | .reverseRotate => s.settle ((s.reverseRotate id).map fun s' => ([], s'))
  | .add => s.settle ((s.add id).map fun s' => ([], s'))
  | .multiply => s.settle ((s.multiply id).map fun s' => ([], s'))
  | .negate => s.settle ((s.negate id).map fun s' => ([], s'))
  | .takeCount k =>
    match s.takeCount id k with
    | .ok r => s.settle r
    | .error e => (.error e, s)

/-- The stack after a sequence of operations, each with the instruction that
asks for it. -/
def after (s : Stack) (ops : List (Int × Operation)) : Stack :=
  ops.foldl (fun s op => (s.perform op.1 op.2).2) s

/-- **What an operation does to a list of values**, from bottom to top, and
what it gives out.  A sum, a product and a negative are the canonical
numerals of these integers. -/
inductive Changes : Operation → List Numeral → List Numeral → List Numeral → Prop where
  | pushOne {vs : List Numeral} : Changes .pushOne vs [] (vs ++ [Numeral.one])
  | input {vs : List Numeral} {v : Numeral} : Changes (.input v) vs [] (vs ++ [v])
  | pop {vs : List Numeral} {v : Numeral} : Changes .pop (vs ++ [v]) [] vs
  | peek {vs : List Numeral} {v : Numeral} : Changes .peek (vs ++ [v]) [v] (vs ++ [v])
  | output {vs : List Numeral} {v : Numeral} : Changes .output (vs ++ [v]) [v] vs
  | dup {vs : List Numeral} {v : Numeral} : Changes .dup (vs ++ [v]) [] (vs ++ [v, v])
  | swap {vs : List Numeral} {a b : Numeral} : Changes .swap (vs ++ [b, a]) [] (vs ++ [a, b])
  | rotate {vs : List Numeral} {v : Numeral} : Changes .rotate (vs ++ [v]) [] (v :: vs)
  | reverseRotate {vs : List Numeral} {v : Numeral} :
      Changes .reverseRotate (v :: vs) [] (vs ++ [v])
  | add {vs : List Numeral} {a b u : Numeral} (hu : u.Canonical)
      (h : u.toInt = a.toInt + b.toInt) : Changes .add (vs ++ [b, a]) [] (vs ++ [u])
  | multiply {vs : List Numeral} {a b u : Numeral} (hu : u.Canonical)
      (h : u.toInt = a.toInt * b.toInt) : Changes .multiply (vs ++ [b, a]) [] (vs ++ [u])
  | negate {vs : List Numeral} {v u : Numeral} (hu : u.Canonical) (h : u.toInt = -v.toInt) :
      Changes .negate (vs ++ [v]) [] (vs ++ [u])
  | takeCount {vs top : List Numeral} {k : Nat} (h : top.length = k) :
      Changes (.takeCount k) (vs ++ top) top.reverse vs

/-! ## §2. Too few values. -/

theorem length_values (s : Stack) : s.values.length = s.size := Ring.length_toList s.ring

theorem perform_takeCount (s : Stack) (id : Int) {k : Int} (hk : 0 ≤ k) :
    s.perform id (.takeCount k) = s.settle (s.takeMany id k.toNat) := by
  show (match s.takeCount id k with | .ok r => s.settle r | .error e => (.error e, s)) = _
  unfold Stack.takeCount
  rw [if_neg (by omega)]

/-- A negative number of values is refused. -/
theorem perform_refused (s : Stack) (id : Int) {k : Int} (hk : k < 0) :
    s.perform id (.takeCount k) = (.error .outOfRange, s) := by
  show (match s.takeCount id k with | .ok r => s.settle r | .error e => (.error e, s)) = _
  unfold Stack.takeCount
  rw [if_pos hk]

/-- **Too few values**: the failure names the instruction, and nothing is
changed. -/
theorem perform_short {s : Stack} (h : s.ring.Valid) {op : Operation}
    (hlt : s.values.length < op.needs) (id : Int) :
    s.perform id op = (.ok (.error (.fault op.shortage id)), s) := by
  have hs := shows_values h
  have hlen : s.values.reverse.length < op.needs := by
    rw [List.length_reverse]
    exact hlt
  generalize s.values.reverse = vs at hs hlen
  have hnil : vs.length < 1 → s.Shows [] := by
    intro hone
    rw [← List.length_eq_zero_iff.1 (Nat.lt_one_iff.1 hone)]
    exact hs
  cases op with
  | pushOne => exact absurd hlen (Nat.not_lt_zero _)
  | input v => exact absurd hlen (Nat.not_lt_zero _)
  | pop =>
      unfold perform Stack.pop
      rw [(hnil hlen).take_nil id]
      rfl
  | peek =>
      unfold perform
      rw [(hnil hlen).top_nil id]
      rfl
  | output =>
      unfold perform
      rw [(hnil hlen).take_nil id]
      rfl
  | dup =>
      unfold perform Stack.dup
      rw [(hnil hlen).top_nil id]
      rfl
  | swap =>
      unfold perform
      rw [hs.swap_short hlen id]
      rfl
  | rotate =>
      unfold perform Stack.rotate
      rw [(hnil hlen).take_nil id]
      rfl
  | reverseRotate =>
      unfold perform
      rw [(hnil hlen).reverseRotate_nil id]
      rfl
  | add =>
      unfold perform Stack.add
      rw [hs.combine_short hlen id]
      rfl
  | multiply =>
      unfold perform Stack.multiply
      rw [hs.combine_short hlen id]
      rfl
  | negate =>
      unfold perform Stack.negate
      rw [(hnil hlen).top_nil id]
      rfl
  | takeCount k =>
      -- a negative number of values is never too many
      have hlen : vs.length < k.toNat := hlen
      rw [perform_takeCount s id (by omega), hs.takeMany_short hlen id]
      rfl

/-! ## §3. Enough values. -/

/-- The top of a list that has one. -/
theorem exists_top {vs : List Numeral} (h : 1 ≤ vs.length) : ∃ rest v, vs = rest ++ [v] := by
  rcases List.eq_nil_or_concat' vs with rfl | ⟨rest, v, rfl⟩
  · exact absurd h (by simp)
  · exact ⟨rest, v, rfl⟩

/-- The two topmost values of a list that has two. -/
theorem exists_two {vs : List Numeral} (h : 2 ≤ vs.length) :
    ∃ rest b a, vs = rest ++ [b, a] := by
  obtain ⟨rest, a, rfl⟩ := exists_top (by omega : 1 ≤ vs.length)
  obtain ⟨rest, b, rfl⟩ := exists_top (by simpa using h : 1 ≤ rest.length)
  exact ⟨rest, b, a, by simp⟩

/-- An operation came out on the values `vs` as `Changes` says, and left a
valid stack. -/
def Done (op : Operation) (vs : List Numeral) (r : Answer × Stack) : Prop :=
  ∃ out, r.1 = .ok (.ok out) ∧ r.2.ring.Valid ∧ Changes op vs out r.2.values

/-- An operation that left a stack with known values. -/
theorem done_of_shows {op : Operation} {vs out : List Numeral} {r : Answer × Stack}
    {ws : List Numeral} (hr : r.1 = .ok (.ok out)) (hs : r.2.Shows ws)
    (h : Changes op vs out ws.reverse) : Done op vs r :=
  ⟨out, hr, hs.1, hs.values_eq ▸ h⟩

section

variable {s : Stack} {vs : List Numeral} (id : Int)

/-- The operations on the top. -/
theorem done_on_top {v : Numeral} (hs : s.Shows (v :: vs.reverse)) (hv : v.WellFormed)
    {op : Operation} (hop : op ∈ [.pop, .peek, .output, .dup, .rotate, .negate]) :
    Done op (vs ++ [v]) (s.perform id op) := by
  obtain ⟨s', htake, hs'⟩ := hs.take id
  simp only [List.mem_cons, List.not_mem_nil, or_false] at hop
  rcases hop with rfl | rfl | rfl | rfl | rfl | rfl
  · unfold perform Stack.pop
    rw [htake]
    exact done_of_shows rfl hs' (by simpa using .pop)
  · unfold perform
    rw [hs.top id]
    exact done_of_shows rfl hs (by simpa using .peek)
  · unfold perform
    rw [htake]
    exact done_of_shows rfl hs' (by simpa using .output)
  · unfold perform Stack.dup
    rw [hs.top id]
    exact done_of_shows rfl (hs.push v) (by simpa using .dup)
  · obtain ⟨s', hr, hs'⟩ := hs.rotate id
    unfold perform
    rw [hr]
    exact done_of_shows rfl hs' (by simpa using .rotate)
  · obtain ⟨s', hr, hs'⟩ := hs.negate id
    obtain ⟨hint, hcan⟩ := Numeral.toInt_negate hv
    unfold perform
    rw [hr]
    exact done_of_shows rfl hs' (by simpa using .negate hcan hint)

/-- The operations on the two topmost values. -/
theorem done_on_two {a b : Numeral} (hs : s.Shows (a :: b :: vs.reverse)) (ha : a.WellFormed)
    (hb : b.WellFormed) {op : Operation} (hop : op ∈ [.swap, .add, .multiply]) :
    Done op (vs ++ [b, a]) (s.perform id op) := by
  simp only [List.mem_cons, List.not_mem_nil, or_false] at hop
  rcases hop with rfl | rfl | rfl
  · obtain ⟨s', hr, hs'⟩ := hs.swap id
    unfold perform
    rw [hr]
    exact done_of_shows rfl hs' (by simpa using .swap)
  · obtain ⟨s', hr, hs'⟩ := hs.combine id Numeral.add
    obtain ⟨hint, hcan⟩ := Numeral.toInt_add ha hb
    unfold perform Stack.add
    rw [hr]
    exact done_of_shows rfl hs' (by simpa using .add hcan hint)
  · obtain ⟨s', hr, hs'⟩ := hs.combine id Numeral.mul
    obtain ⟨hint, hcan⟩ := Numeral.toInt_mul ha hb
    unfold perform Stack.multiply
    rw [hr]
    exact done_of_shows rfl hs' (by simpa using .multiply hcan hint)

/-- Taking a number of values: they leave the list at its end. -/
theorem done_takeCount (hs : s.Shows vs.reverse) {k : Nat} (hk : k ≤ vs.length) :
    Done (.takeCount k) vs (s.perform id (.takeCount k)) := by
  obtain ⟨s', hr, hs'⟩ := hs.takeMany (k := k) (by simpa using hk) id
  have hsplit : vs = (vs.reverse.drop k).reverse ++ (vs.reverse.take k).reverse := by
    rw [← List.reverse_append, List.take_append_drop, List.reverse_reverse]
  have hlen : (vs.reverse.take k).reverse.length = k := by
    rw [List.length_reverse, List.length_take, List.length_reverse]
    omega
  have hchanges : Changes (.takeCount k) ((vs.reverse.drop k).reverse ++ _) _ _ := .takeCount hlen
  rw [← hsplit, List.reverse_reverse] at hchanges
  rw [perform_takeCount s id (by omega), Int.toNat_natCast, hr]
  exact done_of_shows rfl hs' hchanges

end

/-- **Enough values**: the operation changes them as a list. -/
theorem perform_changes {s : Stack} (h : s.ring.Valid) (hwf : ∀ v ∈ s.values, v.WellFormed)
    {op : Operation} (hop : ∀ k, op = .takeCount k → 0 ≤ k)
    (hle : op.needs ≤ s.values.length) (id : Int) : Done op s.values (s.perform id op) := by
  have hs := shows_values h
  generalize s.values = vs at hs hwf hle
  -- the values that the operation needs are split off, and seen from the top
  have onTop : op.needs = 1 → op ∈ [.pop, .peek, .output, .dup, .rotate, .negate] →
      Done op vs (s.perform id op) := by
    intro hone hmem
    obtain ⟨rest, v, rfl⟩ := exists_top (hone ▸ hle)
    rw [List.reverse_append] at hs
    exact done_on_top id hs (hwf v (by simp)) hmem
  have onTwo : op.needs = 2 → op ∈ [.swap, .add, .multiply] → Done op vs (s.perform id op) := by
    intro htwo hmem
    obtain ⟨rest, b, a, rfl⟩ := exists_two (htwo ▸ hle)
    rw [List.reverse_append] at hs
    exact done_on_two id hs (hwf a (by simp)) (hwf b (by simp)) hmem
  cases op with
  | pushOne => exact done_of_shows rfl (hs.push Numeral.one) (by simpa using .pushOne)
  | input v => exact done_of_shows rfl (hs.push v) (by simpa using .input)
  | reverseRotate =>
      match vs, hs, hle with
      | v :: rest, hs, _ =>
          rw [List.reverse_cons] at hs
          obtain ⟨s', hr, hs'⟩ := hs.reverseRotate id
          unfold perform
          rw [hr]
          exact done_of_shows rfl hs' (by simpa using .reverseRotate)
  | swap => exact onTwo rfl (by decide)
  | add => exact onTwo rfl (by decide)
  | multiply => exact onTwo rfl (by decide)
  | takeCount k =>
      obtain ⟨n, rfl⟩ := Int.eq_ofNat_of_zero_le (hop k rfl)
      exact done_takeCount id hs hle
  | pop => exact onTop rfl (by simp)
  | peek => exact onTop rfl (by simp)
  | output => exact onTop rfl (by simp)
  | dup => exact onTop rfl (by simp)
  | rotate => exact onTop rfl (by simp)
  | negate => exact onTop rfl (by simp)

/-! ## §4. Guarded operations. -/

namespace Guarded

open Ring.Guarded

/-- Work on the values of a stack, which can break down half way. -/
abbrev Work (β : Type) := Ring.Guarded.Work Numeral β

/-- Looks whether there are `n` values, and goes on with the work or gives up
with a failure. -/
def needing (n : Nat) (f : Failure) (work : Work (List Numeral)) :
    Work (Except Failure (List Numeral)) := do
  if (← get).count < n then return .error f else return .ok (← work)

/-- Takes values one after another, the top first. -/
def takeEach : Nat → Work (List Numeral)
  | 0 => return []
  | k + 1 => do
    let v ← popBack
    let vs ← takeEach k
    return v :: vs

/-- Takes the top `a`, and then the value `b` below it, and pushes `f a b`. -/
def combine (f : Numeral → Numeral → Numeral) : Work (List Numeral) := do
  let a ← popBack
  let b ← popBack
  pushBack (f a b)
  return []

/-- Exchanges the two topmost values, one write after the other. -/
def swap : Work (List Numeral) := do
  let n : Int := (← get).count
  let a ← valueAt (n - 1)
  let b ← valueAt (n - 2)
  replace (n - 1) b
  replace (n - 2) a
  return []

/-- An operation, one statement after the other. -/
def perform (id : Int) : Operation → Work (Except Failure (List Numeral))
  | .pushOne => do pushBack Numeral.one; return .ok []
  | .input v => do pushBack v; return .ok []
  | .pop => needing 1 (shortage id 1) do let _ ← popBack; return []
  | .peek => needing 1 (shortage id 1) do return [← valueAt ((← get).count - 1)]
  | .output => needing 1 (shortage id 1) do return [← popBack]
  | .dup => needing 1 (shortage id 1) do
    pushBack (← valueAt ((← get).count - 1))
    return []
  | .swap => needing 2 (shortage id 2) swap
  | .rotate => needing 1 (shortage id 1) do pushFront (← popBack); return []
  | .reverseRotate => needing 1 (shortage id 1) do pushBack (← popFront); return []
  | .add => needing 2 (shortage id 2) (combine Numeral.add)
  | .multiply => needing 2 (shortage id 2) (combine Numeral.mul)
  | .negate => needing 1 (shortage id 1) do
    let v ← valueAt ((← get).count - 1)
    replace ((← get).count - 1) v.negate
    return []
  | .takeCount k => do
    if ((← get).count : Int) < k then return .error (.fault .insufficientStackSize id)
    else if k < 0 then throw .outOfRange
    else return .ok (← takeEach k.toNat)

/-- What came of guarded work, and the stack that it left. -/
def left (r : EStateM.Result Misuse (Ring Numeral) (Except Failure (List Numeral))) :
    Answer × Stack :=
  ((Ring.Guarded.left r).1, ⟨(Ring.Guarded.left r).2⟩)

section

variable {r : Ring Numeral}

/-- Reading a place that holds a value. -/
theorem run_valueAt_place (h : r.Valid) {i : Int} {n : Nat} (hi : i = n) (hn : n < r.count) :
    (valueAt i).run r = .ok (r.peek n) r := by
  subst hi
  rw [run_valueAt h, Ring.at?_of_lt ⟨by omega, by omega⟩]
  rfl

/-- Writing to a place that holds a value. -/
theorem run_replace_place (h : r.Valid) {i : Int} {n : Nat} (hi : i = n) (hn : n < r.count)
    (v : Numeral) : (replace i v).run r = .ok () (r.store n v) := by
  subst hi
  rw [run_replace h]
  unfold Ring.set?
  rw [if_neg (by omega)]
  rfl

/-- Reading the top of a stack that has one. -/
theorem run_valueAt_top {s : Stack} (h : s.ring.Valid) (hpos : 1 ≤ s.size) :
    (valueAt ((s.ring.count : Int) - 1)).run s.ring = .ok (s.ring.peek (s.size - 1)) s.ring := by
  have hcount : s.ring.count = s.size := rfl
  exact run_valueAt_place h (by omega) (by omega)

/-- Replacing the top of a stack that has one. -/
theorem run_replace_top {s : Stack} (h : s.ring.Valid) (hpos : 1 ≤ s.size) (v : Numeral) :
    (replace ((s.ring.count : Int) - 1) v).run s.ring = .ok () (s.put (s.size - 1) v).ring := by
  have hcount : s.ring.count = s.size := rfl
  exact run_replace_place h (by omega) (by omega) v

/-- Taking the top of a stack that has one. -/
theorem run_take {s : Stack} (h : s.ring.Valid) (hpos : 1 ≤ s.size) (id : Int) :
    ∃ v s', s.take id = .ok (v, s') ∧ popBack.run s.ring = .ok v s'.ring ∧ s'.ring.Valid ∧
      s.size = s'.size + 1 := by
  have hne : s.ring.toList ≠ [] := by
    intro hnil
    have hcount : s.size = 0 := (Ring.toList_eq_nil_iff s.ring).1 hnil
    omega
  obtain ⟨v, r', hpop, hvalid, hlist⟩ := Ring.popBack?_spec h hne
  refine ⟨v, ⟨r'⟩, ?_, ?_, hvalid, ?_⟩
  · unfold Stack.take
    rw [hpop]
  · rw [run_popBack h, hpop]
    rfl
  · rw [← length_values, ← length_values]
    show s.ring.toList.length = r'.toList.length + 1
    rw [hlist, List.length_append]
    rfl

theorem run_takeEach (id : Int) (k : Nat) :
    ∀ {s : Stack}, s.ring.Valid → k ≤ s.size → ∃ vs s', Stack.takeEach id k s = .ok (vs, s') ∧
      (takeEach k).run s.ring = .ok vs s'.ring := by
  induction k with
  | zero => exact fun {s} _ _ => ⟨[], s, rfl, rfl⟩
  | succ k ih =>
      intro s h hk
      obtain ⟨v, s₁, htake, hpop, hvalid, hsize⟩ := run_take h (by omega) id
      obtain ⟨vs, s₂, hrest, hrun⟩ := ih hvalid (by omega)
      refine ⟨v :: vs, s₂, ?_, ?_⟩
      · unfold Stack.takeEach
        simp only [htake, hrest, bind, Except.bind]
        rfl
      · unfold takeEach
        simp only [EStateM.run_bind, hpop, hrun, EStateM.run_pure]

end

/-- Without enough values nothing is done but to look. -/
theorem left_short {s : Stack} {n : Nat} (hn : s.size < n) (f : Failure)
    (work : Work (List Numeral)) :
    left ((needing n f work).run s.ring) = (.ok (.error f), s) := by
  have hcount : s.ring.count < n := hn
  unfold needing
  rw [EStateM.run_bind, EStateM.run_get]
  dsimp only
  rw [if_pos hcount]
  rfl

/-- With enough values the work is done, and what it leaves is left. -/
theorem left_needing {s : Stack} (s' : Stack) {n : Nat} (hn : n ≤ s.size) (f : Failure)
    {work : Work (List Numeral)} (out : List Numeral) {r : Except Failure (List Numeral × Stack)}
    (hr : r = .ok (out, s')) (hwork : work.run s.ring = .ok out s'.ring) :
    left ((needing n f work).run s.ring) = s.settle r := by
  have hcount : ¬ s.ring.count < n := Nat.not_lt.2 hn
  unfold needing
  rw [EStateM.run_bind, EStateM.run_get]
  dsimp only
  rw [if_neg hcount, EStateM.run_bind, hwork, hr]
  rfl

theorem left_combine {s : Stack} (h : s.ring.Valid) (hn : 2 ≤ s.size) (id : Int)
    (f : Numeral → Numeral → Numeral) :
    left ((needing 2 (shortage id 2) (combine f)).run s.ring)
      = s.settle ((s.combine id f).map fun s' => ([], s')) := by
  obtain ⟨a, s₁, htake₁, hpop₁, hvalid₁, hsize₁⟩ := run_take h (by omega) id
  obtain ⟨b, s₂, htake₂, hpop₂, hvalid₂, _⟩ := run_take hvalid₁ (by omega) id
  refine left_needing (s₂.push (f a b)) hn _ [] ?_ ?_
  · unfold Stack.combine
    rw [if_neg (by omega)]
    simp only [htake₁, htake₂, bind, Except.bind]
    rfl
  · unfold combine
    simp only [EStateM.run_bind, hpop₁, hpop₂, run_pushBack hvalid₂]
    rfl

/-- The first write of an exchange leaves a valid stack for the second. -/
theorem left_swap {s : Stack} (h : s.ring.Valid) (hn : 2 ≤ s.size) (id : Int) :
    left ((needing 2 (shortage id 2) swap).run s.ring)
      = s.settle ((s.swap id).map fun s' => ([], s')) := by
  have hcount : s.ring.count = s.size := rfl
  obtain ⟨hvalid, _⟩ := Ring.store_spec h (i := s.size - 1) (by omega)
    (s.ring.peek (s.size - 2))
  refine left_needing ((s.put (s.size - 1) (s.ring.peek (s.size - 2))).put (s.size - 2)
    (s.ring.peek (s.size - 1))) hn _ [] ?_ ?_
  · unfold Stack.swap
    rw [if_neg (by omega)]
    rfl
  · unfold swap
    simp only [EStateM.run_bind, EStateM.run_get]
    rw [run_valueAt_place h (n := s.size - 1) (by omega) (by omega)]
    dsimp only
    rw [run_valueAt_place h (n := s.size - 2) (by omega) (by omega)]
    dsimp only
    rw [run_replace_place h (n := s.size - 1) (by omega) (by omega)]
    dsimp only
    rw [run_replace_place hvalid (n := s.size - 2) (by omega)
      (show s.size - 2 < s.ring.count by omega)]
    rfl

/-- **An operation done guarded, one statement after the other**, leaves what
the operation leaves and answers what it answers. -/
theorem run_perform {s : Stack} (h : s.ring.Valid) (id : Int) (op : Operation) :
    left ((perform id op).run s.ring) = s.perform id op := by
  have hcount : s.ring.count = s.size := rfl
  -- without enough values nothing is done but to look
  by_cases hlt : s.size < op.needs
  · rw [perform_short h (by rw [length_values]; exact hlt)]
    cases op with
    | pushOne => exact absurd hlt (Nat.not_lt_zero _)
    | input v => exact absurd hlt (Nat.not_lt_zero _)
    | takeCount k =>
        have hk : s.size < k.toNat := hlt
        unfold perform
        simp only [EStateM.run_bind, EStateM.run_get]
        rw [if_pos (by omega)]
        rfl
    | _ => exact left_short hlt _ _
  · have hle : op.needs ≤ s.size := Nat.le_of_not_lt hlt
    cases op with
    | pushOne =>
        unfold perform
        rw [EStateM.run_bind, run_pushBack h]
        rfl
    | input v =>
        unfold perform
        rw [EStateM.run_bind, run_pushBack h]
        rfl
    | pop =>
        obtain ⟨v, s', htake, hpop, _⟩ := run_take h hle id
        refine left_needing s' hle _ [] ?_ ?_
        · unfold Stack.pop
          rw [htake]
          rfl
        · rw [EStateM.run_bind, hpop]
          rfl
    | peek =>
        refine left_needing s hle _ [s.ring.peek (s.size - 1)] ?_ ?_
        · unfold Stack.top
          rw [if_neg (Nat.ne_of_gt hle)]
          rfl
        · simp only [EStateM.run_bind, EStateM.run_get, run_valueAt_top h hle]
          rfl
    | output =>
        obtain ⟨v, s', htake, hpop, _⟩ := run_take h hle id
        refine left_needing s' hle _ [v] ?_ ?_
        · rw [htake]
          rfl
        · rw [EStateM.run_bind, hpop]
          rfl
    | dup =>
        refine left_needing (s.push (s.ring.peek (s.size - 1))) hle _ [] ?_ ?_
        · unfold Stack.dup Stack.top
          rw [if_neg (Nat.ne_of_gt hle)]
          rfl
        · simp only [EStateM.run_bind, EStateM.run_get, run_valueAt_top h hle, run_pushBack h]
          rfl
    | swap => exact left_swap h hle id
    | rotate =>
        obtain ⟨v, s', htake, hpop, hvalid, _⟩ := run_take h hle id
        refine left_needing ⟨s'.ring.pushFront v⟩ hle _ [] ?_ ?_
        · unfold Stack.rotate
          rw [htake]
          rfl
        · simp only [EStateM.run_bind, hpop, run_pushFront hvalid]
          rfl
    | reverseRotate =>
        have hne : s.ring.toList ≠ [] := by
          intro hnil
          have hzero : s.size = 0 := (Ring.toList_eq_nil_iff s.ring).1 hnil
          exact absurd hle (by rw [hzero]; decide)
        obtain ⟨v, r', hpop, hvalid, _⟩ := Ring.popFront?_spec h hne
        have hrun : popFront.run s.ring = .ok v r' := by
          rw [run_popFront h, hpop]
          rfl
        refine left_needing ⟨r'.pushBack v⟩ hle _ [] ?_ ?_
        · unfold Stack.reverseRotate
          rw [hpop]
          rfl
        · simp only [EStateM.run_bind, hrun, run_pushBack hvalid]
          rfl
    | add => exact left_combine h hle id Numeral.add
    | multiply => exact left_combine h hle id Numeral.mul
    | negate =>
        refine left_needing (s.put (s.size - 1) (s.ring.peek (s.size - 1)).negate) hle _ [] ?_ ?_
        · unfold Stack.negate Stack.top
          rw [if_neg (Nat.ne_of_gt hle)]
          rfl
        · simp only [EStateM.run_bind, EStateM.run_get, run_valueAt_top h hle,
            run_replace_top h hle]
          rfl
    | takeCount k =>
        have hk : k.toNat ≤ s.size := hle
        unfold perform
        simp only [EStateM.run_bind, EStateM.run_get]
        rw [if_neg (by omega)]
        by_cases hneg : k < 0
        · rw [if_pos hneg, perform_refused s id hneg]
          rfl
        · obtain ⟨vs, s', heach, hrun⟩ := run_takeEach id k.toNat h hk
          rw [if_neg hneg, perform_takeCount s id (by omega), EStateM.run_bind, hrun]
          unfold Stack.takeMany
          rw [if_neg (by omega), heach]
          rfl

end Guarded

/-! ## §5. Every stack. -/

/-- What an operation leaves is well-formed if what it found was. -/
theorem Changes.wellFormed {op : Operation} {vs out vs' : List Numeral}
    (h : Changes op vs out vs') (hvs : ∀ v ∈ vs, v.WellFormed)
    (hop : ∀ v, op = .input v → v.WellFormed) : ∀ v ∈ vs', v.WellFormed := by
  have hone := Numeral.canonical_one.wellFormed
  cases h with
  | pushOne => simpa [or_imp, forall_and, hone] using hvs
  | @input vs v => simpa [or_imp, forall_and, hop v rfl] using hvs
  | peek => exact hvs
  | add hu | multiply hu | negate hu =>
      intro w hw
      rcases List.mem_append.1 hw with hw | hw
      · exact hvs w (List.mem_append_left _ hw)
      · rw [List.mem_singleton.1 hw]
        exact hu.wellFormed
  | _ =>
      -- the values are those that were there, in some order
      intro w hw
      refine hvs w ?_
      simp only [List.mem_append, List.mem_cons, List.not_mem_nil, or_false] at hw ⊢
      tauto

/-- Every operation keeps a stack valid, and its values well-formed. -/
theorem perform_kept {s : Stack} (h : s.ring.Valid) (hwf : ∀ v ∈ s.values, v.WellFormed)
    (id : Int) {op : Operation} (hop : ∀ v, op = .input v → v.WellFormed) :
    (s.perform id op).2.ring.Valid ∧ ∀ v ∈ (s.perform id op).2.values, v.WellFormed := by
  by_cases hneg : ∃ k, op = .takeCount k ∧ k < 0
  · obtain ⟨k, rfl, hk⟩ := hneg
    rw [perform_refused s id hk]
    exact ⟨h, hwf⟩
  · by_cases hlt : s.values.length < op.needs
    · rw [perform_short h hlt]
      exact ⟨h, hwf⟩
    · have hnonneg : ∀ k, op = .takeCount k → 0 ≤ k :=
        fun k hk => Int.not_lt.1 fun hlt => hneg ⟨k, hk, hlt⟩
      obtain ⟨out, _, hvalid, hchanges⟩ :=
        perform_changes h hwf hnonneg (Nat.le_of_not_lt hlt) id
      exact ⟨hvalid, hchanges.wellFormed hwf hop⟩

/-- So does every sequence of operations. -/
theorem after_kept (ops : List (Int × Operation)) :
    ∀ {s : Stack}, s.ring.Valid → (∀ v ∈ s.values, v.WellFormed) →
      (∀ op ∈ ops, ∀ v, op.2 = .input v → v.WellFormed) →
      (s.after ops).ring.Valid ∧ ∀ v ∈ (s.after ops).values, v.WellFormed := by
  induction ops with
  | nil => exact fun h hwf _ => ⟨h, hwf⟩
  | cons op ops ih =>
      intro s h hwf hops
      obtain ⟨hop, hops⟩ := List.forall_mem_cons.1 hops
      obtain ⟨hvalid, hwf'⟩ := perform_kept h hwf op.1 hop
      exact ih hvalid hwf' hops

/-- **Stack operations do everything or nothing.**  On every stack that any
operations, refused ones included, make of a new one: an operation that needs
more values than there are fails, with the shortage of its kind and the
instruction that asked for it, and the stack is what it was; any other
succeeds, and changes the values and gives values out as it would on a list.
Done guarded, one statement after the other, it comes out the same, so it
never stops half way. -/
theorem all_or_nothing {ops : List (Int × Operation)}
    (hops : ∀ op ∈ ops, ∀ v, op.2 = .input v → v.WellFormed) (id : Int) {op : Operation}
    (hop : ∀ k, op = .takeCount k → 0 ≤ k) :
    let s := Stack.new.after ops
    (s.values.length < op.needs →
      s.perform id op = (.ok (.error (.fault op.shortage id)), s)) ∧
    (op.needs ≤ s.values.length →
      ∃ out, (s.perform id op).1 = .ok (.ok out) ∧
        Changes op s.values out (s.perform id op).2.values) ∧
    Guarded.left ((Guarded.perform id op).run s.ring) = s.perform id op := by
  intro s
  have hnil : ∀ v ∈ Stack.new.values, v.WellFormed := fun v hv => absurd hv List.not_mem_nil
  obtain ⟨hvalid, hwf⟩ : s.ring.Valid ∧ ∀ v ∈ s.values, v.WellFormed :=
    after_kept ops (Ring.valid_withSlots 16) hnil hops
  refine ⟨fun hlt => perform_short hvalid hlt id, fun hle => ?_, Guarded.run_perform hvalid id op⟩
  obtain ⟨out, hout, _, hchanges⟩ := perform_changes hvalid hwf hop hle id
  exact ⟨out, hout, hchanges⟩

/-- Two values, moved around, and a number of values that is refused: three
values cannot be taken, and the two are added. -/
theorem all_or_nothing_two :
    let ops : List (Int × Operation) :=
      [(0, .input ⟨false, [5]⟩), (1, .input ⟨true, [7]⟩), (2, .rotate), (3, .takeCount (-1))]
    let s := Stack.new.after ops
    s.values = [⟨true, [7]⟩, ⟨false, [5]⟩] ∧
      s.perform 9 (.takeCount 3) = (.ok (.error (.fault .insufficientStackSize 9)), s) ∧
      ∃ u : Numeral, u.toInt = -2 ∧ (s.perform 9 .add).2.values = [u] := by
  intro ops s
  have hops : ∀ op ∈ ops, ∀ v, op.2 = .input v → v.WellFormed := by
    intro op hop v hv
    simp only [ops, List.mem_cons, List.not_mem_nil, or_false] at hop
    rcases hop with rfl | rfl | rfl | rfl
    · obtain rfl : ⟨false, [5]⟩ = v := Operation.input.inj hv
      exact .inr (Numeral.canonical_of_getLast? (d := 5) (by simp) rfl (by decide))
    · obtain rfl : ⟨true, [7]⟩ = v := Operation.input.inj hv
      exact .inr (Numeral.canonical_of_getLast? (d := 7) (by simp) rfl (by decide))
    · exact absurd hv (by simp)
    · exact absurd hv (by simp)
  have hvalues : s.values = [⟨true, [7]⟩, ⟨false, [5]⟩] := by decide +kernel
  have hthree : ∀ k, Operation.takeCount 3 = .takeCount k → 0 ≤ k := by
    intro k hk
    rw [← Operation.takeCount.inj hk]
    decide
  have hshort := (all_or_nothing hops 9 hthree).1 (show s.values.length < 3 by rw [hvalues]; decide)
  have hnone : ∀ k, Operation.add = .takeCount k → 0 ≤ k := by simp
  obtain ⟨_, hadd, _⟩ := all_or_nothing hops 9 hnone
  obtain ⟨out, _, hchanges⟩ := hadd (show 2 ≤ s.values.length by rw [hvalues]; decide)
  refine ⟨hvalues, hshort, ?_⟩
  -- the two values are all there are, so their sum is the only one left
  show ∃ u : Numeral, u.toInt = -2 ∧ ((Stack.new.after ops).perform 9 .add).2.values = [u]
  generalize ((Stack.new.after ops).perform 9 .add).2.values = after at hchanges ⊢
  rw [show (Stack.new.after ops).values = [⟨true, [7]⟩, ⟨false, [5]⟩] from hvalues] at hchanges
  generalize hbefore : [(⟨true, [7]⟩ : Numeral), ⟨false, [5]⟩] = before at hchanges
  cases hchanges with
  | @add rest a b u hu h =>
      obtain ⟨rfl, hpair⟩ := List.append_inj' ((List.nil_append _).trans hbefore) rfl
      obtain ⟨rfl, rfl⟩ : (⟨true, [7]⟩ : Numeral) = b ∧ ⟨false, [5]⟩ = a := by simpa using hpair
      exact ⟨u, h.trans (by decide), rfl⟩

end Stack

end Tetraglyph
