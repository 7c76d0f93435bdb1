/-
  Tetraglyph.Proofs.Ring.Deque
  ────────────────────────────
  **EVERY BUFFER IS A LIST WITH TWO ENDS.**

  A client of a ring buffer makes one, with some slots or none, and calls
  its operations in any order, those that are refused included.  The same
  CALLS can be made on a plain list.  Call for call both give the same
  answers, and the buffer holds the list: however its window wraps around,
  and wherever its head was when it grew.

      Call           — a call, of six kinds
      answer         — what a buffer answers, and what is left of it
      Deque.answer   — the same of a list
      after          — what a sequence of calls leaves

  Main results

      answer_refines   — one call
      after_refines    — every sequence of calls
      size_answer      — when the number of slots changes
      run_answer       — a call done guarded, one statement after the other
      refines_deque    — all of this of every buffer a client can hold
-/
import Tetraglyph.Proofs.Ring.Guarded

namespace Tetraglyph

/-! ## §1. Calls. -/

namespace Ring

/-- A call of an operation. -/
inductive Call (α : Type) where
  /-- Adds a value at the back. -/
  | pushBack (v : α)
  /-- Adds a value at the front. -/
  | pushFront (v : α)
  /-- Takes the value at the back. -/
  | popBack
  /-- Takes the value at the front. -/
  | popFront
  /-- Asks for the value `i` places after the front. -/
  | read (i : Int)
  /-- Replaces the value `i` places after the front. -/
  | write (i : Int) (v : α)
  deriving Repr, DecidableEq

/-- What a call answers: a value, or nothing, or that it is refused. -/
abbrev Answer (α : Type) := Except Misuse (Option α)

/-- Whether a call adds a value. -/
def Call.isPush {α : Type} : Call α → Bool
  | .pushBack _ | .pushFront _ => true
  | _ => false

end Ring

namespace Deque

variable {α : Type}

/-- What a plain list answers to a call, and what is left of it.  A place
that is not there is refused with its number, and so is a pop of an empty
list, with the place it would have to look at. -/
def answer (xs : List α) : Ring.Call α → Ring.Answer α × List α
  | .pushBack v => (.ok none, xs ++ [v])
  | .pushFront v => (.ok none, v :: xs)
  | .popBack =>
    match xs.getLast? with
    | some v => (.ok (some v), xs.dropLast)
    | none => (.error (.index (-1)), xs)
  | .popFront =>
    match xs with
    | v :: xs => (.ok (some v), xs)
    | [] => (.error (.index 0), [])
  | .read i =>
    if 0 ≤ i ∧ i < xs.length then (.ok xs[i.toNat]?, xs) else (.error (.index i), xs)
  | .write i v =>
    if 0 ≤ i ∧ i < xs.length then (.ok none, xs.set i.toNat v) else (.error (.index i), xs)

/-- The list after a sequence of calls. -/
def after (xs : List α) (cs : List (Ring.Call α)) : List α :=
  cs.foldl (fun xs c => (answer xs c).2) xs

end Deque

namespace Ring

variable {α : Type} [Inhabited α]

/-- The answer of an operation that may be refused, which changes nothing
then. -/
def settle (r : Ring α) : Except Misuse (Option α × Ring α) → Answer α × Ring α
  | .ok (a, r') => (.ok a, r')
  | .error e => (.error e, r)

/-- What a buffer answers to a call, and what is left of it. -/
def answer (r : Ring α) : Call α → Answer α × Ring α
  | .pushBack v => (.ok none, r.pushBack v)
  | .pushFront v => (.ok none, r.pushFront v)
  | .popBack => r.settle (r.popBack?.map fun (v, r') => (some v, r'))
  | .popFront => r.settle (r.popFront?.map fun (v, r') => (some v, r'))
  | .read i => r.settle ((r.at? i).map fun v => (some v, r))
  | .write i v => r.settle ((r.set? i v).map fun r' => (none, r'))

/-- The buffer after a sequence of calls. -/
def after (r : Ring α) (cs : List (Call α)) : Ring α := cs.foldl (fun r c => (r.answer c).2) r

/-- A buffer as a client makes it: without slots, or with a number of them
that is not negative. -/
def Made (r : Ring α) : Prop := r = empty ∨ ∃ n : Int, 0 ≤ n ∧ new n = .ok r

/-! ## §2. Calls on a buffer and on its list. -/

theorem at?_of_lt {r : Ring α} {i : Int} (hi : 0 ≤ i ∧ i < r.count) :
    r.at? i = .ok (r.peek i.toNat) := by
  unfold at?
  rw [if_neg (by omega)]

theorem read_refines (r : Ring α) (i : Int) :
    r.answer (.read i) = ((Deque.answer r.toList (.read i)).1, r) := by
  unfold answer Deque.answer
  dsimp only
  rw [length_toList]
  by_cases hi : 0 ≤ i ∧ i < r.count
  · rw [if_pos hi, at?_of_lt hi, getElem?_toList, if_pos (by omega)]
    rfl
  · unfold at?
    rw [if_neg hi, if_pos (by omega)]
    rfl

theorem popBack_refines {r : Ring α} (h : r.Valid) :
    (r.answer .popBack).2.Valid ∧
      (r.answer .popBack).1 = (Deque.answer r.toList .popBack).1 ∧
      (r.answer .popBack).2.toList = (Deque.answer r.toList .popBack).2 := by
  unfold answer Deque.answer
  by_cases hne : r.toList = []
  · have hcount := (toList_eq_nil_iff r).1 hne
    have hpop : r.popBack? = .error (.index (-1)) := by
      unfold popBack? at?
      rw [hcount]
      rfl
    rw [hpop, hne]
    exact ⟨h, rfl, hne⟩
  · obtain ⟨v, r', hpop, hvalid, hlist⟩ := popBack?_spec h hne
    rw [hpop, hlist]
    simp only [List.getLast?_concat, List.dropLast_concat]
    exact ⟨hvalid, rfl, rfl⟩

theorem popFront_refines {r : Ring α} (h : r.Valid) :
    (r.answer .popFront).2.Valid ∧
      (r.answer .popFront).1 = (Deque.answer r.toList .popFront).1 ∧
      (r.answer .popFront).2.toList = (Deque.answer r.toList .popFront).2 := by
  unfold answer Deque.answer
  by_cases hne : r.toList = []
  · have hcount := (toList_eq_nil_iff r).1 hne
    have hpop : r.popFront? = .error (.index 0) := by
      unfold popFront? at?
      rw [hcount]
      rfl
    rw [hpop, hne]
    exact ⟨h, rfl, hne⟩
  · obtain ⟨v, r', hpop, hvalid, hlist⟩ := popFront?_spec h hne
    rw [hpop, hlist]
    exact ⟨hvalid, rfl, rfl⟩

theorem write_refines {r : Ring α} (h : r.Valid) (i : Int) (v : α) :
    (r.answer (.write i v)).2.Valid ∧
      (r.answer (.write i v)).1 = (Deque.answer r.toList (.write i v)).1 ∧
      (r.answer (.write i v)).2.toList = (Deque.answer r.toList (.write i v)).2 := by
  unfold answer Deque.answer set?
  dsimp only
  rw [length_toList]
  by_cases hi : 0 ≤ i ∧ i < r.count
  · obtain ⟨hvalid, hlist⟩ := store_spec h (i := i.toNat) (by omega) v
    rw [if_pos hi, if_neg (by omega)]
    exact ⟨hvalid, rfl, hlist⟩
  · rw [if_neg hi, if_pos (by omega)]
    exact ⟨h, rfl, rfl⟩

/-- **One call on a buffer is one call on its list.** -/
theorem answer_refines {r : Ring α} (h : r.Valid) (c : Call α) :
    (r.answer c).2.Valid ∧ (r.answer c).1 = (Deque.answer r.toList c).1 ∧
      (r.answer c).2.toList = (Deque.answer r.toList c).2 := by
  cases c with
  | pushBack v =>
      obtain ⟨hvalid, hlist⟩ := pushBack_spec h v
      exact ⟨hvalid, rfl, hlist⟩
  | pushFront v =>
      obtain ⟨hvalid, hlist⟩ := pushFront_spec h v
      exact ⟨hvalid, rfl, hlist⟩
  | popBack => exact popBack_refines h
  | popFront => exact popFront_refines h
  | read i =>
      rw [read_refines]
      refine ⟨h, rfl, ?_⟩
      unfold Deque.answer
      dsimp only
      split <;> rfl
  | write i v => exact write_refines h i v

/-- **Every sequence of calls on a buffer is the sequence on its list.** -/
theorem after_refines (cs : List (Call α)) :
    ∀ {r : Ring α}, r.Valid → (r.after cs).Valid ∧
      (r.after cs).toList = Deque.after r.toList cs := by
  induction cs with
  | nil => exact fun h => ⟨h, rfl⟩
  | cons c cs ih =>
      intro r h
      obtain ⟨hvalid, _, hlist⟩ := answer_refines h c
      show ((r.answer c).2.after cs).Valid ∧ ((r.answer c).2.after cs).toList
        = Deque.after (Deque.answer r.toList c).2 cs
      rw [← hlist]
      exact ih hvalid

theorem Made.valid {r : Ring α} (h : r.Made) : r.Valid ∧ r.toList = [] := by
  rcases h with rfl | ⟨n, _, hn⟩
  · exact ⟨valid_withSlots 0, rfl⟩
  · unfold new at hn
    split at hn
    next => exact absurd hn (by simp)
    next =>
        rw [← Except.ok.inj hn]
        exact ⟨valid_withSlots _, rfl⟩

/-! ## §3. The slots. -/

/-- Every slot is the slot of a place. -/
theorem exists_slot {r : Ring α} (h : r.Valid) {j : Nat} (hj : j < r.slots.size) :
    ∃ i, i < r.slots.size ∧ r.slot i = j := by
  have hhead := h.head_lt (by omega)
  unfold slot
  by_cases hle : r.head ≤ j
  · refine ⟨j - r.head, by omega, ?_⟩
    rw [Nat.add_sub_cancel' hle, Nat.mod_eq_of_lt hj]
  · refine ⟨j + r.slots.size - r.head, by omega, ?_⟩
    rw [show r.head + (j + r.slots.size - r.head) = j + r.slots.size by omega,
      Nat.add_mod_right, Nat.mod_eq_of_lt hj]

/-- A slot in which there is no value is cleared. -/
theorem Valid.cleared {r : Ring α} (h : r.Valid) {j : Nat} (hj : j < r.slots.size)
    (hfree : ∀ i, i < r.count → r.slot i ≠ j) : r.slots[j]? = some default := by
  obtain ⟨i, hi, hij⟩ := exists_slot h hj
  have hcount : r.count ≤ i := Nat.le_of_not_lt fun hlt => hfree i hlt hij
  have hpeek := h.2.2 i hcount hi
  unfold peek at hpeek
  rw [hij, Array.getD_eq_getD_getElem?, Array.getElem?_eq_getElem hj] at hpeek
  rw [Array.getElem?_eq_getElem hj]
  exact congrArg some hpeek

/-- Growing doubles the slots of a full buffer, and none becomes eight. -/
theorem size_grow {r : Ring α} (h : r.Valid) :
    r.grow.slots.size = if r.count = r.slots.size then
      if r.slots.size = 0 then 8 else 2 * r.slots.size else r.slots.size := by
  have hle := h.1
  unfold grow
  split
  next hroom => rw [if_neg (by omega)]
  next hfull =>
      have hcount : r.count = r.slots.size := by omega
      dsimp only
      rw [size_grown, if_pos hcount]
      split <;> omega

theorem size_popBack? {r r' : Ring α} {v : α} (h : r.popBack? = .ok (v, r')) :
    r'.slots.size = r.slots.size := by
  unfold popBack? at h
  split at h
  next => exact absurd h (by simp)
  next =>
      obtain ⟨_, rfl⟩ := Prod.mk.inj (Except.ok.inj h)
      exact Array.size_setIfInBounds

theorem size_popFront? {r r' : Ring α} {v : α} (h : r.popFront? = .ok (v, r')) :
    r'.slots.size = r.slots.size := by
  unfold popFront? at h
  split at h
  next => exact absurd h (by simp)
  next =>
      obtain ⟨_, rfl⟩ := Prod.mk.inj (Except.ok.inj h)
      exact Array.size_setIfInBounds

omit [Inhabited α] in
theorem size_set? {r r' : Ring α} {i : Int} {v : α} (h : r.set? i v = .ok r') :
    r'.slots.size = r.slots.size := by
  unfold set? at h
  split at h
  next => exact absurd h (by simp)
  next =>
      rw [← Except.ok.inj h]
      exact Array.size_setIfInBounds

/-- **The number of slots changes only with a push into a full buffer.** -/
theorem size_answer {r : Ring α} (h : r.Valid) (c : Call α) :
    (r.answer c).2.slots.size = if c.isPush = true ∧ r.count = r.slots.size then
      if r.slots.size = 0 then 8 else 2 * r.slots.size else r.slots.size := by
  cases c with
  | pushBack v =>
      show (r.pushBack v).slots.size = _
      rw [size_pushBack, size_grow h]
      simp [Call.isPush]
  | pushFront v =>
      show (r.pushFront v).slots.size = _
      rw [size_pushFront, size_grow h]
      simp [Call.isPush]
  | popBack =>
      rw [if_neg (by simp [Call.isPush])]
      unfold answer
      dsimp only
      cases hpop : r.popBack? with
      | error e => rfl
      | ok p => exact size_popBack? hpop
  | popFront =>
      rw [if_neg (by simp [Call.isPush])]
      unfold answer
      dsimp only
      cases hpop : r.popFront? with
      | error e => rfl
      | ok p => exact size_popFront? hpop
  | read i =>
      rw [if_neg (by simp [Call.isPush]), read_refines]
  | write i v =>
      rw [if_neg (by simp [Call.isPush])]
      unfold answer
      dsimp only
      cases hset : r.set? i v with
      | error e => rfl
      | ok r' => exact size_set? hset

/-! ## §4. Guarded calls. -/

namespace Guarded

/-- A call, one statement after the other. -/
def answer : Call α → Work α (Option α)
  | .pushBack v => do pushBack v; return none
  | .pushFront v => do pushFront v; return none
  | .popBack => do return some (← popBack)
  | .popFront => do return some (← popFront)
  | .read i => do return some (← valueAt i)
  | .write i v => do replace i v; return none

/-- What came of guarded work, and the buffer that it left. -/
def left {β : Type} : EStateM.Result Misuse (Ring α) β → Except Misuse β × Ring α
  | .ok b r => (.ok b, r)
  | .error e r => (.error e, r)

/-- **A guarded call does what the call does**, without a breakdown other
than the refusal. -/
theorem run_answer {r : Ring α} (h : r.Valid) (c : Call α) :
    left ((answer c).run r) = r.answer c := by
  cases c with
  | pushBack v =>
      unfold answer
      rw [EStateM.run_bind, run_pushBack h]
      rfl
  | pushFront v =>
      unfold answer
      rw [EStateM.run_bind, run_pushFront h]
      rfl
  | popBack =>
      unfold answer Ring.answer
      dsimp only
      rw [EStateM.run_bind, run_popBack h]
      cases r.popBack? <;> rfl
  | popFront =>
      unfold answer Ring.answer
      dsimp only
      rw [EStateM.run_bind, run_popFront h]
      cases r.popFront? <;> rfl
  | read i =>
      unfold answer Ring.answer
      dsimp only
      rw [EStateM.run_bind, run_valueAt h]
      cases r.at? i <;> rfl
  | write i v =>
      unfold answer Ring.answer
      dsimp only
      rw [EStateM.run_bind, run_replace h]
      cases r.set? i v <;> rfl

end Guarded

/-- What is refused changes nothing. -/
theorem answer_refused {r : Ring α} {c : Call α} {e : Misuse} (h : (r.answer c).1 = .error e) :
    (r.answer c).2 = r := by
  have hsettle : ∀ x, (r.settle x).1 = .error e → (r.settle x).2 = r := by
    intro x hx
    cases x with
    | ok p => exact absurd hx (by simp [settle])
    | error e => rfl
  cases c with
  | pushBack v => exact absurd h (by simp [answer])
  | pushFront v => exact absurd h (by simp [answer])
  | popBack => exact hsettle _ h
  | popFront => exact hsettle _ h
  | read i => exact hsettle _ h
  | write i v => exact hsettle _ h

/-! ## §5. Every buffer. -/

/-- **A ring buffer refines a list with two ends.**  Of every buffer that a
client makes and then calls in any way: the values lie inside the slots, and
so does the head, unless there are no slots; every slot without a value is
cleared; and read from front to back the buffer is the list which the same
calls make.  Whatever is called next is answered as the list answers it: a
place is refused exactly if it is not there, and a pop exactly if nothing
is.  Done guarded, one statement after the other, the call comes out the
same, so nothing else breaks it down; and if it is refused the buffer is
what it was.  Only a push into a full buffer changes the number of slots,
and then doubles it or makes it eight. -/
theorem refines_deque {start : Ring α} (hstart : start.Made) (cs : List (Call α)) :
    let r := start.after cs
    let xs := Deque.after [] cs
    (r.count ≤ r.capacity ∧ (r.head < r.capacity ∨ r.capacity = 0 ∧ r.head = 0) ∧
      ∀ j, j < r.capacity → (∀ i, i < r.count → r.slot i ≠ j) → r.slots[j]? = some default) ∧
    (List.range r.count).map (fun i : Nat => r.at? i) = xs.map .ok ∧
    ∀ c : Call α,
      (r.answer c).1 = (Deque.answer xs c).1 ∧
      Guarded.left ((Guarded.answer c).run r) = r.answer c ∧
      (∀ e, (r.answer c).1 = .error e → (r.answer c).2 = r) ∧
      (r.answer c).2.capacity = if c.isPush = true ∧ r.count = r.capacity then
        if r.capacity = 0 then 8 else 2 * r.capacity else r.capacity := by
  intro r xs
  obtain ⟨hvalid₀, hnil⟩ := hstart.valid
  obtain ⟨hvalid, hlist⟩ : r.Valid ∧ r.toList = xs := by
    obtain ⟨hvalid, hlist⟩ := after_refines cs hvalid₀
    rw [hnil] at hlist
    exact ⟨hvalid, hlist⟩
  refine ⟨⟨hvalid.1, hvalid.2.1, fun j hj hfree => hvalid.cleared hj hfree⟩, ?_, fun c => ?_⟩
  · rw [← hlist]
    unfold toList
    rw [List.map_map]
    refine List.map_congr_left fun i hi => ?_
    have hi := List.mem_range.1 hi
    exact at?_of_lt ⟨by omega, by omega⟩
  · refine ⟨?_, Guarded.run_answer hvalid c, fun e he => answer_refused he, size_answer hvalid c⟩
    rw [← hlist]
    exact (answer_refines hvalid c).2.1

/-- Two slots: the window wraps around, a third value makes four slots, and
a place behind the last value is refused. -/
theorem refines_deque_wrapped :
    let cs : List (Call Nat) :=
      [.pushBack 1, .pushBack 2, .popFront, .pushBack 3, .pushFront 7, .read 3]
    ∃ start : Ring Nat, start.Made ∧ start.capacity = 2 ∧ (start.after cs).capacity = 4 ∧
      Deque.after [] cs = [7, 2, 3] ∧
      (List.range 3).map (fun i : Nat => (start.after cs).at? i) = [.ok 7, .ok 2, .ok 3] ∧
      Guarded.left ((Guarded.answer .popBack).run (start.after cs))
        = (start.after cs).answer .popBack ∧
      ((start.after cs).answer (.read 3)).1 = .error (.index 3) := by
  intro cs
  have hmade : (withSlots 2 : Ring Nat).Made := .inr ⟨2, by decide, rfl⟩
  obtain ⟨_, hlist, hcalls⟩ := refines_deque hmade cs
  have hafter : Deque.after [] cs = [7, 2, 3] := by decide
  have hcount : ((withSlots 2 : Ring Nat).after cs).count = 3 := by decide +kernel
  rw [hcount, hafter] at hlist
  refine ⟨withSlots 2, hmade, rfl, by decide +kernel, hafter, hlist, (hcalls .popBack).2.1, ?_⟩
  rw [(hcalls (.read 3)).1, hafter]
  rfl

end Ring

end Tetraglyph
