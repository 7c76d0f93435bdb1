/-
  Tetraglyph.Proofs.Stack
  ───────────────────────
  **A STACK IS A LIST WITH THE TOP IN FRONT.**

  A stack SHOWS a list of values, the top first, if its buffer is valid and
  holds these values.  Each operation is described by what it shows before
  and after; the buffer below it appears in the first few lemmas only.

  Main results

      Shows.push, Shows.take, Shows.top   — one value
      Shows.rotate, Shows.reverseRotate   — from one end to the other
      Shows.swap, Shows.combine           — two values
      Shows.takeMany                      — several values at once
-/
import Tetraglyph.Stack
import Tetraglyph.Proofs.Ring

namespace Tetraglyph

namespace Stack

/-- The stack holds these values, the top first. -/
def Shows (s : Stack) (vs : List Numeral) : Prop := s.ring.Valid ∧ s.values.reverse = vs

theorem shows_values {s : Stack} (h : s.ring.Valid) : s.Shows s.values.reverse := ⟨h, rfl⟩

namespace Shows

variable {s : Stack} {v : Numeral} {vs : List Numeral}

/-! ## §1. The buffer below. -/

theorem values_eq (h : s.Shows vs) : s.values = vs.reverse := by
  rw [← h.2, List.reverse_reverse]

theorem size_eq (h : s.Shows vs) : s.size = vs.length := by
  rw [← h.2, List.length_reverse]
  exact (Ring.length_toList s.ring).symm

/-- The values by their places in the buffer. -/
theorem peek_eq (h : s.Shows vs) {j : Nat} (hj : j < vs.length) :
    vs[j]? = some (s.ring.peek (s.size - 1 - j)) := by
  have hsize := h.size_eq
  have hlen : s.values.length = s.size := Ring.length_toList s.ring
  rw [← h.2, List.getElem?_reverse (by omega), hlen]
  show s.ring.toList[s.size - 1 - j]? = _
  rw [Ring.getElem?_toList, if_pos]
  show s.size - 1 - j < s.size
  omega

/-- Replacing a value, by its place in the buffer. -/
theorem put (h : s.Shows vs) {j : Nat} (hj : j < vs.length) (v : Numeral) :
    (s.put (s.size - 1 - j) v).Shows (vs.set j v) := by
  have hsize := h.size_eq
  have hlen : s.values.length = s.size := Ring.length_toList s.ring
  obtain ⟨hvalid, hlist⟩ :=
    Ring.store_spec h.1 (show s.size - 1 - j < s.ring.count from by show _ < s.size; omega) v
  refine ⟨hvalid, ?_⟩
  show (s.ring.store (s.size - 1 - j) v).toList.reverse = _
  rw [hlist]
  show (s.values.set (s.size - 1 - j) v).reverse = _
  rw [h.values_eq]
  -- the buffer counts from the bottom, the list from the top
  apply List.ext_getElem?
  intro i
  rw [List.getElem?_set]
  by_cases hi : i < vs.length
  · rw [List.getElem?_reverse (by simpa using hi), List.length_set, List.length_reverse,
      List.getElem?_set, List.length_reverse, List.getElem?_reverse (by omega)]
    by_cases hij : j = i
    · rw [if_pos (by omega), if_pos (by omega), if_pos hij, if_pos hj]
    · rw [if_neg (by omega), if_neg hij]
      congr 1
      omega
  · rw [List.getElem?_eq_none (by simpa using hi), if_neg (by omega),
      List.getElem?_eq_none (by omega)]

/-! ## §2. One value. -/

theorem push (h : s.Shows vs) (v : Numeral) : (s.push v).Shows (v :: vs) := by
  obtain ⟨hvalid, hlist⟩ := Ring.pushBack_spec h.1 v
  refine ⟨hvalid, ?_⟩
  show (s.ring.pushBack v).toList.reverse = _
  rw [hlist, List.reverse_append, ← h.2]
  rfl

theorem take_nil (h : s.Shows []) (id : Int) : s.take id = .error (.fault .emptyStack id) := by
  have hnil : s.ring.toList = [] := h.values_eq
  obtain ⟨e, he⟩ := Ring.popBack?_nil hnil
  unfold Stack.take
  rw [he]
  rfl

theorem take (h : s.Shows (v :: vs)) (id : Int) : ∃ s', s.take id = .ok (v, s') ∧ s'.Shows vs := by
  -- the top is at the back of the buffer
  have hlist : s.ring.toList = vs.reverse ++ [v] := by
    rw [← List.reverse_cons]
    exact h.values_eq
  obtain ⟨u, r, hpop, hvalid, hsplit⟩ := Ring.popBack?_spec h.1 (by rw [hlist]; simp)
  rw [hlist] at hsplit
  obtain ⟨hvs, hu⟩ := List.append_inj' hsplit rfl
  refine ⟨⟨r⟩, ?_, hvalid, ?_⟩
  · unfold Stack.take
    rw [hpop, List.singleton_inj.1 hu]
  · show r.toList.reverse = vs
    rw [← hvs, List.reverse_reverse]

theorem top_nil (h : s.Shows []) (id : Int) : s.top id = .error (.fault .emptyStack id) := by
  have hsize : s.size = 0 := h.size_eq
  unfold Stack.top
  rw [if_pos hsize]
  rfl

theorem top (h : s.Shows (v :: vs)) (id : Int) : s.top id = .ok v := by
  have hsize : s.size = vs.length + 1 := h.size_eq
  have hpeek := h.peek_eq (j := 0) (by simp)
  unfold Stack.top
  rw [if_neg (by omega)]
  rw [List.getElem?_cons_zero, Option.some.injEq, Nat.sub_zero] at hpeek
  rw [← hpeek]

/-- The top moves to the bottom. -/
theorem rotate (h : s.Shows (v :: vs)) (id : Int) :
    ∃ s', s.rotate id = .ok s' ∧ s'.Shows (vs ++ [v]) := by
  obtain ⟨s', htake, hs'⟩ := h.take id
  obtain ⟨hvalid, hlist⟩ := Ring.pushFront_spec hs'.1 v
  refine ⟨⟨s'.ring.pushFront v⟩, ?_, hvalid, ?_⟩
  · unfold Stack.rotate
    rw [htake]
    rfl
  · show (s'.ring.pushFront v).toList.reverse = _
    rw [hlist, List.reverse_cons]
    show s'.values.reverse ++ [v] = _
    rw [hs'.2]

theorem reverseRotate_nil (h : s.Shows []) (id : Int) :
    s.reverseRotate id = .error (.fault .emptyStack id) := by
  have hnil : s.ring.toList = [] := h.values_eq
  obtain ⟨e, he⟩ := Ring.popFront?_nil hnil
  unfold Stack.reverseRotate
  rw [he]
  rfl

/-- The bottom moves to the top. -/
theorem reverseRotate (h : s.Shows (vs ++ [v])) (id : Int) :
    ∃ s', s.reverseRotate id = .ok s' ∧ s'.Shows (v :: vs) := by
  -- the bottom is at its front
  have hlist : s.ring.toList = v :: vs.reverse := by
    have := h.values_eq
    rw [List.reverse_append] at this
    exact this
  obtain ⟨u, r, hpop, hvalid, hsplit⟩ := Ring.popFront?_spec h.1 (by rw [hlist]; simp)
  rw [hlist, List.cons.injEq] at hsplit
  have hr : (⟨r⟩ : Stack).Shows vs := ⟨hvalid, by
    show r.toList.reverse = vs
    rw [← hsplit.2, List.reverse_reverse]⟩
  refine ⟨⟨r.pushBack v⟩, ?_, hr.push v⟩
  unfold Stack.reverseRotate
  rw [hpop, hsplit.1]

/-! ## §3. Several values. -/

theorem swap_short (h : s.Shows vs) (hlen : vs.length < 2) (id : Int) :
    s.swap id = .error (.fault .insufficientStackSize id) := by
  unfold Stack.swap
  rw [if_pos (by rw [h.size_eq]; exact hlen)]
  rfl

theorem swap {a b : Numeral} (h : s.Shows (a :: b :: vs)) (id : Int) :
    ∃ s', s.swap id = .ok s' ∧ s'.Shows (b :: a :: vs) := by
  have hsize : s.size = vs.length + 2 := h.size_eq
  have ha := h.peek_eq (j := 0) (by simp)
  have hb := h.peek_eq (j := 1) (by simp)
  rw [List.getElem?_cons_zero, Option.some.injEq, Nat.sub_zero] at ha
  rw [List.getElem?_cons_succ, List.getElem?_cons_zero, Option.some.injEq,
    show s.size - 1 - 1 = s.size - 2 by omega] at hb
  -- the top becomes `b`, then the value below it becomes `a`
  have h1 := h.put (j := 0) (by simp) b
  rw [Nat.sub_zero] at h1
  have h2 := h1.put (j := 1) (by simp) a
  have hsize' : (s.put (s.size - 1) b).size = s.size := rfl
  rw [hsize', show s.size - 1 - 1 = s.size - 2 by omega] at h2
  refine ⟨(s.put (s.size - 1) b).put (s.size - 2) a, ?_, h2⟩
  unfold Stack.swap
  rw [if_neg (by omega)]
  dsimp only
  rw [← ha, ← hb]

theorem combine_short (h : s.Shows vs) (hlen : vs.length < 2) (id : Int)
    (f : Numeral → Numeral → Numeral) :
    s.combine id f = .error (.fault .insufficientStackSize id) := by
  unfold Stack.combine
  rw [if_pos (by rw [h.size_eq]; exact hlen)]
  rfl

theorem combine {a b : Numeral} (h : s.Shows (a :: b :: vs)) (id : Int)
    (f : Numeral → Numeral → Numeral) :
    ∃ s', s.combine id f = .ok s' ∧ s'.Shows (f a b :: vs) := by
  have hsize : s.size = vs.length + 2 := h.size_eq
  obtain ⟨s₁, h₁, hs₁⟩ := h.take id
  obtain ⟨s₂, h₂, hs₂⟩ := hs₁.take id
  refine ⟨s₂.push (f a b), ?_, hs₂.push (f a b)⟩
  unfold Stack.combine
  rw [if_neg (by omega)]
  simp only [h₁, h₂, bind, Except.bind]
  rfl

theorem negate (h : s.Shows (v :: vs)) (id : Int) :
    ∃ s', s.negate id = .ok s' ∧ s'.Shows (v.negate :: vs) := by
  have hput := h.put (j := 0) (by simp) v.negate
  rw [Nat.sub_zero] at hput
  refine ⟨s.put (s.size - 1) v.negate, ?_, hput⟩
  unfold Stack.negate
  rw [h.top id]
  rfl

theorem takeEach (k : Nat) (id : Int) :
    ∀ {s : Stack} {vs : List Numeral}, s.Shows vs → k ≤ vs.length →
      ∃ s', takeEach id k s = .ok (vs.take k, s') ∧ s'.Shows (vs.drop k) := by
  induction k with
  | zero => exact fun {s} {_} h _ => ⟨s, rfl, h⟩
  | succ k ih =>
      intro s vs h hk
      match vs, h, hk with
      | v :: vs, h, hk =>
          obtain ⟨s₁, h₁, hs₁⟩ := h.take id
          obtain ⟨s₂, h₂, hs₂⟩ := ih hs₁ (Nat.le_of_succ_le_succ hk)
          refine ⟨s₂, ?_, hs₂⟩
          unfold Stack.takeEach
          simp only [h₁, h₂, bind, Except.bind]
          rfl

theorem takeMany_short (h : s.Shows vs) {k : Nat} (hlen : vs.length < k) (id : Int) :
    s.takeMany id k = .error (.fault .insufficientStackSize id) := by
  unfold Stack.takeMany
  rw [if_pos (by rw [h.size_eq]; exact hlen)]

theorem takeMany (h : s.Shows vs) {k : Nat} (hlen : k ≤ vs.length) (id : Int) :
    ∃ s', s.takeMany id k = .ok (vs.take k, s') ∧ s'.Shows (vs.drop k) := by
  unfold Stack.takeMany
  rw [if_neg (by rw [h.size_eq]; omega)]
  exact takeEach k id h hlen

end Shows

end Stack

end Tetraglyph
