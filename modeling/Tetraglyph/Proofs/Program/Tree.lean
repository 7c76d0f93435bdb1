/-
  Tetraglyph.Proofs.Program.Tree
  ──────────────────────────────
  **PROGRAMS AS TREES OF LOOPS.**

  Kinds with balanced braces spell a TREE: plain instructions and loops, one
  behind the other, and inside each loop a tree again.  The parser reads the
  kinds from the back; a closing brace puts the tree behind it aside, and
  the opening brace takes it up again.

  A tree FITS a program if its instructions stand there, lead to each other,
  and the two braces of every loop jump to each other.

  Main results

      parse_flatten   — the instructions of a parsed tree are those given
      parse_fits      — what linking accepts has a tree, and the tree fits
-/
import Tetraglyph.Proofs.Program.Linking

namespace Tetraglyph

open Nesting

/-- Plain instructions and loops, one behind the other, with the indexes at
which they stand. -/
inductive Tree where
  /-- Nothing more. -/
  | done
  /-- An instruction which is no brace, and what is behind it. -/
  | plain (id : Nat) (kind : Kind) (rest : Tree)
  /-- A loop between the braces `l` and `r`, and what is behind it. -/
  | loop (l : Nat) (body : Tree) (r : Nat) (rest : Tree)
  deriving Repr, DecidableEq

namespace Tree

/-! ## §1. Parsing. -/

/-- Closing braces whose opening brace is yet to come, the nearest first, and
the trees behind them. -/
abbrev Pending := List (Nat × Tree)

/-- Reads kinds that stand from index `id` on. -/
def parseFrom : Nat → List Kind → Option (Tree × Pending)
  | _, [] => some (.done, [])
  | id, k :: ks =>
    match parseFrom (id + 1) ks with
    | none => none
    | some (t, pending) =>
      match k with
      | .lbrace =>
        match pending with
        | [] => none
        | (r, rest) :: more => some (.loop id t r rest, more)
      | .rbrace => some (.done, (id, t) :: pending)
      | k => some (.plain id k t, pending)

/-- The tree which kinds spell, if their braces are balanced. -/
def parse (ks : List Kind) : Option Tree :=
  match parseFrom 0 ks with
  | some (t, []) => some t
  | _ => none

example : parse [.push, .lbrace, .pop, .rbrace]
    = some (.plain 0 .push (.loop 1 (.plain 2 .pop .done) 3 .done)) := by decide

theorem parseFrom_lbrace {id : Nat} {ks : List Kind} {t : Tree} {r : Nat} {rest : Tree}
    {more : Pending} (h : parseFrom (id + 1) ks = some (t, (r, rest) :: more)) :
    parseFrom id (.lbrace :: ks) = some (.loop id t r rest, more) := by
  rw [parseFrom, h]

theorem parseFrom_rbrace {id : Nat} {ks : List Kind} {t : Tree} {pending : Pending}
    (h : parseFrom (id + 1) ks = some (t, pending)) :
    parseFrom id (.rbrace :: ks) = some (.done, (id, t) :: pending) := by
  rw [parseFrom, h]

theorem parseFrom_plain {id : Nat} {k : Kind} (hk : k.isBrace = false) {ks : List Kind} {t : Tree}
    {pending : Pending} (h : parseFrom (id + 1) ks = some (t, pending)) :
    parseFrom id (k :: ks) = some (.plain id k t, pending) := by
  rw [parseFrom, h]
  cases k <;> first | rfl | exact absurd hk (by decide)

/-- The instructions of a tree in the order in which they stand, each with
its index. -/
def flatten : Tree → List (Kind × Nat)
  | .done => []
  | .plain id k rest => (k, id) :: rest.flatten
  | .loop l body r rest => (.lbrace, l) :: (body.flatten ++ (.rbrace, r) :: rest.flatten)

/-- The instructions put aside. -/
def flattenPending : Pending → List (Kind × Nat)
  | [] => []
  | (r, rest) :: more => (.rbrace, r) :: (rest.flatten ++ flattenPending more)

theorem parseFrom_flatten {ks : List Kind} :
    ∀ {id : Nat} {t : Tree} {pending : Pending}, parseFrom id ks = some (t, pending) →
      t.flatten ++ flattenPending pending = ks.zipIdx id := by
  induction ks with
  | nil =>
      intro id t pending h
      rw [parseFrom, Option.some.injEq, Prod.mk.injEq] at h
      obtain ⟨rfl, rfl⟩ := h
      rfl
  | cons k ks ih =>
      intro id t pending h
      rw [parseFrom] at h
      split at h
      next => exact absurd h (by simp)
      next t' pending' hrest =>
          rw [List.zipIdx_cons, ← ih hrest]
          -- by the kind in front: an opening brace, a closing one, or none
          split at h
          next =>
              split at h
              next => exact absurd h (by simp)
              next r rest more =>
                  rw [Option.some.injEq, Prod.mk.injEq] at h
                  obtain ⟨rfl, rfl⟩ := h
                  simp [flatten, flattenPending]
          next =>
              rw [Option.some.injEq, Prod.mk.injEq] at h
              obtain ⟨rfl, rfl⟩ := h
              rfl
          next =>
              rw [Option.some.injEq, Prod.mk.injEq] at h
              obtain ⟨rfl, rfl⟩ := h
              rfl

/-- **The instructions of a parsed tree are those given**, in order. -/
theorem parse_flatten {ks : List Kind} {t : Tree} (h : parse ks = some t) :
    t.flatten = ks.zipIdx := by
  unfold parse at h
  split at h
  next t' hfrom =>
      rw [Option.some.injEq] at h
      subst h
      have := parseFrom_flatten hfrom
      rw [flattenPending, List.append_nil] at this
      exact this
  next => exact absurd h (by simp)

/-! ## §2. Trees that fit a program. -/

/-- The instructions of a tree stand in a program: from `e` on they lead to
each other and in the end to `x`, and the braces of a loop jump to each
other. -/
def Fits (p : Program) : Tree → Int → Int → Prop
  | .done, e, x => e = x
  | .plain id k rest, e, x =>
    e = (id : Int) ∧ k.isBrace = false ∧
      ∃ ix, p[id]? = some ix ∧ ix.kind = k ∧ rest.Fits p ix.next x
  | .loop l body r rest, e, x =>
    e = (l : Int) ∧
      ∃ lx rx, p[l]? = some lx ∧ lx.kind = .lbrace ∧ lx.jump = (r : Int) ∧
        p[r]? = some rx ∧ rx.kind = .rbrace ∧ rx.jump = (l : Int) ∧
        body.Fits p lx.next (r : Int) ∧ rest.Fits p rx.next x

/-- Where what is read so far goes on: at the nearest brace put aside. -/
def exitTo : Pending → Int
  | [] => halt
  | (r, _) :: _ => (r : Int)

/-- What is put aside fits the program, each closing brace with the open
brace it belongs to. -/
def PendingFits (p : Program) : List Nat → Pending → Prop
  | [], [] => True
  | l :: os, (r, rest) :: more =>
    (∃ rx, p[r]? = some rx ∧ rx.kind = .rbrace ∧ rx.jump = (l : Int) ∧
      (p.instr l).jump = (r : Int) ∧ rest.Fits p rx.next (exitTo more)) ∧
      PendingFits p os more
  | _, _ => False

/-- Where index `i` of a program is, the end if there is none. -/
def entry (p : Program) (i : Nat) : Int := if i < p.size then (i : Int) else halt

theorem next_eq_entry {ks : List Kind} {p : Program} (hl : p.Linked ks) {i : Nat} {ix : Instr}
    (hix : p[i]? = some ix) : ix.next = entry p (i + 1) := hl.next_eq i ix hix

/-- The tree of a linked program, read from the back. -/
theorem parseFrom_fits {ks : List Kind} {p : Program} (hl : p.Linked ks) (k : Nat) :
    ∀ (i : Nat) (os : List Nat), i + k = p.size → Paired p os (List.range' i k) [] →
      ∃ t pending, parseFrom i (ks.drop i) = some (t, pending) ∧
        t.Fits p (entry p i) (exitTo pending) ∧ PendingFits p os pending := by
  induction k with
  | zero =>
      intro i os hi hpaired
      have hos : os = [] := hpaired
      subst hos
      have hdrop : ks.drop i = [] := List.drop_eq_nil_of_le (by rw [← hl.size_eq]; omega)
      refine ⟨.done, [], by rw [hdrop]; rfl, ?_, trivial⟩
      show entry p i = halt
      exact if_neg (by omega)
  | succ k ih =>
      intro i os hi hpaired
      have hlt : i < p.size := by omega
      have hix := Program.getElem?_instr hlt
      have hentry : entry p i = (i : Int) := if_pos hlt
      -- the kinds left are those of the instructions left
      have hdrop : ks.drop i = (p.instr i).kind :: ks.drop (i + 1) := by
        have hlen : i < ks.length := by rw [← hl.size_eq]; exact hlt
        have hk := hl.kind_eq i _ hix
        rw [List.getElem?_eq_getElem hlen, Option.some.injEq] at hk
        rw [List.drop_eq_getElem_cons hlen, hk]
      rw [List.range'_succ] at hpaired
      rw [hentry, hdrop]
      rcases kind_cases (p.instr i).kind with hk | hk | hk
      · -- an opening brace takes up what its partner put aside
        rw [paired_lbrace hk] at hpaired
        obtain ⟨t, pending, hparse, hfits, hpend⟩ := ih (i + 1) (i :: os) (by omega) hpaired
        match pending, hpend with
        | (r, rest) :: more, ⟨⟨rx, hrx, hkr, hjr, hjl, hrest⟩, hmore⟩ =>
            refine ⟨.loop i t r rest, more, by rw [hk]; exact parseFrom_lbrace hparse, ?_, hmore⟩
            refine ⟨rfl, p.instr i, rx, hix, hk, hjl, hrx, hkr, hjr, ?_, hrest⟩
            rw [next_eq_entry hl hix]
            exact hfits
      · -- a closing brace ends the tree of its loop, and the tree behind it waits
        rw [paired_rbrace hk] at hpaired
        obtain ⟨l, os', hos, hjl, hjr, hpaired⟩ := hpaired
        subst hos
        obtain ⟨t, pending, hparse, hfits, hpend⟩ := ih (i + 1) os' (by omega) hpaired
        refine ⟨.done, (i, t) :: pending, by rw [hk]; exact parseFrom_rbrace hparse, rfl,
          ⟨p.instr i, hix, hk, hjr, hjl, ?_⟩, hpend⟩
        rw [next_eq_entry hl hix]
        exact hfits
      · rw [paired_plain hk] at hpaired
        obtain ⟨t, pending, hparse, hfits, hpend⟩ := ih (i + 1) os (by omega) hpaired
        refine ⟨.plain i (p.instr i).kind t, pending, parseFrom_plain hk hparse, ?_, hpend⟩
        refine ⟨rfl, hk, p.instr i, hix, rfl, ?_⟩
        rw [next_eq_entry hl hix]
        exact hfits

/-- **What linking accepts has a tree, and the tree fits.** -/
theorem parse_fits {ks : List Kind} {p : Program} (hl : p.Linked ks) :
    ∃ t, parse ks = some t ∧ t.Fits p (entry p 0) halt := by
  have hpaired := hl.paired
  rw [List.range_eq_range'] at hpaired
  obtain ⟨t, pending, hparse, hfits, hpend⟩ :=
    parseFrom_fits hl p.size 0 [] (by omega) hpaired
  match pending, hpend with
  | [], _ =>
      rw [List.drop_zero] at hparse
      exact ⟨t, by rw [parse, hparse], hfits⟩

end Tree

end Tetraglyph
