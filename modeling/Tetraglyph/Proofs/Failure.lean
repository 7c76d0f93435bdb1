/-
  Tetraglyph.Proofs.Failure
  ─────────────────────────
  **WHAT A CHAIN OF ERRORS TELLS.**

  An error may have a cause, the cause may have one, and so on down to an
  error without a cause.  The exit code and the kind of a failure are found
  by searches that go down this chain, one after another: for an argument,
  for a program that cannot be loaded, for a fault.  It is the ORDER OF THE
  SEARCHES that decides, and not the order in which errors are wrapped into
  each other; only among faults does the outermost one count.

  Places in a chain are counted by causes, without the list of its errors:

      Below                       — so many causes below an error
      Contains, Outermost         — somewhere in the chain; there, and not
                                    above
      IsArgument, Rejects, Faults — what a single error is about

  Main results

      getElem?_chain_iff          — the list of a chain is told by `Below`
      findSome?_chain_eq_some_iff — a search finds the outermost match
      Below.eq_of_last            — a chain has one last error
      kind?_eq_some_iff           — where the kind of a failure comes from
      chain_classifies            — exit code and kind of every chain
-/
import Tetraglyph.Failure

namespace Tetraglyph

namespace Failure

/-! ## §1. Places in a chain. -/

/-- `g` stands `n` causes below `f`. -/
inductive Below : Failure → Nat → Failure → Prop where
  /-- An error is the top of its own chain. -/
  | top (f : Failure) : Below f 0 f
  /-- What is below the cause is one deeper below the error. -/
  | deeper {f c g : Failure} {n : Nat} (hcause : f.cause? = some c) (hbelow : Below c n g) :
      Below f (n + 1) g

/-- The chain of `f` contains an error with the property `P`. -/
def Contains (f : Failure) (P : Failure → Prop) : Prop := ∃ n g, f.Below n g ∧ P g

/-- `g` has the property `P` and is in the chain of `f`, and no error above it
has the property. -/
def Outermost (f : Failure) (P : Failure → Prop) (g : Failure) : Prop :=
  ∃ n, f.Below n g ∧ P g ∧ ∀ m < n, ∀ h, f.Below m h → ¬ P h

/-- Induction down a chain: an error without a cause, and an error whose cause
is done. -/
@[elab_as_elim] theorem chainInduction {P : Failure → Prop}
    (last : ∀ f, f.cause? = none → P f) (next : ∀ f c, f.cause? = some c → P c → P f)
    (f : Failure) : P f := by
  induction f with
  | syntactic kind id => exact last _ rfl
  | fault kind id => exact last _ rfl
  | faultFrom kind id cause ih => exact next _ cause rfl ih
  | argument name => exact last _ rfl
  | argumentFrom name cause ih => exact next _ cause rfl ih
  | within before cause after ih => exact next _ cause rfl ih
  | plain text => exact last _ rfl
  | known error => exact last _ rfl

theorem chain_of_last {f : Failure} (h : f.cause? = none) : f.chain = [f] := by
  cases f with
  | faultFrom kind id cause => exact absurd h (by simp [cause?])
  | argumentFrom name cause => exact absurd h (by simp [cause?])
  | within before cause after => exact absurd h (by simp [cause?])
  | _ => rfl

theorem chain_of_cause {f c : Failure} (h : f.cause? = some c) : f.chain = f :: c.chain := by
  cases f with
  | faultFrom kind id cause =>
      obtain rfl : cause = c := Option.some.inj h
      rfl
  | argumentFrom name cause =>
      obtain rfl : cause = c := Option.some.inj h
      rfl
  | within before cause after =>
      obtain rfl : cause = c := Option.some.inj h
      rfl
  | _ => exact absurd h (by simp [cause?])

/-- **The list of a chain**: at place `n` is the error `n` causes below. -/
theorem getElem?_chain_iff {f g : Failure} {n : Nat} :
    f.chain[n]? = some g ↔ f.Below n g := by
  -- down the causes, for all places at once: each cause shifts the places by one
  induction f using chainInduction generalizing n with
  | last f hlast =>
      rw [chain_of_last hlast]
      constructor
      · intro h
        obtain ⟨rfl, rfl⟩ : n = 0 ∧ f = g := by simpa [List.getElem?_singleton] using h
        exact .top f
      · intro h
        cases h with
        | top => rfl
        | deeper hcause _ => exact absurd (hlast.symm.trans hcause) (by simp)
  | next f c hcause ih =>
      rw [chain_of_cause hcause]
      constructor
      · intro h
        cases n with
        | zero =>
            obtain rfl : f = g := Option.some.inj h
            exact .top f
        | succ n => exact .deeper hcause (ih.1 h)
      · intro h
        cases h with
        | top => rfl
        | deeper hcause' hbelow =>
            obtain rfl := Option.some.inj (hcause.symm.trans hcause')
            exact ih.2 hbelow

/-- **A chain has one last error.** -/
theorem Below.eq_of_last {f g h : Failure} {m n : Nat} (hg : f.Below m g) (hh : f.Below n h)
    (hglast : g.cause? = none) (hhlast : h.cause? = none) : g = h := by
  -- both ways go down together, because a cause is unique
  induction hg generalizing n with
  | top f =>
      cases hh with
      | top => rfl
      | deeper hcause _ => exact absurd (hglast.symm.trans hcause) (by simp)
  | deeper hcause _ ih =>
      cases hh with
      | top => exact absurd (hhlast.symm.trans hcause) (by simp)
      | deeper hcause' hbelow =>
          obtain rfl := Option.some.inj (hcause.symm.trans hcause')
          exact ih hbelow hglast

/-! ## §2. Searching a chain. -/

section

variable {α : Type} {p : Failure → Option α} {P : Failure → Prop}
  (hp : ∀ g, (p g).isSome = true ↔ P g) {f : Failure}

include hp

/-- A search finds something if the chain contains something to be found. -/
theorem isSome_findSome?_chain_iff : (f.chain.findSome? p).isSome = true ↔ f.Contains P := by
  rw [List.findSome?_isSome_iff]
  constructor
  · intro ⟨g, hmem, hfound⟩
    obtain ⟨n, hn⟩ := List.getElem?_of_mem hmem
    exact ⟨n, g, getElem?_chain_iff.1 hn, (hp g).1 hfound⟩
  · intro ⟨n, g, hbelow, hg⟩
    exact ⟨g, List.mem_of_getElem? (getElem?_chain_iff.2 hbelow), (hp g).2 hg⟩

/-- **A search finds the outermost match.** -/
theorem findSome?_chain_eq_some_iff {a : α} :
    f.chain.findSome? p = some a ↔ ∃ g, f.Outermost P g ∧ p g = some a := by
  rw [List.findSome?_eq_some_iff]
  constructor
  · intro ⟨above, g, below, hsplit, hg, hnone⟩
    refine ⟨g, ⟨above.length, ?_, (hp g).1 (Option.isSome_iff_exists.2 ⟨a, hg⟩), ?_⟩, hg⟩
    · rw [← getElem?_chain_iff, hsplit]
      simp
    · intro m hm h hbelow hmatch
      have hat := getElem?_chain_iff.2 hbelow
      rw [hsplit, List.getElem?_append_left hm] at hat
      rw [← hp, hnone h (List.mem_of_getElem? hat)] at hmatch
      exact absurd hmatch (by simp)
  · intro ⟨g, ⟨n, hbelow, _, habove⟩, hg⟩
    -- the chain is cut in three at the place of the match
    obtain ⟨hn, hget⟩ := List.getElem?_eq_some_iff.1 (getElem?_chain_iff.2 hbelow)
    refine ⟨f.chain.take n, g, f.chain.drop (n + 1), ?_, hg, ?_⟩
    · rw [← hget, List.getElem_cons_drop, List.take_append_drop]
    · intro h hmem
      obtain ⟨m, hm⟩ := List.getElem?_of_mem hmem
      have hlt : m < n := by
        have := (List.getElem?_eq_some_iff.1 hm).1
        rw [List.length_take] at this
        omega
      rw [List.getElem?_take_of_lt hlt] at hm
      have hnot := habove m hlt h (getElem?_chain_iff.1 hm)
      rw [← hp] at hnot
      simpa using hnot

end

/-! ## §3. What a single error is about. -/

/-- This very error is about an argument. -/
inductive IsArgument : Failure → Prop where
  /-- For no stated reason. -/
  | bare (name : String) : IsArgument (argument name)
  /-- For a reason. -/
  | caused (name : String) (cause : Failure) : IsArgument (argumentFrom name cause)

/-- This very error says that a program cannot be loaded, and why. -/
inductive Rejects (kind : ErrorKind) : Failure → Prop where
  /-- At an instruction, or at none. -/
  | loading (id : Int) : Rejects kind (syntactic kind id)

/-- This very error is a fault of a running program of the given kind. -/
inductive Faults (kind : ErrorKind) : Failure → Prop where
  /-- Without a cause. -/
  | bare (id : Int) : Faults kind (fault kind id)
  /-- With a cause. -/
  | caused (id : Int) (cause : Failure) : Faults kind (faultFrom kind id cause)

/-- This very error says that a program cannot be loaded. -/
def IsRejection (f : Failure) : Prop := ∃ kind, Rejects kind f

/-- This very error is a fault. -/
def IsFault (f : Failure) : Prop := ∃ kind, Faults kind f

theorem isSome_argument?_iff (f : Failure) : f.argument?.isSome = true ↔ f.IsArgument := by
  constructor
  · intro h
    cases f with
    | argument name => exact .bare name
    | argumentFrom name cause => exact .caused name cause
    | _ => exact absurd h (by simp [argument?])
  · intro h
    cases h <;> rfl

theorem rejects_iff {f : Failure} {kind : ErrorKind} :
    Rejects kind f ↔ ∃ id, f.syntactic? = some (kind, id) := by
  constructor
  · intro h
    cases h with
    | loading id => exact ⟨id, rfl⟩
  · intro ⟨id, h⟩
    cases f with
    | syntactic kind' id' =>
        obtain ⟨rfl, rfl⟩ := Prod.mk.inj (Option.some.inj h)
        exact .loading _
    | _ => exact absurd h (by simp [syntactic?])

theorem faults_iff {f : Failure} {kind : ErrorKind} :
    Faults kind f ↔ ∃ id, f.fault? = some (kind, id) := by
  constructor
  · intro h
    cases h with
    | bare id => exact ⟨id, rfl⟩
    | caused id cause => exact ⟨id, rfl⟩
  · intro ⟨id, h⟩
    cases f with
    | fault kind' id' =>
        obtain ⟨rfl, rfl⟩ := Prod.mk.inj (Option.some.inj h)
        exact .bare _
    | faultFrom kind' id' cause =>
        obtain ⟨rfl, rfl⟩ := Prod.mk.inj (Option.some.inj h)
        exact .caused _ cause
    | _ => exact absurd h (by simp [fault?])

theorem isSome_syntactic?_iff (f : Failure) : f.syntactic?.isSome = true ↔ f.IsRejection := by
  rw [Option.isSome_iff_exists, Prod.exists]
  exact exists_congr fun kind => rejects_iff.symm

theorem isSome_fault?_iff (f : Failure) : f.fault?.isSome = true ↔ f.IsFault := by
  rw [Option.isSome_iff_exists, Prod.exists]
  exact exists_congr fun kind => faults_iff.symm

/-- A program that cannot be loaded is the last of its chain. -/
theorem IsRejection.cause?_eq_none {f : Failure} (h : f.IsRejection) : f.cause? = none := by
  obtain ⟨kind, h⟩ := h
  cases h with
  | loading id => rfl

/-- A chain contains at most one program that cannot be loaded. -/
theorem Below.eq_of_isRejection {f g h : Failure} {m n : Nat} (hg : f.Below m g)
    (hh : f.Below n h) (hgr : g.IsRejection) (hhr : h.IsRejection) : g = h :=
  hg.eq_of_last hh hgr.cause?_eq_none hhr.cause?_eq_none

/-! ## §4. Exit codes and kinds. -/

/-- More text makes no difference to the exit code. -/
theorem exitCode_within (before after : String) (f : Failure) :
    exitCode (some (within before f after)) = exitCode (some f) := rfl

/-- More text makes no difference to the kind. -/
theorem kind?_within (before after : String) (f : Failure) :
    (within before f after).kind? = f.kind? := rfl

/-- **Which search decides the exit code.** -/
theorem exitCode_iff (f : Failure) :
    (exitCode (some f) = 2 ↔ f.Contains IsArgument) ∧
    (exitCode (some f) = 3 ↔ ¬ f.Contains IsArgument ∧ f.Contains IsRejection) ∧
    (exitCode (some f) = 4 ↔
      ¬ f.Contains IsArgument ∧ ¬ f.Contains IsRejection ∧ f.Contains IsFault) ∧
    (exitCode (some f) = 1 ↔
      ¬ f.Contains IsArgument ∧ ¬ f.Contains IsRejection ∧ ¬ f.Contains IsFault) := by
  rw [← isSome_findSome?_chain_iff isSome_argument?_iff,
    ← isSome_findSome?_chain_iff isSome_syntactic?_iff,
    ← isSome_findSome?_chain_iff isSome_fault?_iff]
  dsimp only [exitCode]
  -- what is left is a table of what the three searches find
  generalize (f.chain.findSome? argument?).isSome = a
  generalize (f.chain.findSome? syntactic?).isSome = r
  generalize (f.chain.findSome? fault?).isSome = t
  revert a r t
  decide

/-- **Where the kind of a failure comes from**: a program that cannot be
loaded, wherever it is in the chain, or else the outermost fault. -/
theorem kind?_eq_some_iff {f : Failure} {kind : ErrorKind} :
    f.kind? = some kind ↔
      f.Contains (Rejects kind) ∨
        (¬ f.Contains IsRejection ∧ ∃ g, f.Outermost IsFault g ∧ Faults kind g) := by
  unfold kind?
  -- the search for faults is made only where the first search found nothing
  cases hsearch : f.chain.findSome? syntactic? with
  | some found =>
      obtain ⟨kind', id⟩ := found
      obtain ⟨g, ⟨n, hbelow, _⟩, hg⟩ :=
        (findSome?_chain_eq_some_iff isSome_syntactic?_iff).1 hsearch
      have hrejects : Rejects kind' g := rejects_iff.2 ⟨id, hg⟩
      constructor
      · intro hkind
        obtain rfl : kind' = kind := Option.some.inj hkind
        exact .inl ⟨n, g, hbelow, hrejects⟩
      · intro h
        rcases h with ⟨m, h, hbelow', hrejects'⟩ | ⟨hnone, _⟩
        · -- both are the one rejection of the chain
          obtain rfl := hbelow.eq_of_isRejection hbelow' ⟨_, hrejects⟩ ⟨_, hrejects'⟩
          cases hrejects with
          | loading id =>
              cases hrejects'
              rfl
        · exact absurd ⟨n, g, hbelow, kind', hrejects⟩ hnone
  | none =>
      have hnone : ¬ f.Contains IsRejection := by
        rw [← isSome_findSome?_chain_iff isSome_syntactic?_iff, hsearch]
        simp
      show (f.chain.findSome? fault?).map Prod.fst = some kind ↔ _
      constructor
      · intro hkind
        obtain ⟨⟨kind', id⟩, hfound, rfl⟩ := Option.map_eq_some_iff.1 hkind
        obtain ⟨g, houtermost, hg⟩ := (findSome?_chain_eq_some_iff isSome_fault?_iff).1 hfound
        exact .inr ⟨hnone, g, houtermost, faults_iff.2 ⟨id, hg⟩⟩
      · intro h
        rcases h with ⟨n, g, hbelow, hrejects⟩ | ⟨_, g, houtermost, hfaults⟩
        · exact absurd ⟨n, g, hbelow, kind, hrejects⟩ hnone
        · obtain ⟨id, hg⟩ := faults_iff.1 hfaults
          rw [(findSome?_chain_eq_some_iff isSome_fault?_iff).2 ⟨g, houtermost, hg⟩]
          rfl

theorem kind?_eq_none_iff {f : Failure} :
    f.kind? = none ↔ ¬ f.Contains IsRejection ∧ ¬ f.Contains IsFault := by
  rw [← isSome_findSome?_chain_iff isSome_syntactic?_iff,
    ← isSome_findSome?_chain_iff isSome_fault?_iff]
  unfold kind?
  cases f.chain.findSome? syntactic? with
  | some found => simp
  | none => simp

/-- **Exit code and kind of every chain.**  An argument anywhere makes the
exit code 2; without one, a program that cannot be loaded makes it 3; without
either, a fault makes it 4; and without all three it is 1.  A chain contains
at most one program that cannot be loaded, whose kind is the kind of the
failure; without it that is the kind of the outermost fault, and without a
fault there is none.  A failure is of its own kind and of no other, and more
text around it changes nothing of this. -/
theorem chain_classifies (f : Failure) :
    ((exitCode (some f) = 2 ↔ f.Contains IsArgument) ∧
      (exitCode (some f) = 3 ↔ ¬ f.Contains IsArgument ∧ f.Contains IsRejection) ∧
      (exitCode (some f) = 4 ↔
        ¬ f.Contains IsArgument ∧ ¬ f.Contains IsRejection ∧ f.Contains IsFault) ∧
      (exitCode (some f) = 1 ↔
        ¬ f.Contains IsArgument ∧ ¬ f.Contains IsRejection ∧ ¬ f.Contains IsFault)) ∧
    (∀ m n g h, f.Below m g → f.Below n h → g.IsRejection → h.IsRejection → g = h) ∧
    (∀ kind, f.kind? = some kind ↔
      f.Contains (Rejects kind) ∨
        (¬ f.Contains IsRejection ∧ ∃ g, f.Outermost IsFault g ∧ Faults kind g)) ∧
    (f.kind? = none ↔ ¬ f.Contains IsRejection ∧ ¬ f.Contains IsFault) ∧
    (∀ kind, f.isKind kind = true ↔ f.kind? = some kind) ∧
    ∀ before after, exitCode (some (within before f after)) = exitCode (some f) ∧
      (within before f after).kind? = f.kind? := by
  refine ⟨exitCode_iff f, ?_, ?_, kind?_eq_none_iff, ?_, ?_⟩
  · intro m n g h hg hh hgr hhr
    exact hg.eq_of_isRejection hh hgr hhr
  · intro kind
    exact kind?_eq_some_iff
  · intro kind
    exact beq_iff_eq
  · intro before after
    exact ⟨exitCode_within before after f, kind?_within before after f⟩

/-- A fault that was caused by an argument that was caused by a program that
cannot be loaded: the argument decides the exit code, the program the kind. -/
theorem chain_classifies_mixed :
    let f := within "a: " (faultFrom .emptyStack 3
      (argumentFrom "base" (within "b: " (syntactic .codeLengthInvalid (-1)) ""))) ""
    f.Contains IsArgument ∧ f.Contains (Rejects .codeLengthInvalid) ∧
      f.Contains (Faults .emptyStack) ∧
      exitCode (some f) = 2 ∧ f.kind? = some .codeLengthInvalid ∧ f.isKind .emptyStack = false := by
  intro f
  have hargument : f.Contains IsArgument :=
    ⟨2, _, .deeper rfl (.deeper rfl (.top _)), .caused _ _⟩
  have hrejects : f.Contains (Rejects .codeLengthInvalid) :=
    ⟨4, _, .deeper rfl (.deeper rfl (.deeper rfl (.deeper rfl (.top _)))), .loading _⟩
  have hfaults : f.Contains (Faults .emptyStack) := ⟨1, _, .deeper rfl (.top _), .caused _ _⟩
  obtain ⟨⟨htwo, _⟩, _, hkind, _, hisKind, _⟩ := chain_classifies f
  have hk : f.kind? = some .codeLengthInvalid := (hkind _).2 (.inl hrejects)
  refine ⟨hargument, hrejects, hfaults, htwo.2 hargument, hk, ?_⟩
  rw [← Bool.not_eq_true, hisKind, hk]
  decide

end Failure

end Tetraglyph
