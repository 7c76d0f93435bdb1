/-
  Tetraglyph.Proofs.Program.Nesting
  ─────────────────────────────────
  **BRACES ALONG A PATH.**

  A path is a list of indexes in the order in which the instructions stand.
  Two views of its braces:

      Balanced  — by counting kinds: no beginning closes more than it opens,
                  and the whole closes as many as it opens
      Paired    — by reading: each closing brace meets an innermost open one,
                  and the two JUMP TO EACH OTHER

  `Paired` is the view that survives change: it looks at kinds and jumps
  only, and an instruction which is no brace may be put anywhere.

  Main results

      paired_insert      — a plain instruction anywhere keeps a path paired
      paired_balanced    — the kinds along a paired path are balanced
      paired_closing     — an opening brace jumps to its partner
      paired_opening     — a closing brace jumps to its partner
      partners_jump      — partners jump to each other
-/
import Mathlib.Data.List.Induction
import Tetraglyph.Program.Instr

namespace Tetraglyph

/-- The instruction at an index, one that does nothing where there is none. -/
def Program.instr (p : Program) (i : Nat) : Instr := (p[i]?).getD default

theorem Program.instr_of_getElem? {p : Program} {i : Nat} {ix : Instr} (h : p[i]? = some ix) :
    p.instr i = ix := by
  rw [Program.instr, h]
  rfl

theorem Program.getElem?_instr {p : Program} {i : Nat} (h : i < p.size) :
    p[i]? = some (p.instr i) := by
  have hget : p[i]? = some p[i] := Array.getElem?_eq_getElem h
  rw [Program.instr_of_getElem? hget, hget]

namespace Nesting

/-! ## §1. Counting braces. -/

/-- The kinds lead from `d` open braces to `e` open ones, and on the way no
brace is closed that was not open. -/
def Level (d : Nat) (ks : List Kind) (e : Nat) : Prop :=
  (∀ front, front <+: ks → front.count .rbrace ≤ d + front.count .lbrace) ∧
    d + ks.count .lbrace = e + ks.count .rbrace

/-- No beginning closes more braces than it opens, and the whole closes as
many as it opens. -/
def Balanced (ks : List Kind) : Prop :=
  (∀ front, front <+: ks → front.count .rbrace ≤ front.count .lbrace) ∧
    ks.count .lbrace = ks.count .rbrace

theorem balanced_iff_level (ks : List Kind) : Balanced ks ↔ Level 0 ks 0 := by
  unfold Balanced Level
  simp only [Nat.zero_add]

theorem level_nil (d e : Nat) : Level d [] e ↔ d = e := by
  unfold Level
  simp only [List.prefix_nil, List.count_nil, Nat.add_zero]
  constructor
  · intro h
    exact h.2
  · intro h
    refine ⟨?_, h⟩
    intro front hfront
    subst hfront
    simp

/-- A kind in front: every beginning of the rest has it in front, too. -/
theorem level_cons (d e : Nat) (k : Kind) (ks : List Kind) :
    Level d (k :: ks) e ↔
      (∀ front, front <+: ks →
        (k :: front).count .rbrace ≤ d + (k :: front).count .lbrace) ∧
      d + (k :: ks).count .lbrace = e + (k :: ks).count .rbrace := by
  unfold Level
  constructor
  · intro h
    refine ⟨?_, h.2⟩
    intro front hfront
    exact h.1 (k :: front) (List.cons_prefix_cons.2 ⟨rfl, hfront⟩)
  · intro h
    refine ⟨?_, h.2⟩
    intro front hfront
    -- the empty beginning closes nothing, and every other one starts with `k`
    rcases List.prefix_cons_iff.1 hfront with hnil | ⟨rest, hrest, hpre⟩
    · subst hnil
      simp
    · subst hrest
      exact h.1 rest hpre

theorem level_lbrace (d e : Nat) (ks : List Kind) :
    Level d (.lbrace :: ks) e ↔ Level (d + 1) ks e := by
  rw [level_cons]
  unfold Level
  simp only [List.count_cons_self, List.count_cons_of_ne (show Kind.lbrace ≠ .rbrace by decide)]
  constructor
  · intro h
    refine ⟨fun front hfront => ?_, by have := h.2; omega⟩
    have := h.1 front hfront
    omega
  · intro h
    refine ⟨fun front hfront => ?_, by have := h.2; omega⟩
    have := h.1 front hfront
    omega

theorem level_rbrace (d e : Nat) (ks : List Kind) :
    Level (d + 1) (.rbrace :: ks) e ↔ Level d ks e := by
  rw [level_cons]
  unfold Level
  simp only [List.count_cons_self, List.count_cons_of_ne (show Kind.rbrace ≠ .lbrace by decide)]
  constructor
  · intro h
    refine ⟨fun front hfront => ?_, by have := h.2; omega⟩
    have := h.1 front hfront
    omega
  · intro h
    refine ⟨fun front hfront => ?_, by have := h.2; omega⟩
    have := h.1 front hfront
    omega

theorem not_level_zero_rbrace (e : Nat) (ks : List Kind) : ¬ Level 0 (.rbrace :: ks) e := by
  intro h
  have := h.1 [.rbrace] (List.prefix_append [Kind.rbrace] ks)
  simp at this

theorem count_cons_plain {k : Kind} (hk : k.isBrace = false) (ks : List Kind) :
    (k :: ks).count .lbrace = ks.count .lbrace ∧ (k :: ks).count .rbrace = ks.count .rbrace := by
  have hl : k ≠ .lbrace := by
    intro h
    subst h
    exact absurd hk (by decide)
  have hr : k ≠ .rbrace := by
    intro h
    subst h
    exact absurd hk (by decide)
  exact ⟨List.count_cons_of_ne hl, List.count_cons_of_ne hr⟩

theorem level_plain {k : Kind} (hk : k.isBrace = false) (d e : Nat) (ks : List Kind) :
    Level d (k :: ks) e ↔ Level d ks e := by
  rw [level_cons]
  unfold Level
  simp only [(count_cons_plain hk _).1, (count_cons_plain hk _).2]

/-- Kinds one after another lead from level to level. -/
theorem level_append (d : Nat) (ks ls : List Kind) (e : Nat) :
    Level d (ks ++ ls) e ↔ ∃ c, Level d ks c ∧ Level c ls e := by
  induction ks generalizing d with
  | nil =>
      constructor
      · intro h
        exact ⟨d, (level_nil d d).2 rfl, h⟩
      · intro ⟨c, hc, h⟩
        rw [(level_nil d c).1 hc]
        exact h
  | cons k ks ih =>
      rw [List.cons_append]
      cases hk : k.isBrace with
      | false => simp only [level_plain hk, ih]
      | true =>
          cases k <;> simp only [Kind.isBrace, Bool.false_eq_true] at hk
          · simp only [level_lbrace, ih]
          · cases d with
            | zero =>
                -- nothing is open: neither side can be read
                constructor
                · intro h
                  exact absurd h (not_level_zero_rbrace e _)
                · intro ⟨c, hc, _⟩
                  exact absurd hc (not_level_zero_rbrace c _)
            | succ d => simp only [level_rbrace, ih]

/-! ## §2. Reading a path. -/

/-- Reading a path with the braces `os` open before it leaves `os'` open, the
innermost first: each closing brace meets an open one, and the two jump to
each other. -/
def Paired (p : Program) : List Nat → List Nat → List Nat → Prop
  | os, [], os' => os = os'
  | os, id :: path, os' =>
    match (p.instr id).kind with
    | .lbrace => Paired p (id :: os) path os'
    | .rbrace =>
      ∃ l rest, os = l :: rest ∧ (p.instr l).jump = (id : Int) ∧ (p.instr id).jump = (l : Int) ∧
        Paired p rest path os'
    | _ => Paired p os path os'

theorem paired_lbrace {p : Program} {id : Nat} (h : (p.instr id).kind = .lbrace)
    (os path os' : List Nat) :
    Paired p os (id :: path) os' ↔ Paired p (id :: os) path os' := by
  rw [Paired, h]

theorem paired_rbrace {p : Program} {id : Nat} (h : (p.instr id).kind = .rbrace)
    (os path os' : List Nat) :
    Paired p os (id :: path) os' ↔
      ∃ l rest, os = l :: rest ∧ (p.instr l).jump = (id : Int) ∧ (p.instr id).jump = (l : Int) ∧
        Paired p rest path os' := by
  rw [Paired, h]

theorem paired_plain {p : Program} {id : Nat} (h : (p.instr id).kind.isBrace = false)
    (os path os' : List Nat) :
    Paired p os (id :: path) os' ↔ Paired p os path os' := by
  rw [Paired]
  cases hk : (p.instr id).kind <;> rw [hk] at h <;> first | rfl | exact absurd h (by decide)

/-- The three ways to read one more instruction. -/
theorem kind_cases (k : Kind) : k = .lbrace ∨ k = .rbrace ∨ k.isBrace = false := by
  cases k <;> simp [Kind.isBrace]

theorem paired_append (p : Program) (os path rest os' : List Nat) :
    Paired p os (path ++ rest) os' ↔ ∃ mid, Paired p os path mid ∧ Paired p mid rest os' := by
  induction path generalizing os with
  | nil =>
      constructor
      · intro h
        exact ⟨os, rfl, h⟩
      · intro ⟨mid, hmid, h⟩
        rw [show os = mid from hmid]
        exact h
  | cons id path ih =>
      rw [List.cons_append]
      rcases kind_cases (p.instr id).kind with hk | hk | hk
      · simp only [paired_lbrace hk, ih]
      · simp only [paired_rbrace hk, ih]
        constructor
        · intro ⟨l, r, hos, hl, hid, mid, ha, hb⟩
          exact ⟨mid, ⟨l, r, hos, hl, hid, ha⟩, hb⟩
        · intro ⟨mid, ⟨l, r, hos, hl, hid, ha⟩, hb⟩
          exact ⟨l, r, hos, hl, hid, mid, ha, hb⟩
      · simp only [paired_plain hk, ih]

/-- Reading looks at nothing but kinds and jumps. -/
theorem paired_congr {p q : Program} {os path os' : List Nat}
    (hkind : ∀ id, id ∈ path → (q.instr id).kind = (p.instr id).kind)
    (hjump : ∀ id, id ∈ os ∨ id ∈ path → (q.instr id).jump = (p.instr id).jump)
    (h : Paired p os path os') : Paired q os path os' := by
  induction path generalizing os with
  | nil => exact h
  | cons id path ih =>
      have hk' := hkind id List.mem_cons_self
      have hkind' : ∀ j, j ∈ path → (q.instr j).kind = (p.instr j).kind :=
        fun j hj => hkind j (List.mem_cons_of_mem id hj)
      rcases kind_cases (p.instr id).kind with hk | hk | hk
      · rw [paired_lbrace hk] at h
        rw [paired_lbrace (hk'.trans hk)]
        -- the brace goes over from the path to the open ones, where its jump counts
        refine ih hkind' ?_ h
        intro j hj
        refine hjump j ?_
        rcases hj with hj | hj
        · rcases List.mem_cons.1 hj with heq | hj
          · exact .inr (heq ▸ List.mem_cons_self)
          · exact .inl hj
        · exact .inr (List.mem_cons_of_mem id hj)
      · rw [paired_rbrace hk] at h
        rw [paired_rbrace (hk'.trans hk)]
        obtain ⟨l, rest, hos, hl, hid, h⟩ := h
        subst hos
        refine ⟨l, rest, rfl, ?_, ?_, ih hkind' ?_ h⟩
        · rw [hjump l (.inl List.mem_cons_self), hl]
        · rw [hjump id (.inr List.mem_cons_self), hid]
        · intro j hj
          exact hjump j (hj.imp (List.mem_cons_of_mem l) (List.mem_cons_of_mem id))
      · rw [paired_plain hk] at h
        rw [paired_plain (by rw [hk', hk])]
        refine ih hkind' ?_ h
        intro j hj
        exact hjump j (hj.imp_right (List.mem_cons_of_mem id))

/-- **A plain instruction may be put anywhere** on a path. -/
theorem paired_insert {p : Program} {new : Nat} (hnew : (p.instr new).kind.isBrace = false)
    (os front back os' : List Nat) :
    Paired p os (front ++ new :: back) os' ↔ Paired p os (front ++ back) os' := by
  simp only [paired_append, paired_plain hnew]

/-! ## §3. What reading says about the counts. -/

/-- The kinds along a path. -/
def kinds (p : Program) (path : List Nat) : List Kind := path.map fun id => (p.instr id).kind

theorem kinds_append (p : Program) (path rest : List Nat) :
    kinds p (path ++ rest) = kinds p path ++ kinds p rest := List.map_append

/-- The number of open braces is the level. -/
theorem paired_level {p : Program} {os path os' : List Nat} (h : Paired p os path os') :
    Level os.length (kinds p path) os'.length := by
  induction path generalizing os with
  | nil =>
      rw [show os = os' from h]
      exact (level_nil _ _).2 rfl
  | cons id path ih =>
      show Level os.length ((p.instr id).kind :: kinds p path) os'.length
      rcases kind_cases (p.instr id).kind with hk | hk | hk
      · rw [hk, level_lbrace]
        exact ih ((paired_lbrace hk _ _ _).1 h)
      · obtain ⟨l, rest, hos, _, _, h⟩ := (paired_rbrace hk _ _ _).1 h
        rw [hk, hos, List.length_cons, level_rbrace]
        exact ih h
      · rw [level_plain hk]
        exact ih ((paired_plain hk _ _ _).1 h)

theorem paired_balanced {p : Program} {path : List Nat} (h : Paired p [] path []) :
    Balanced (kinds p path) :=
  (balanced_iff_level _).2 (paired_level h)

/-- What closes all the braces `xs` above `os` leads back to `os`. -/
theorem paired_of_level {p : Program} {xs os path rest os' : List Nat}
    (hlevel : Level xs.length (kinds p path) 0) (h : Paired p (xs ++ os) (path ++ rest) os') :
    Paired p os rest os' := by
  induction path generalizing xs with
  | nil =>
      have hxs : xs = [] := List.length_eq_zero_iff.1 ((level_nil _ _).1 hlevel)
      subst hxs
      exact h
  | cons id path ih =>
      -- `xs` are open since; the level counts them, and what is below them is not met
      change Level xs.length ((p.instr id).kind :: kinds p path) 0 at hlevel
      rw [List.cons_append] at h
      rcases kind_cases (p.instr id).kind with hk | hk | hk
      · rw [hk, level_lbrace] at hlevel
        exact @ih (id :: xs) hlevel ((paired_lbrace hk _ _ _).1 h)
      · obtain ⟨l, more, hos, _, _, h⟩ := (paired_rbrace hk _ _ _).1 h
        rw [hk] at hlevel
        cases xs with
        | nil => exact absurd hlevel (not_level_zero_rbrace 0 _)
        | cons x xs =>
            rw [List.length_cons, level_rbrace] at hlevel
            have hmore : more = xs ++ os := (List.cons.inj hos).2.symm
            subst hmore
            exact ih hlevel h
      · rw [level_plain hk] at hlevel
        exact ih hlevel ((paired_plain hk _ _ _).1 h)

/-! ## §4. Partners. -/

/-- Two braces of a path with nothing but whole loops and plain instructions
between them. -/
def Partners (p : Program) (path : List Nat) (l r : Nat) : Prop :=
  ∃ front inside back, path = front ++ l :: (inside ++ r :: back) ∧
    (p.instr l).kind = .lbrace ∧ (p.instr r).kind = .rbrace ∧ Balanced (kinds p inside)

/-- **Partners jump to each other.** -/
theorem partners_jump {p : Program} {path : List Nat} (h : Paired p [] path []) {l r : Nat}
    (hp : Partners p path l r) :
    (p.instr l).jump = (r : Int) ∧ (p.instr r).jump = (l : Int) := by
  obtain ⟨front, inside, back, hpath, hl, hr, hin⟩ := hp
  subst hpath
  obtain ⟨os, _, h⟩ := (paired_append _ _ _ _ _).1 h
  rw [paired_lbrace hl] at h
  -- the loop body opens and closes nothing, so `l` is innermost again at `r`
  have hclosed : Paired p (l :: os) (r :: back) [] :=
    paired_of_level (show Level ([] : List Nat).length _ 0 from (balanced_iff_level _).1 hin) h
  obtain ⟨l', rest, hos, hjl, hjr, _⟩ := (paired_rbrace hr _ _ _).1 hclosed
  obtain ⟨hll, _⟩ := List.cons.inj hos
  subst hll
  exact ⟨hjl, hjr⟩

/-- Reading on until the braces `xs` and the one below them are closed. -/
theorem paired_split_closing {p : Program} {xs os path os' : List Nat} {l : Nat}
    (hlen : os'.length ≤ os.length) (h : Paired p (xs ++ l :: os) path os') :
    ∃ inside r back, path = inside ++ r :: back ∧ (p.instr r).kind = .rbrace ∧
      Level xs.length (kinds p inside) 0 ∧ (p.instr l).jump = (r : Int) := by
  induction path generalizing xs with
  | nil =>
      -- the path is over, but `l` is still open
      rw [← show xs ++ l :: os = os' from h] at hlen
      simp only [List.length_append, List.length_cons] at hlen
      omega
  | cons id path ih =>
      rcases kind_cases (p.instr id).kind with hk | hk | hk
      · obtain ⟨inside, r, back, hpath, hr, hlevel, hj⟩ :=
          @ih (id :: xs) ((paired_lbrace hk _ _ _).1 h)
        refine ⟨id :: inside, r, back, by rw [hpath, List.cons_append], hr, ?_, hj⟩
        show Level xs.length ((p.instr id).kind :: kinds p inside) 0
        rw [hk, level_lbrace]
        exact hlevel
      · obtain ⟨l', more, hos, hjl, _, h⟩ := (paired_rbrace hk _ _ _).1 h
        cases xs with
        | nil =>
            -- nothing was opened since, so this is the brace that closes `l`
            have hl : l = l' := (List.cons.inj hos).1
            subst hl
            exact ⟨[], id, path, rfl, hk, (level_nil _ _).2 rfl, hjl⟩
        | cons x xs =>
            have hmore : more = xs ++ l :: os := (List.cons.inj hos).2.symm
            subst hmore
            obtain ⟨inside, r, back, hpath, hr, hlevel, hj⟩ := ih h
            refine ⟨id :: inside, r, back, by rw [hpath, List.cons_append], hr, ?_, hj⟩
            show Level (xs.length + 1) ((p.instr id).kind :: kinds p inside) 0
            rw [hk, level_rbrace]
            exact hlevel
      · obtain ⟨inside, r, back, hpath, hr, hlevel, hj⟩ := ih ((paired_plain hk _ _ _).1 h)
        refine ⟨id :: inside, r, back, by rw [hpath, List.cons_append], hr, ?_, hj⟩
        show Level xs.length ((p.instr id).kind :: kinds p inside) 0
        rw [level_plain hk]
        exact hlevel

/-- **An opening brace jumps to its partner.** -/
theorem paired_closing {p : Program} {path : List Nat} (h : Paired p [] path []) {l : Nat}
    (hmem : l ∈ path) (hl : (p.instr l).kind = .lbrace) :
    ∃ r : Nat, (p.instr l).jump = (r : Int) ∧ Partners p path l r := by
  obtain ⟨front, rest, hpath⟩ := List.append_of_mem hmem
  subst hpath
  obtain ⟨os, _, hrest⟩ := (paired_append _ _ _ _ _).1 h
  rw [paired_lbrace hl] at hrest
  obtain ⟨inside, r, back, hback, hr, hlevel, hj⟩ :=
    @paired_split_closing p [] os rest [] l (Nat.zero_le _) hrest
  exact ⟨r, hj, front, inside, back, by rw [hback], hl, hr, (balanced_iff_level _).2 hlevel⟩

/-- Where an open brace was opened, when `xs` were opened above it since. -/
theorem paired_split_opening {p : Program} {path : List Nat} :
    ∀ {xs os : List Nat} {l : Nat}, Paired p [] path (xs ++ l :: os) →
      ∃ front inside, path = front ++ l :: inside ∧ (p.instr l).kind = .lbrace ∧
        Level 0 (kinds p inside) xs.length := by
  -- from the back of the path, because the innermost brace was opened last
  induction path using List.reverseRecOn with
  | nil =>
      intro xs os l h
      exact absurd (congrArg List.length (show [] = xs ++ l :: os from h)) (by simp)
  | append_singleton path id ih =>
      intro xs os l h
      obtain ⟨mid, hmid, h⟩ := (paired_append _ _ _ _ _).1 h
      rcases kind_cases (p.instr id).kind with hk | hk | hk
      · have hos : id :: mid = xs ++ l :: os := (paired_lbrace hk _ _ _).1 h
        cases xs with
        | nil =>
            obtain ⟨hid, _⟩ := List.cons.inj hos
            subst hid
            exact ⟨path, [], rfl, hk, (level_nil _ _).2 rfl⟩
        | cons x xs =>
            obtain ⟨_, hmid'⟩ := List.cons.inj hos
            subst hmid'
            obtain ⟨front, inside, hpath, hl, hlevel⟩ := ih hmid
            refine ⟨front, inside ++ [id], by simp [hpath], hl, ?_⟩
            rw [kinds_append, level_append]
            refine ⟨xs.length, hlevel, ?_⟩
            show Level xs.length [(p.instr id).kind] (xs.length + 1)
            rw [hk, level_lbrace, level_nil]
      · obtain ⟨l', more, hos, _, _, h⟩ := (paired_rbrace hk _ _ _).1 h
        -- before this brace there was one more open above `l`
        have hmore : more = xs ++ l :: os := h
        subst hmore hos
        obtain ⟨front, inside, hpath, hl, hlevel⟩ := @ih (l' :: xs) os l hmid
        refine ⟨front, inside ++ [id], by simp [hpath], hl, ?_⟩
        rw [kinds_append, level_append]
        refine ⟨xs.length + 1, hlevel, ?_⟩
        show Level (xs.length + 1) [(p.instr id).kind] xs.length
        rw [hk, level_rbrace, level_nil]
      · have hos : mid = xs ++ l :: os := (paired_plain hk _ _ _).1 h
        subst hos
        obtain ⟨front, inside, hpath, hl, hlevel⟩ := ih hmid
        refine ⟨front, inside ++ [id], by simp [hpath], hl, ?_⟩
        rw [kinds_append, level_append]
        refine ⟨xs.length, hlevel, ?_⟩
        show Level xs.length [(p.instr id).kind] xs.length
        rw [level_plain hk, level_nil]

/-- **A closing brace jumps to its partner.** -/
theorem paired_opening {p : Program} {path : List Nat} (h : Paired p [] path []) {r : Nat}
    (hmem : r ∈ path) (hr : (p.instr r).kind = .rbrace) :
    ∃ l : Nat, (p.instr r).jump = (l : Int) ∧ Partners p path l r := by
  obtain ⟨before, back, hpath⟩ := List.append_of_mem hmem
  subst hpath
  obtain ⟨os, hbefore, hrest⟩ := (paired_append _ _ _ _ _).1 h
  obtain ⟨l, rest, hos, _, hj, _⟩ := (paired_rbrace hr _ _ _).1 hrest
  subst hos
  obtain ⟨front, inside, hfront, hl, hlevel⟩ := @paired_split_opening p before [] rest l hbefore
  exact ⟨l, hj, front, inside, back, by simp [hfront], hl, hr, (balanced_iff_level _).2 hlevel⟩

end Nesting

end Tetraglyph
