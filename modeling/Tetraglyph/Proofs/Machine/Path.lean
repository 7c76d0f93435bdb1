/-
  Tetraglyph.Proofs.Machine.Path
  ──────────────────────────────
  **THE PATH THROUGH A GROWING PROGRAM.**

  Following successors from instruction 0 gives the PATH of a program.  In a
  loaded program it is 0, 1, 2, … up to the end.  A splice puts the new
  index behind the Execute on the path and changes nothing else of it, so
  three facts survive any number of splices, also behind instructions that
  were spliced in themselves:

      every index of the arena is on the path once
      the path is ordered by parent, and what was made at run time comes
        behind the loaded instruction it descends from
      the braces are paired along the path

  Main results

      leads_unique      — there is one path at most
      threaded_splice   — a splice inserts one index and keeps the three facts
      threaded_step     — a step splices or leaves the path alone
      history_threaded  — every history leaves a well-linked program
-/
import Tetraglyph.Proofs.Machine.Arena

namespace Tetraglyph

open Nesting

/-! ## §1. Following successors. -/

/-- Following successors from `i` goes through the instructions of the path,
and then to `j`. -/
def Program.Leads (p : Program) : Int → List Nat → Int → Prop
  | i, [], j => i = j
  | i, id :: path, j => i = (id : Int) ∧ id < p.size ∧ p.Leads (p.instr id).next path j

namespace Path

theorem leads_append (p : Program) (front back : List Nat) (i j : Int) :
    p.Leads i (front ++ back) j ↔ ∃ mid, p.Leads i front mid ∧ p.Leads mid back j := by
  induction front generalizing i with
  | nil =>
      constructor
      · intro h
        exact ⟨i, rfl, h⟩
      · intro ⟨mid, hmid, h⟩
        rw [show i = mid from hmid]
        exact h
  | cons id front ih =>
      simp only [List.cons_append, Program.Leads, ih]
      constructor
      · intro ⟨hi, hlt, mid, hf, hb⟩
        exact ⟨mid, ⟨hi, hlt, hf⟩, hb⟩
      · intro ⟨mid, ⟨hi, hlt, hf⟩, hb⟩
        exact ⟨hi, hlt, mid, hf, hb⟩

/-- Only the successors along the path count. -/
theorem leads_congr {p q : Program} {path : List Nat}
    (h : ∀ id, id ∈ path → id < q.size ∧ (q.instr id).next = (p.instr id).next) {i j : Int}
    (hp : p.Leads i path j) : q.Leads i path j := by
  induction path generalizing i with
  | nil => exact hp
  | cons id path ih =>
      obtain ⟨hi, _, hrest⟩ := hp
      obtain ⟨hlt, hnext⟩ := h id List.mem_cons_self
      refine ⟨hi, hlt, ?_⟩
      rw [hnext]
      exact ih (fun id' hid' => h id' (List.mem_cons_of_mem id hid')) hrest

/-- **There is one path to the end at most.** -/
theorem leads_unique {p : Program} {path path' : List Nat} {i : Int}
    (h : p.Leads i path halt) (h' : p.Leads i path' halt) : path = path' := by
  -- an index is never the end, so both paths stop together
  have hne : ∀ id : Nat, halt ≠ (id : Int) := by
    intro id hid
    have : (-1 : Int) = id := hid
    omega
  induction path generalizing i path' with
  | nil =>
      have hi : i = halt := h
      subst hi
      cases path' with
      | nil => rfl
      | cons id path' => exact absurd h'.1 (hne id)
  | cons id path ih =>
      obtain ⟨hi, _, hrest⟩ := h
      subst hi
      cases path' with
      | nil => exact absurd h'.symm (hne id)
      | cons id' path' =>
          obtain ⟨hid, _, hrest'⟩ := h'
          have hid' : id = id' := by omega
          subst hid'
          rw [ih hrest hrest']

/-- A linked program leads through its instructions in order. -/
theorem leads_linked {ks : List Kind} {p : Program} (hl : p.Linked ks) :
    ∀ (k i : Nat), i + k + 1 = p.size → p.Leads (i : Int) (List.range' i (k + 1)) halt := by
  intro k
  induction k with
  | zero =>
      intro i hi
      have hix := Program.getElem?_instr (show i < p.size by omega)
      have hnext := hl.next_eq i _ hix
      unfold Linking.successor at hnext
      rw [if_neg (by omega)] at hnext
      exact ⟨rfl, by omega, hnext⟩
  | succ k ih =>
      intro i hi
      have hix := Program.getElem?_instr (show i < p.size by omega)
      have hnext := hl.next_eq i _ hix
      unfold Linking.successor at hnext
      rw [if_pos (by omega)] at hnext
      rw [List.range'_succ]
      refine ⟨rfl, by omega, ?_⟩
      rw [hnext]
      exact ih (i + 1) (by omega)

/-! ## §2. Insertion. -/

/-- Puts an index behind another one. -/
def insertAfter (id new : Nat) : List Nat → List Nat
  | [] => []
  | j :: path => if j = id then j :: new :: path else j :: insertAfter id new path

theorem insertAfter_append {id new : Nat} {front back : List Nat} (h : id ∉ front) :
    insertAfter id new (front ++ id :: back) = front ++ id :: new :: back := by
  induction front with
  | nil => exact if_pos rfl
  | cons j front ih =>
      have hj : j ≠ id := by
        intro hj
        exact h (hj ▸ List.mem_cons_self)
      show (if j = id then _ else j :: insertAfter id new (front ++ id :: back)) = _
      rw [if_neg hj, ih (fun hmem => h (List.mem_cons_of_mem j hmem))]
      rfl

/-- In the order of the parents, and behind the loaded one among those with
the same parent. -/
def Before (loaded : Nat) (p : Program) (a b : Nat) : Prop :=
  (p.instr a).parent < (p.instr b).parent ∨
    ((p.instr a).parent = (p.instr b).parent ∧ loaded ≤ b)

/-- A path through an arena that came of `loaded`, with the three facts that
splices keep. -/
structure Threaded (loaded p : Program) (path : List Nat) : Prop where
  leads : p.Leads 0 path halt
  perm : path.Perm (List.range p.size)
  ordered : path.Pairwise (Before loaded.size p)
  paired : Paired p [] path []

theorem Threaded.mem {loaded p : Program} {path : List Nat} (h : Threaded loaded p path) {i : Nat} :
    i ∈ path ↔ i < p.size := by
  rw [h.perm.mem_iff, List.mem_range]

theorem Threaded.nodup {loaded p : Program} {path : List Nat} (h : Threaded loaded p path) :
    path.Nodup := h.perm.nodup_iff.2 List.nodup_range

/-- The path of a linked program. -/
theorem threaded_linked {ks : List Kind} {p : Program} (hl : p.Linked ks) (hne : 0 < p.size) :
    Threaded p p (List.range p.size) := by
  refine ⟨?_, List.Perm.refl _, ?_, hl.paired⟩
  · have h := leads_linked hl (p.size - 1) 0 (by omega)
    rw [Nat.sub_add_cancel hne, ← List.range_eq_range'] at h
    exact h
  · -- everything is its own parent, so the order is that of the indexes
    refine List.pairwise_lt_range.imp_of_mem ?_
    intro a b ha hb hab
    have hpa := hl.parent_eq a _ (Program.getElem?_instr (List.mem_range.1 ha))
    have hpb := hl.parent_eq b _ (Program.getElem?_instr (List.mem_range.1 hb))
    refine .inl ?_
    rw [hpa, hpb]
    omega

/-! ## §3. Splicing. -/

section Splice

variable {p : Program} {id : Nat} {ix : Instr} (hix : p[id]? = some ix) (k : Kind)

include hix

/-- An index that was there before the splice, and is not the Execute. -/
theorem instr_splice_other {j : Nat} (hj : j < p.size) (hne : j ≠ id) :
    (Machine.splice p id ix k).instr j = p.instr j := by
  have hid : id < p.size := (Array.getElem?_eq_some_iff.1 hix).1
  unfold Program.instr
  rw [Machine.getElem?_splice hid, if_neg hne, if_neg (by omega)]

/-- The Execute itself. -/
theorem instr_splice_self :
    (Machine.splice p id ix k).instr id = { ix with next := (p.size : Int) } := by
  have hid : id < p.size := (Array.getElem?_eq_some_iff.1 hix).1
  apply Program.instr_of_getElem?
  rw [Machine.getElem?_splice hid, if_pos rfl]

/-- The instruction just made. -/
theorem instr_splice_new :
    (Machine.splice p id ix k).instr p.size = ⟨k, p.size, ix.next, ix.next, ix.parent⟩ := by
  have hid : id < p.size := (Array.getElem?_eq_some_iff.1 hix).1
  apply Program.instr_of_getElem?
  rw [Machine.getElem?_splice hid, if_neg (by omega), if_pos rfl]

/-- A splice keeps kind, jump and parent of what was there. -/
theorem instr_splice_kept {j : Nat} (hj : j < p.size) :
    ((Machine.splice p id ix k).instr j).kind = (p.instr j).kind ∧
      ((Machine.splice p id ix k).instr j).jump = (p.instr j).jump ∧
      ((Machine.splice p id ix k).instr j).parent = (p.instr j).parent := by
  by_cases hne : j = id
  · subst hne
    rw [instr_splice_self hix k, Program.instr_of_getElem? hix]
    exact ⟨rfl, rfl, rfl⟩
  · rw [instr_splice_other hix k hj hne]
    exact ⟨rfl, rfl, rfl⟩

end Splice

/-- The order does not change for what was there, and the new one stands in
the place of the Execute it was put behind. -/
theorem ordered_splice {loaded p : Program} (hle : loaded.size ≤ p.size) {id : Nat} {ix : Instr}
    (hix : p[id]? = some ix) (k : Kind) {front back : List Nat}
    (hmem : ∀ j, j ∈ front ++ id :: back → j < p.size)
    (h : (front ++ id :: back).Pairwise (Before loaded.size p)) :
    (front ++ id :: p.size :: back).Pairwise
      (Before loaded.size (Machine.splice p id ix k)) := by
  have hkept := fun {j : Nat} (hj : j < p.size) => (instr_splice_kept hix k hj).2.2
  have hnew : ((Machine.splice p id ix k).instr p.size).parent = (p.instr id).parent := by
    rw [instr_splice_new hix k, Program.instr_of_getElem? hix]
  have hold : (front ++ id :: back).Pairwise
      (Before loaded.size (Machine.splice p id ix k)) := by
    refine h.imp_of_mem ?_
    intro a b ha hb hab
    unfold Before
    rw [hkept (hmem a ha), hkept (hmem b hb)]
    exact hab
  rw [List.pairwise_append, List.pairwise_cons] at hold ⊢
  obtain ⟨hfront, ⟨hid, hback⟩, hcross⟩ := hold
  have hidlt : id < p.size := hmem id (List.mem_append_right front List.mem_cons_self)
  refine ⟨hfront, ⟨?_, List.pairwise_cons.2 ⟨?_, hback⟩⟩, ?_⟩
  · intro b hb
    rcases List.mem_cons.1 hb with heq | hb
    · subst heq
      exact .inr ⟨by rw [hnew, hkept hidlt], hle⟩
    · exact hid b hb
  · -- behind the new one stands what stood behind the Execute
    intro b hb
    have hb' := hid b hb
    unfold Before at hb' ⊢
    rw [hnew, ← hkept hidlt]
    exact hb'
  · intro a ha b hb
    rcases List.mem_cons.1 hb with heq | hb
    · exact hcross a ha b (heq ▸ List.mem_cons_self)
    · rcases List.mem_cons.1 hb with heq | hb
      · subst heq
        have ha' := hcross a ha id List.mem_cons_self
        unfold Before at ha' ⊢
        rw [hnew, ← hkept hidlt]
        exact ha'.imp_right fun h => ⟨h.1, hle⟩
      · exact hcross a ha b (List.mem_cons_of_mem id hb)

/-- **A splice inserts one index** behind the Execute, and keeps what holds
of the path. -/
theorem threaded_splice {loaded p : Program} {path : List Nat} (h : Threaded loaded p path)
    (hle : loaded.size ≤ p.size) {id : Nat} {ix : Instr} (hix : p[id]? = some ix) {k : Kind}
    (hb : k.isBrace = false) :
    Threaded loaded (Machine.splice p id ix k) (insertAfter id p.size path) := by
  have hid : id < p.size := (Array.getElem?_eq_some_iff.1 hix).1
  have hsize := Machine.size_splice p id ix k
  have hmem := fun (j : Nat) (hj : j ∈ path) => h.mem.1 hj
  obtain ⟨front, back, hpath⟩ := List.append_of_mem (h.mem.2 hid)
  have hnodup := h.nodup
  rw [hpath] at hnodup
  obtain ⟨_, hnodup', hdisj⟩ := List.nodup_append.1 hnodup
  have hfront : id ∉ front := fun hf => hdisj id hf id List.mem_cons_self rfl
  have hback : id ∉ back := (List.nodup_cons.1 hnodup').1
  have hins : insertAfter id p.size path = front ++ id :: p.size :: back := by
    rw [hpath, insertAfter_append hfront]
  rw [hins]
  rw [hpath] at hmem
  refine ⟨?_, ?_, ordered_splice hle hix k hmem (hpath ▸ h.ordered), ?_⟩
  · -- the front leads to the Execute, that to the new one, and that on
    have hleads := h.leads
    rw [hpath, leads_append] at hleads
    obtain ⟨mid, hf, hmid, _, hrest⟩ := hleads
    rw [Program.instr_of_getElem? hix] at hrest
    rw [leads_append]
    refine ⟨mid, leads_congr ?_ hf, hmid, by omega, ?_⟩
    · intro j hj
      have hj' : j < p.size := hmem j (List.mem_append_left _ hj)
      refine ⟨by omega, ?_⟩
      rw [instr_splice_other hix k hj' (fun heq => hfront (heq ▸ hj))]
    · rw [instr_splice_self hix k]
      refine ⟨rfl, by omega, ?_⟩
      rw [instr_splice_new hix k]
      refine leads_congr ?_ hrest
      intro j hj
      have hj' : j < p.size :=
        hmem j (List.mem_append_right _ (List.mem_cons_of_mem id hj))
      refine ⟨by omega, ?_⟩
      rw [instr_splice_other hix k hj' (fun heq => hback (heq ▸ hj))]
  · rw [hsize, List.range_succ]
    have hperm : (front ++ id :: back).Perm (List.range p.size) := hpath ▸ h.perm
    calc front ++ id :: p.size :: back
        = (front ++ [id]) ++ p.size :: back := by simp
      _ |>.Perm (p.size :: ((front ++ [id]) ++ back)) := List.perm_middle
      _ |>.Perm (p.size :: List.range p.size) := by
          refine List.Perm.cons _ ?_
          rw [List.append_assoc]
          exact hperm
      _ |>.Perm (List.range p.size ++ [p.size]) := (List.perm_append_singleton _ _).symm
  · -- the new one is no brace, and all others keep kind and jump
    have hinsert := (@paired_insert (Machine.splice p id ix k) p.size
      (by rw [instr_splice_new hix k]; exact hb) [] (front ++ [id]) back []).2
    rw [List.append_assoc, List.append_assoc] at hinsert
    refine hinsert (paired_congr ?_ ?_ (hpath ▸ h.paired))
    · intro j hj
      exact (instr_splice_kept hix k (hmem j hj)).1
    · intro j hj
      rcases hj with hj | hj
      · exact absurd hj List.not_mem_nil
      · exact (instr_splice_kept hix k (hmem j hj)).2.1

/-! ## §4. What the order says. -/

/-- Of two indexes on a path the one that may not come second comes first. -/
theorem Threaded.idxOf_lt {loaded p : Program} {path : List Nat} (h : Threaded loaded p path)
    {a b : Nat} (ha : a < p.size) (hb : b < p.size) (hne : a ≠ b)
    (hnot : ¬ Before loaded.size p b a) : path.idxOf a < path.idxOf b := by
  have hma := h.mem.2 ha
  have hmb := h.mem.2 hb
  rcases Nat.lt_trichotomy (path.idxOf a) (path.idxOf b) with hlt | heq | hgt
  · exact hlt
  · exact absurd ((List.idxOf_inj hma).1 heq) hne
  · have hpair := List.pairwise_iff_getElem.1 h.ordered (path.idxOf b) (path.idxOf a)
      (List.idxOf_lt_length_of_mem hmb) (List.idxOf_lt_length_of_mem hma) hgt
    rw [List.getElem_idxOf, List.getElem_idxOf] at hpair
    exact absurd hpair hnot

/-- **The loaded instructions stand in order.** -/
theorem Threaded.filter_loaded {loaded p : Program} {path : List Nat}
    (hsound : Program.Sound loaded p) (h : Threaded loaded p path) :
    path.filter (fun i => decide (i < loaded.size)) = List.range loaded.size := by
  have hle := hsound.grown.size_le
  -- two increasing lists of the same indexes
  apply List.Perm.eq_of_pairwise' (r := (· < ·))
  · refine (h.ordered.filter _).imp_of_mem ?_
    intro a b ha hb hab
    have ha' : a < loaded.size := of_decide_eq_true (List.mem_filter.1 ha).2
    have hb' : b < loaded.size := of_decide_eq_true (List.mem_filter.1 hb).2
    unfold Before at hab
    rw [hsound.parent_loaded ha', hsound.parent_loaded hb'] at hab
    omega
  · exact List.pairwise_lt_range
  · rw [List.perm_ext_iff_of_nodup (h.nodup.filter _) List.nodup_range]
    intro i
    rw [List.mem_filter, h.mem, List.mem_range, decide_eq_true_iff]
    omega

/-- **What was made at run time stands between its parent and the next loaded
instruction.** -/
theorem Threaded.between {loaded p : Program} {path : List Nat}
    (hsound : Program.Sound loaded p) (h : Threaded loaded p path) {i : Nat} {ix : Instr}
    (hi : loaded.size ≤ i) (hix : p[i]? = some ix) :
    ∃ q : Nat, ix.parent = (q : Int) ∧ q < loaded.size ∧ path.idxOf q < path.idxOf i ∧
      (q + 1 < loaded.size → path.idxOf i < path.idxOf (q + 1)) := by
  have hle := hsound.grown.size_le
  have hilt : i < p.size := (Array.getElem?_eq_some_iff.1 hix).1
  obtain ⟨q, qx, hq, hqx, _⟩ := (hsound.entry i ix hix).made_parent hi
  have hqlt : q < loaded.size := (Array.getElem?_eq_some_iff.1 hqx).1
  have hpi : (p.instr i).parent = (q : Int) := by
    rw [Program.instr_of_getElem? hix, hq]
  refine ⟨q, hq, hqlt, ?_, ?_⟩
  · -- with the same parent the loaded one may not come second
    refine h.idxOf_lt (by omega) hilt (by omega) ?_
    unfold Before
    rw [hpi, hsound.parent_loaded hqlt]
    omega
  · intro hnext
    refine h.idxOf_lt hilt (by omega) (by omega) ?_
    unfold Before
    rw [hpi, hsound.parent_loaded hnext]
    omega

/-! ## §5. Machines. -/

open Machine in
/-- **A step splices or leaves the path alone.** -/
theorem threaded_step {loaded : Program} {m : Machine} {path : List Nat}
    (hsafe : Safe loaded m) (h : Threaded loaded m.program path) (halive : m.alive = true) :
    (m.splices = true →
      Threaded loaded m.step.program (insertAfter m.pc.toNat m.program.size path)) ∧
    (m.splices = false → Threaded loaded m.step.program path) := by
  rcases splices_cases halive with ⟨hs, hprog⟩ | ⟨hs, ix, k, hfetch, _, hb, _, hsp⟩
  · rw [hs, hprog]
    exact ⟨fun hf => absurd hf (by decide), fun _ => h⟩
  · obtain ⟨n, hn, hix⟩ := Program.fetch?_eq_some.1 hfetch
    rw [hs, hsp.2.2.1, hn, Int.toNat_natCast]
    exact ⟨fun _ => threaded_splice h hsafe.arena.grown.size_le hix hb,
      fun hf => absurd hf (by decide)⟩

open Machine in
theorem threaded_kept (loaded : Program) :
    Kept fun m => Safe loaded m ∧ ∃ path, Threaded loaded m.program path := by
  refine ⟨?_, fun m v h => ⟨(safe_kept loaded).push m v h.1, h.2⟩,
    fun m k h => ⟨(safe_kept loaded).count m k h.1, h.2⟩⟩
  intro m ⟨hsafe, path, hpath⟩ halive
  refine ⟨(safe_kept loaded).step m hsafe halive, ?_⟩
  obtain ⟨hyes, hno⟩ := threaded_step hsafe hpath halive
  cases hs : m.splices with
  | true => exact ⟨_, hyes hs⟩
  | false => exact ⟨path, hno hs⟩

open Machine in
/-- **Every history leaves a well-linked program.**  One path leads from
instruction 0 through every index once and to the end; the loaded
instructions stand on it in order, what was made at run time behind its
parent and before the next loaded one; the braces along it are balanced and
jump to their partners; and a step inserts one index behind the Execute that
succeeds, or leaves the path as it is. -/
theorem history_threaded {p : Program} (hp : p.Loaded) (hne : 0 < p.size) {base : Int}
    {input : Tokens} {output : Sink} {start : Machine}
    (hstart : Machine.new p base input output = .ok start) (es : List Event) :
    let m := start.after es
    ∃ path : List Nat,
      m.program.Leads 0 path halt ∧
      (∀ path', m.program.Leads 0 path' halt → path' = path) ∧
      path.Perm (List.range m.program.size) ∧
      path.filter (fun i => decide (i < p.size)) = List.range p.size ∧
      (∀ (i : Nat) (ix : Instr), p.size ≤ i → m.program[i]? = some ix →
        ∃ q : Nat, ix.parent = (q : Int) ∧ q < p.size ∧ path.idxOf q < path.idxOf i ∧
          (q + 1 < p.size → path.idxOf i < path.idxOf (q + 1))) ∧
      Balanced (kinds m.program path) ∧
      (∀ b, b ∈ path → (m.program.instr b).kind = .lbrace →
        ∃ r : Nat, (m.program.instr b).jump = (r : Int) ∧ Partners m.program path b r) ∧
      (∀ b, b ∈ path → (m.program.instr b).kind = .rbrace →
        ∃ l : Nat, (m.program.instr b).jump = (l : Int) ∧ Partners m.program path l b) ∧
      (∀ l r, Partners m.program path l r →
        (m.program.instr l).jump = (r : Int) ∧ (m.program.instr r).jump = (l : Int)) ∧
      (m.alive = true →
        (m.splices = true →
          m.step.program.Leads 0 (insertAfter m.pc.toNat m.program.size path) halt) ∧
        (m.splices = false → m.step.program.Leads 0 path halt)) := by
  intro m
  obtain ⟨ks, _, hl⟩ := hp.linked
  have hprog : start.program = p := by
    obtain ⟨b, rfl⟩ := new_eq hstart
    rfl
  have hinit : Safe p start ∧ ∃ path, Threaded p start.program path := by
    refine ⟨safe_new hp hstart, List.range p.size, ?_⟩
    rw [hprog]
    exact threaded_linked hl hne
  obtain ⟨hsafe, path, hpath⟩ := (threaded_kept p).after hinit es
  refine ⟨path, hpath.leads, fun path' h' => leads_unique h' hpath.leads, hpath.perm,
    hpath.filter_loaded hsafe.arena, fun i ix hi hix => hpath.between hsafe.arena hi hix,
    paired_balanced hpath.paired, fun b hb hk => paired_closing hpath.paired hb hk,
    fun b hb hk => paired_opening hpath.paired hb hk,
    fun l r hlr => partners_jump hpath.paired hlr, ?_⟩
  intro halive
  obtain ⟨hyes, hno⟩ := threaded_step hsafe hpath halive
  exact ⟨fun hs => (hyes hs).leads, fun hs => (hno hs).leads⟩

open Machine in
/-- An Execute inside a loop makes a Push, which comes to lie inside the
loop. -/
theorem history_threaded_loop :
    ∃ (p : Program) (start : Machine) (es : List Event), p.Loaded ∧ 0 < p.size ∧
      Machine.new p 10 (Tokens.ofBytes [] none) Sink.unlimited = .ok start ∧
      (start.after es).program.size = p.size + 1 ∧
      ∃ path : List Nat, (start.after es).program.Leads 0 path halt ∧
        path.Perm (List.range (start.after es).program.size) ∧
        Balanced (kinds (start.after es).program path) := by
  let p : Program :=
    #[⟨.lbrace, 0, 1, 2, 0⟩, ⟨.execute, 1, 2, 2, 1⟩, ⟨.rbrace, 2, halt, 0, 2⟩]
  let start : Machine :=
    ⟨p, 0, Stack.new, 0, .ten, Tokens.ofBytes [] none, Sink.unlimited, none, none⟩
  let digit (d : UInt8) : Event := .push ⟨false, [d]⟩
  let es : List Event := [digit 5, digit 9, digit 1, digit 1, .run 2]
  have hp : p.Loaded :=
    .codes 1 1 none #[⟨97, 98, 98, 97⟩, ⟨97, 98, 99, 97⟩, ⟨97, 98, 99, 100⟩] rfl
  have hstart : Machine.new p 10 (Tokens.ofBytes [] none) Sink.unlimited = .ok start := rfl
  obtain ⟨path, hleads, _, hperm, _, _, hbal, _⟩ := history_threaded hp (by decide) hstart es
  exact ⟨p, start, es, hp, by decide, hstart, by cbv, path, hleads, hperm, hbal⟩

end Path

end Tetraglyph
