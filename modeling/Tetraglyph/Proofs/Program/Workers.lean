/-
  Tetraglyph.Proofs.Program.Workers
  ─────────────────────────────────
  **WORKERS THAT DECODE AT THE SAME TIME.**

  A CREW of workers fills one program.  Each worker makes its own writes in
  order, one at a time, and when it has made them all it comes back; on its
  way back it looks whether the work was called off.  The moves of different
  workers may follow one another in any order, and the work may be called off
  at any moment between them.  When all workers are back, the first error that
  one of them came back with is the result, and otherwise the program.

  The places of the workers are a PARTITION of the program.  So every write is
  made exactly once, whatever the order; writes to different places commute;
  and the program is the one that decoding place by place gives.

      Worker, Crew, Event   — workers under way, and what can happen
      Crew.log              — the writes that were made
      Crew.result?          — what comes of it, once all workers are back

  Main results

      existsUnique_worker   — every place belongs to one worker
      Filled.after          — writes made and writes to come are one for each
                              place
      foldl_apply_perm      — the order of the writes makes no difference
      isSome_result?_iff    — when all workers are back
      workers_agree         — any crew does what decoding in order does
-/
import Mathlib.Logic.Function.Iterate
import Mathlib.Data.List.Nodup
import Tetraglyph.Proofs.Program.Decoding

namespace Tetraglyph

namespace Decoding

/-! ## §1. A crew of workers. -/

/-- A worker under way. -/
inductive Worker where
  /-- It has these writes still to make, in order. -/
  | writing (pending : List Write)
  /-- It is back. -/
  | back
  deriving DecidableEq

/-- Workers that fill one program. -/
structure Crew where
  /-- The program, as far as it is written. -/
  program : Program
  /-- The workers, by number. -/
  workers : List Worker
  /-- Why the work was called off, if it was. -/
  calledOff : Option Failure
  /-- The first error that a worker came back with. -/
  error : Option Failure

/-- What can happen to a crew. -/
inductive Event where
  /-- A worker makes its next move. -/
  | move (w : Nat)
  /-- The work is called off. -/
  | callOff (reason : Failure)
  deriving DecidableEq

/-- A worker's next move: it makes a write or, if it has none left, comes back
and reports why the work was called off, if it was. -/
def Crew.move (s : Crew) (w : Nat) : Crew :=
  match s.workers[w]? with
  | some (.writing (a :: rest)) =>
    { s with program := Write.apply s.program a, workers := s.workers.set w (.writing rest) }
  | some (.writing []) =>
    { s with workers := s.workers.set w .back, error := s.error.or s.calledOff }
  | _ => s

/-- The crew after something has happened.  Work that was called off stays
so, for its first reason. -/
def Crew.occur (s : Crew) : Event → Crew
  | .move w => s.move w
  | .callOff reason => { s with calledOff := s.calledOff.or (some reason) }

/-- The crew after a number of events. -/
def Crew.after (s : Crew) (events : List Event) : Crew := events.foldl Crew.occur s

/-- The write that an event makes, if it makes one. -/
def Crew.wrote (s : Crew) : Event → List Write
  | .move w =>
    match s.workers[w]? with
    | some (.writing (a :: _)) => [a]
    | _ => []
  | .callOff _ => []

/-- The writes that a number of events make, in order. -/
def Crew.log (s : Crew) : List Event → List Write
  | [] => []
  | e :: events => s.wrote e ++ (s.occur e).log events

/-- What comes of it, once all workers are back. -/
def Crew.result? (s : Crew) : Option (Except Failure Program) :=
  if s.workers.all (· == .back) then
    match s.error with
    | some f => some (.error f)
    | none => some (.ok s.program)
  else none

/-- The crew that decodes codes, before its first move. -/
def Crew.start (processors : Nat) (codes : Array Code) (requested : Int)
    (calledOff : Option Failure) : Crew :=
  let workers := workerCount processors requested codes.size
  ⟨blank codes.size, (List.range workers).map fun w => .writing (writesOf codes workers w),
    calledOff, none⟩

/-! ## §2. Every place belongs to one worker. -/

theorem workerCount_eq (processors : Nat) (requested : Int) (n : Nat) :
    (workerCount processors requested n : Int)
      = max 1 (min (if requested < 1 then (processors : Int) else requested) n) := by
  unfold workerCount
  split
  next => omega
  next => omega

theorem firstPlace_mono (n workers : Nat) {v w : Nat} (h : v ≤ w) :
    firstPlace n workers v ≤ firstPlace n workers w := by
  induction h with
  | refl => exact Nat.le_refl _
  | step _ ih => exact Nat.le_trans ih (firstPlace_le_succ n workers _)

/-- A place before the first one of worker `w` belongs to a worker before
it. -/
theorem exists_worker (n workers i : Nat) {w : Nat} (h : i < firstPlace n workers w) :
    ∃ v < w, firstPlace n workers v ≤ i ∧ i < firstPlace n workers (v + 1) := by
  induction w with
  | zero =>
      rw [firstPlace_zero] at h
      exact absurd h (Nat.not_lt_zero i)
  | succ w ih =>
      by_cases hw : i < firstPlace n workers w
      · obtain ⟨v, hv, hplace⟩ := ih hw
        exact ⟨v, by omega, hplace⟩
      · exact ⟨w, by omega, by omega, h⟩

/-- **Every place belongs to one worker**, and no worker has a place outside
the program. -/
theorem existsUnique_worker (n : Nat) {workers : Nat} (hpos : 0 < workers) (i : Nat) :
    i < n ↔ ∃! w, w < workers ∧ firstPlace n workers w ≤ i ∧
      i < firstPlace n workers (w + 1) := by
  constructor
  · intro hi
    rw [← firstPlace_workers n hpos] at hi
    obtain ⟨w, hw, hle, hlt⟩ := exists_worker n workers i hi
    refine ⟨w, ⟨hw, hle, hlt⟩, ?_⟩
    rintro v ⟨_, hle', hlt'⟩
    -- the places of a later worker start where those of the earlier one end
    rcases Nat.lt_trichotomy v w with h | h | h
    · have := firstPlace_mono n workers (show v + 1 ≤ w from h)
      omega
    · exact h
    · have := firstPlace_mono n workers (show w + 1 ≤ v from h)
      omega
  · rintro ⟨w, ⟨hw, _, hlt⟩, _⟩
    have := firstPlace_mono n workers (show w + 1 ≤ workers from hw)
    rw [firstPlace_workers n hpos] at this
    omega

/-! ## §3. One move. -/

/-- What a move does: a write, a return, or nothing. -/
theorem move_cases (s : Crew) (w : Nat) :
    (∃ a rest, s.workers[w]? = some (.writing (a :: rest)) ∧ s.wrote (.move w) = [a] ∧
      s.move w = { s with program := Write.apply s.program a,
                          workers := s.workers.set w (.writing rest) }) ∨
    (s.workers[w]? = some (.writing []) ∧ s.wrote (.move w) = [] ∧
      s.move w = { s with workers := s.workers.set w .back,
                          error := s.error.or s.calledOff }) ∨
    ((∀ ws, s.workers[w]? ≠ some (.writing ws)) ∧ s.wrote (.move w) = [] ∧ s.move w = s) := by
  unfold Crew.move Crew.wrote
  dsimp only
  cases hw : s.workers[w]? with
  | none => exact .inr (.inr ⟨by simp, rfl, rfl⟩)
  | some worker =>
      cases worker with
      | back => exact .inr (.inr ⟨by simp, rfl, rfl⟩)
      | writing ws =>
          cases ws with
          | nil => exact .inr (.inl ⟨rfl, rfl, rfl⟩)
          | cons a rest => exact .inl ⟨a, rest, rfl, rfl, rfl⟩

/-! ## §4. Writes made and writes to come. -/

/-- What a worker has still to write. -/
def Worker.pending : Worker → List Write
  | .writing ws => ws
  | .back => []

/-- What the workers have still to write. -/
def Crew.pending (s : Crew) : List Write := s.workers.flatMap Worker.pending

/-- A worker among the others. -/
theorem pending_set {ws : List Worker} {w : Nat} {x : Worker} (h : ws[w]? = some x) (y : Worker) :
    ∃ before behind, ws.flatMap Worker.pending = before ++ (x.pending ++ behind) ∧
      (ws.set w y).flatMap Worker.pending = before ++ (y.pending ++ behind) := by
  obtain ⟨hlt, hx⟩ := List.getElem?_eq_some_iff.1 h
  obtain ⟨l₁, l₂, hws, _, hset⟩ := @List.exists_of_set _ w y ws hlt
  refine ⟨l₁.flatMap Worker.pending, l₂.flatMap Worker.pending, ?_, ?_⟩
  · rw [hws, hx, List.flatMap_append, List.flatMap_cons]
  · rw [hset, List.flatMap_append, List.flatMap_cons]

/-- The program holds what was written, and the writes made and those to come
are one for each place. -/
structure Filled (codes : Array Code) (done : List Write) (s : Crew) : Prop where
  /-- Every write was made, or is to come. -/
  writes : (done ++ s.pending).Perm ((List.range codes.size).map (decoded codes))
  /-- The program is what the writes made of it. -/
  program_eq : s.program = done.foldl Write.apply (blank codes.size)

/-- One event makes the writes it makes. -/
theorem Filled.occur {codes : Array Code} {done : List Write} {s : Crew}
    (h : Filled codes done s) (e : Event) :
    Filled codes (done ++ s.wrote e) (s.occur e) := by
  cases e with
  | callOff reason =>
      show Filled codes (done ++ []) _
      rw [List.append_nil]
      exact ⟨h.writes, h.program_eq⟩
  | move w =>
      show Filled codes (done ++ s.wrote (.move w)) (s.move w)
      rcases move_cases s w with ⟨a, rest, hw, hwrote, hmove⟩ | ⟨hw, hwrote, hmove⟩ |
        ⟨_, hwrote, hmove⟩
      · -- the write leaves the front of what the worker has to do
        obtain ⟨before, behind, hold, hnew⟩ := pending_set hw (.writing rest)
        have hwrites := h.writes
        unfold Crew.pending at hwrites
        rw [hold] at hwrites
        rw [hwrote, hmove]
        constructor
        · show ((done ++ [a]) ++ (s.workers.set w (.writing rest)).flatMap Worker.pending).Perm _
          rw [hnew, List.append_assoc]
          refine (List.Perm.append_left done ?_).trans hwrites
          show (a :: (before ++ (rest ++ behind))).Perm (before ++ a :: (rest ++ behind))
          exact List.perm_middle.symm
        · show Write.apply s.program a = _
          rw [h.program_eq, List.foldl_append]
          rfl
      · obtain ⟨before, behind, hold, hnew⟩ := pending_set hw .back
        rw [hwrote, hmove, List.append_nil]
        refine ⟨?_, h.program_eq⟩
        show (done ++ (s.workers.set w .back).flatMap Worker.pending).Perm _
        rw [hnew]
        have hwrites := h.writes
        unfold Crew.pending at hwrites
        rw [hold] at hwrites
        exact hwrites
      · rw [hwrote, hmove, List.append_nil]
        exact h

/-- **Writes made and writes to come are one for each place**, whatever has
happened. -/
theorem Filled.after {codes : Array Code} (events : List Event) :
    ∀ {done : List Write} {s : Crew}, Filled codes done s →
      Filled codes (done ++ s.log events) (s.after events) := by
  induction events with
  | nil =>
      intro done s h
      show Filled codes (done ++ []) s
      rw [List.append_nil]
      exact h
  | cons e events ih =>
      intro done s h
      show Filled codes (done ++ (s.wrote e ++ (s.occur e).log events)) ((s.occur e).after events)
      rw [← List.append_assoc]
      exact ih (h.occur e)

theorem filled_start (processors : Nat) (codes : Array Code) (requested : Int)
    (calledOff : Option Failure) :
    Filled codes [] (Crew.start processors codes requested calledOff) := by
  refine ⟨?_, rfl⟩
  have hpos := workerCount_pos processors requested codes.size
  have hall := flatMap_writesOf codes (workerCount processors requested codes.size)
    (workerCount processors requested codes.size)
  rw [firstPlace_workers codes.size hpos] at hall
  show (((List.range _).map _).flatMap Worker.pending).Perm _
  rw [List.flatMap_map, ← hall]
  exact List.Perm.refl _

/-- No place is written twice. -/
theorem Filled.nodup {codes : Array Code} {done : List Write} {s : Crew}
    (h : Filled codes done s) : (done.map Write.place).Nodup := by
  have hplaces := h.writes.map Write.place
  have hrange : ((List.range codes.size).map (decoded codes)).map Write.place
      = List.range codes.size := by
    rw [List.map_map]
    exact List.map_id _
  rw [hrange] at hplaces
  have hnodup := hplaces.nodup_iff.2 List.nodup_range
  rw [List.map_append] at hnodup
  exact (List.nodup_append.1 hnodup).1

/-! ## §5. The order of the writes. -/

/-- **The order of the writes makes no difference**, as long as every place
gets what is decoded there. -/
theorem foldl_apply_perm {codes : Array Code} {ws ws' : List Write} (hperm : ws.Perm ws')
    (hdecoded : ∀ a ∈ ws, a = decoded codes a.place) (p : Program) :
    ws.foldl Write.apply p = ws'.foldl Write.apply p := by
  apply hperm.foldl_eq'
  intro a ha b hb q
  by_cases hplace : a.place = b.place
  · -- the same place, and so the same write
    rw [hdecoded a ha, hdecoded b hb, hplace]
  · show (q.setIfInBounds a.place a.instr).setIfInBounds b.place b.instr = _
    exact Array.setIfInBounds_comm a.instr b.instr hplace

/-- Once nothing is left to write, every place was written and the program is
the decoded one. -/
theorem Filled.complete {codes : Array Code} {done : List Write} {s : Crew}
    (h : Filled codes done s) (hpending : s.pending = []) :
    (done.map Write.place).Perm (List.range codes.size) ∧
      s.program = Program.unlinked (codes.toList.map Code.kind) := by
  have hwrites := h.writes
  rw [hpending, List.append_nil] at hwrites
  constructor
  · have hplaces := hwrites.map Write.place
    rw [List.map_map] at hplaces
    exact hplaces.trans (by rw [show Write.place ∘ decoded codes = id from rfl, List.map_id])
  · have hdecoded : ∀ a ∈ done, a = decoded codes a.place := by
      intro a ha
      obtain ⟨i, _, rfl⟩ := List.mem_map.1 (hwrites.subset ha)
      rfl
    -- one worker that goes from place to place leaves the same program
    have horder := decode_eq_unlinked 1 codes 1
    unfold decode at horder
    dsimp only at horder
    rw [flatMap_writesOf, firstPlace_workers codes.size (workerCount_pos 1 1 codes.size),
      Except.ok.injEq] at horder
    rw [h.program_eq, foldl_apply_perm hwrites hdecoded, horder]

/-! ## §6. When all workers are back. -/

/-- A worker after its next move. -/
def Worker.next : Worker → Worker
  | .writing (_ :: rest) => .writing rest
  | .writing [] => .back
  | .back => .back

/-- A move takes its own worker one step on. -/
theorem workers_move (s : Crew) (w : Nat) :
    (s.move w).workers = s.workers.modify w Worker.next := by
  rw [List.modify_eq_set_getElem?]
  rcases move_cases s w with ⟨a, rest, hw, _, hmove⟩ | ⟨hw, _, hmove⟩ | ⟨hw, _, hmove⟩
  · rw [hmove, hw]
    rfl
  · rw [hmove, hw]
    rfl
  · rw [hmove]
    cases hx : s.workers[w]? with
    | none => rfl
    | some x =>
        cases x with
        | writing ws => exact absurd hx (hw ws)
        | back =>
            -- a worker that is back stays back
            obtain ⟨hlt, hback⟩ := List.getElem?_eq_some_iff.1 hx
            show s.workers = s.workers.set w .back
            rw [← hback, List.set_getElem_self]

/-- A move changes its own worker and no other. -/
theorem getElem?_workers_occur (s : Crew) (e : Event) (v : Nat) :
    (s.occur e).workers[v]?
      = if e = .move v then (s.workers[v]?).map Worker.next else s.workers[v]? := by
  cases e with
  | callOff reason => rfl
  | move w =>
      show (s.move w).workers[v]? = _
      rw [workers_move, List.getElem?_modify]
      by_cases hv : w = v
      · rw [if_pos (congrArg Event.move hv)]
        simp [hv]
      · rw [if_neg (by simpa using hv)]
        simp [hv]

/-- **A worker depends on its own moves only.** -/
theorem getElem?_workers_after (events : List Event) (v : Nat) :
    ∀ s : Crew, (s.after events).workers[v]?
      = (s.workers[v]?).map (Worker.next^[events.count (.move v)]) := by
  induction events with
  | nil =>
      intro s
      exact Option.map_id.symm ▸ rfl
  | cons e events ih =>
      intro s
      show ((s.occur e).after events).workers[v]? = _
      rw [ih, getElem?_workers_occur, List.count_cons]
      by_cases he : e = .move v
      · rw [if_pos he, if_pos (by simpa using he), Option.map_map, ← Function.iterate_succ]
      · rw [if_neg he, if_neg (by simpa using he)]
        rfl

/-- A worker with `n` writes to make is back after more than `n` moves. -/
theorem iterate_next (k : Nat) (ws : List Write) :
    Worker.next^[k] (.writing ws) = .back ↔ ws.length < k := by
  induction k generalizing ws with
  | zero => simp
  | succ k ih =>
      rw [Function.iterate_succ_apply]
      cases ws with
      | nil =>
          have hback : Worker.next^[k] .back = .back := Function.iterate_fixed rfl k
          simp [Worker.next, hback]
      | cons a rest =>
          show Worker.next^[k] (.writing rest) = .back ↔ _
          rw [ih, List.length_cons]
          omega

theorem length_writesOf (codes : Array Code) (workers w : Nat) :
    (writesOf codes workers w).length
      = firstPlace codes.size workers (w + 1) - firstPlace codes.size workers w := by
  unfold writesOf
  rw [List.length_map, List.length_range']

theorem isSome_result? (s : Crew) :
    s.result?.isSome = true ↔ ∀ (w : Nat) (x : Worker), s.workers[w]? = some x → x = .back := by
  unfold Crew.result?
  constructor
  · intro h w x hx
    split at h
    next hall =>
        rw [List.all_eq_true] at hall
        simpa using hall x (List.mem_of_getElem? hx)
    next => exact absurd h (by simp)
  · intro h
    have hall : s.workers.all (· == .back) = true := by
      rw [List.all_eq_true]
      intro x hx
      obtain ⟨w, hw⟩ := List.getElem?_of_mem hx
      simpa using h w x hw
    rw [if_pos hall]
    cases s.error <;> rfl

/-- **When all workers are back**: when each of them had one move for every
place of its own, and one more. -/
theorem isSome_result?_iff (processors : Nat) (codes : Array Code) (requested : Int)
    (calledOff : Option Failure) (events : List Event) :
    let n := codes.size
    let workers := workerCount processors requested n
    ((Crew.start processors codes requested calledOff).after events).result?.isSome = true ↔
      ∀ w < workers, firstPlace n workers (w + 1) - firstPlace n workers w
        < events.count (.move w) := by
  intro n workers
  have hstart : ∀ w, (Crew.start processors codes requested calledOff).workers[w]?
      = if w < workers then some (.writing (writesOf codes workers w)) else none := by
    intro w
    show ((List.range workers).map fun w => Worker.writing (writesOf codes workers w))[w]? = _
    rw [List.getElem?_map]
    by_cases hw : w < workers
    · rw [if_pos hw, List.getElem?_range hw]
      rfl
    · rw [if_neg hw, List.getElem?_eq_none (by simpa using hw)]
      rfl
  rw [isSome_result?]
  constructor
  · intro h w hw
    have hworker :=
      getElem?_workers_after events w (Crew.start processors codes requested calledOff)
    rw [hstart, if_pos hw] at hworker
    rw [← length_writesOf, ← iterate_next]
    exact h w _ hworker
  · intro h w x hx
    rw [getElem?_workers_after, hstart] at hx
    split at hx
    next hw =>
        have hback := (iterate_next _ _).2 (by rw [length_writesOf]; exact h w hw)
        rw [Option.map_some, hback, Option.some.injEq] at hx
        exact hx.symm
    next => exact absurd hx (by simp)

theorem pending_of_result? {s : Crew} {r : Except Failure Program} (h : s.result? = some r) :
    s.pending = [] := by
  have hback := (isSome_result? s).1 (by rw [h]; rfl)
  unfold Crew.pending
  rw [List.flatMap_eq_nil_iff]
  intro x hx
  obtain ⟨w, hw⟩ := List.getElem?_of_mem hx
  rw [hback w x hw]
  rfl

/-! ## §7. What the workers report. -/

/-- Why the work was called off, as far as the workers know: an error is the
reason, and a worker that came back from work called off before it started has
reported it. -/
structure Reported (calledOff : Option Failure) (s : Crew) : Prop where
  /-- Work that was called off stays so, for the same reason. -/
  kept : ∀ f, calledOff = some f → s.calledOff = some f
  /-- An error is the reason why the work was called off. -/
  honest : ∀ f, s.error = some f → s.calledOff = some f
  /-- Whoever is back from work called off before it started has said so. -/
  noticed : ∀ f, calledOff = some f → Worker.back ∈ s.workers → s.error = some f

theorem reported_start (processors : Nat) (codes : Array Code) (requested : Int)
    (calledOff : Option Failure) :
    Reported calledOff (Crew.start processors codes requested calledOff) := by
  refine ⟨fun f hf => hf, ?_, ?_⟩
  · intro f hf
    exact absurd hf (by simp [Crew.start])
  · intro f _ hback
    obtain ⟨w, _, hw⟩ := List.mem_map.1 hback
    exact absurd hw (by simp)

theorem Reported.occur {calledOff : Option Failure} {s : Crew} (h : Reported calledOff s)
    (e : Event) : Reported calledOff (s.occur e) := by
  cases e with
  | callOff reason =>
      refine ⟨?_, ?_, h.noticed⟩
      · intro f hf
        show s.calledOff.or (some reason) = some f
        rw [h.kept f hf]
        rfl
      · intro f hf
        show s.calledOff.or (some reason) = some f
        rw [h.honest f hf]
        rfl
  | move w =>
      show Reported calledOff (s.move w)
      rcases move_cases s w with ⟨a, rest, _, _, hmove⟩ | ⟨_, _, hmove⟩ | ⟨_, _, hmove⟩
      · rw [hmove]
        refine ⟨h.kept, h.honest, ?_⟩
        intro f hf hback
        rcases List.mem_or_eq_of_mem_set hback with hback | hback
        · exact h.noticed f hf hback
        · exact absurd hback (by simp)
      · rw [hmove]
        refine ⟨h.kept, ?_, ?_⟩
        · intro f hf
          have hf : s.error.or s.calledOff = some f := hf
          cases herror : s.error with
          | none =>
              rw [herror] at hf
              exact hf
          | some g =>
              rw [herror] at hf
              obtain rfl : g = f := Option.some.inj hf
              exact h.honest g herror
        · intro f hf _
          show s.error.or s.calledOff = some f
          rw [h.kept f hf]
          cases herror : s.error with
          | none => rfl
          | some g =>
              -- an earlier report gave the same reason
              have hreason := h.honest g herror
              rw [h.kept f hf] at hreason
              exact hreason.symm
      · rw [hmove]
        exact h

theorem Reported.after {calledOff : Option Failure} (events : List Event) :
    ∀ {s : Crew}, Reported calledOff s → Reported calledOff (s.after events) := by
  induction events with
  | nil =>
      intro s h
      exact h
  | cons e events ih =>
      intro s h
      exact ih (h.occur e)

/-- The result is the program, or the reason why the work was called off. -/
theorem result?_cases {s : Crew} {r : Except Failure Program} (h : s.result? = some r) :
    (s.error = none ∧ r = .ok s.program) ∨ ∃ f, s.error = some f ∧ r = .error f := by
  unfold Crew.result? at h
  split at h
  next =>
      split at h
      next f hf => exact .inr ⟨f, hf, (Option.some.inj h).symm⟩
      next hf => exact .inl ⟨hf, (Option.some.inj h).symm⟩
  next => exact absurd h (by simp)

/-- There is always a worker to come back. -/
theorem back_mem_workers {processors : Nat} {codes : Array Code} {requested : Int}
    {calledOff : Option Failure} {events : List Event}
    (h : ((Crew.start processors codes requested calledOff).after events).result?.isSome = true) :
    Worker.back ∈ ((Crew.start processors codes requested calledOff).after events).workers := by
  have hback := (isSome_result? _).1 h
  have hworker := getElem?_workers_after events 0 (Crew.start processors codes requested calledOff)
  have hpos := workerCount_pos processors requested codes.size
  have hstart : (Crew.start processors codes requested calledOff).workers[0]?
      = some (.writing (writesOf codes (workerCount processors requested codes.size) 0)) := by
    show ((List.range _).map _)[0]? = _
    rw [List.getElem?_map, List.getElem?_range hpos]
    rfl
  rw [hstart, Option.map_some] at hworker
  have hmem := List.mem_of_getElem? hworker
  rw [hback 0 _ hworker] at hmem
  exact hmem

/-! ## §8. Decoding by a crew. -/

/-- **Any crew does what decoding in order does.**  There are as many workers
as asked for, or as there are processors, but no more than codes and at least
one; every place belongs to exactly one of them.  Whatever the order of their
moves and whenever the work is called off, no place is written twice.  The
workers are all back exactly when each had its moves.  Then every place was
written; a program that comes of it holds at each place the instruction that
its code spells, unlinked, which is what decoding in order gives; and an error
is the reason why the work was called off.  It is called off for sure if it was
before it started, even if there is nothing to decode, and never if nobody
does. -/
theorem workers_agree (processors : Nat) (codes : Array Code) (requested : Int) :
    let n := codes.size
    let W := workerCount processors requested n
    ((W : Int) = max 1 (min (if requested < 1 then (processors : Int) else requested) n)) ∧
    (∀ i, i < n ↔ ∃! w, w < W ∧ w * n / W ≤ i ∧ i < (w + 1) * n / W) ∧
    ∀ (calledOff : Option Failure) (events : List Event),
      let start := Crew.start processors codes requested calledOff
      let s := start.after events
      ((start.log events).map Write.place).Nodup ∧
      (s.result?.isSome = true ↔
        ∀ w < W, (w + 1) * n / W - w * n / W < events.count (.move w)) ∧
      ∀ r, s.result? = some r →
        ((start.log events).map Write.place).Perm (List.range n) ∧
        (∀ p, r = .ok p → p.size = n ∧
          (∀ id : Nat, p[id]? = (codes[id]?).map fun c => ⟨c.kind, id, halt, halt, id⟩) ∧
          decode processors codes requested none = .ok p) ∧
        (∀ f, r = .error f → s.calledOff = some f) ∧
        (∀ f, calledOff = some f → r = .error f) ∧
        (s.calledOff = none → ∃ p, r = .ok p) := by
  intro n W
  refine ⟨workerCount_eq processors requested n,
    existsUnique_worker n (workerCount_pos processors requested n), ?_⟩
  intro calledOff events start s
  have hfilled : Filled codes (start.log events) s :=
    (filled_start processors codes requested calledOff).after events
  have hreported : Reported calledOff s :=
    (reported_start processors codes requested calledOff).after events
  refine ⟨hfilled.nodup, isSome_result?_iff processors codes requested calledOff events, ?_⟩
  intro r hr
  obtain ⟨hplaces, hprogram⟩ := hfilled.complete (pending_of_result? hr)
  refine ⟨hplaces, ?_, ?_, ?_, ?_⟩
  · intro p hp
    have hok : p = Program.unlinked (codes.toList.map Code.kind) := by
      rcases result?_cases hr with ⟨_, hr⟩ | ⟨f, _, hr⟩
      · rw [← hprogram]
        exact Except.ok.inj (hp.symm.trans hr)
      · exact absurd (hp.symm.trans hr) (by simp)
    rw [hok]
    refine ⟨by simp [Program.size_unlinked, n], ?_, decode_eq_unlinked processors codes requested⟩
    intro id
    rw [Program.getElem?_unlinked, List.getElem?_map, Array.getElem?_toList, Option.map_map]
    rfl
  · intro f hf
    rcases result?_cases hr with ⟨_, hok⟩ | ⟨g, hg, herror⟩
    · exact absurd (hf.symm.trans hok) (by simp)
    · obtain rfl : f = g := Except.error.inj (hf.symm.trans herror)
      exact hreported.honest f hg
  · intro f hf
    have herror := hreported.noticed f hf (back_mem_workers (by rw [hr]; rfl))
    rcases result?_cases hr with ⟨hnone, _⟩ | ⟨g, hg, hr⟩
    · rw [hnone] at herror
      exact absurd herror (by simp)
    · rw [herror, Option.some.injEq] at hg
      rw [hr, hg]
  · intro hnone
    rcases result?_cases hr with ⟨_, hok⟩ | ⟨g, hg, _⟩
    · exact ⟨_, hok⟩
    · rw [hreported.honest g hg] at hnone
      exact absurd hnone (by simp)

/-- Two workers that take turns with three codes, the second one first; and
work that was called off before it started, without anything to decode. -/
theorem workers_agree_turns :
    let codes : Array Code := #[⟨97, 98, 97, 98⟩, ⟨97, 97, 98, 98⟩, ⟨97, 97, 98, 99⟩]
    let start := Crew.start 4 codes 2 none
    let events : List Event := [.move 1, .move 0, .move 1, .move 0, .move 1]
    let p : Program := #[⟨.dup, 0, halt, halt, 0⟩, ⟨.swap, 1, halt, halt, 1⟩,
      ⟨.push, 2, halt, halt, 2⟩]
    (start.after events).result? = some (.ok p) ∧
      (start.log events).map Write.place = [1, 0, 2] ∧ [1, 0, 2].Perm (List.range 3) ∧
      decode 4 codes 2 none = .ok p ∧
      ((Crew.start 4 #[] 2 (some (.known .cancelled))).after [.move 0]).result?
        = some (.error (.known .cancelled)) := by
  intro codes start events p
  have hresult : (start.after events).result? = some (.ok p) := by cbv
  have hlog : (start.log events).map Write.place = [1, 0, 2] := by cbv
  obtain ⟨_, _, hruns⟩ := workers_agree 4 codes 2
  obtain ⟨hplaces, hok, _⟩ := (hruns none events).2.2 _ hresult
  rw [hlog] at hplaces
  -- the one worker there is has nothing to write, and its one move is to come back
  obtain ⟨_, _, hempty⟩ := workers_agree 4 #[] 2
  obtain ⟨_, hback, hcalled⟩ := hempty (some (.known .cancelled)) [.move 0]
  obtain ⟨r, hr⟩ := Option.isSome_iff_exists.1 (hback.2 (by decide))
  refine ⟨hresult, hlog, hplaces, (hok p rfl).2.2, ?_⟩
  rw [hr, (hcalled r hr).2.2.2.1 _ rfl]

end Decoding

end Tetraglyph
