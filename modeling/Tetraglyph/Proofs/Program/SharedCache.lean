/-
  Tetraglyph.Proofs.Program.SharedCache
  ─────────────────────────────────────
  **CALLS THAT SHARE ONE CACHE.**

  A loader serves many calls at the same time.  A CALL asks for one source and
  takes three steps, each of them atomic: it looks the source up; if it is not
  there it reads, decodes and links it; then it remembers the program.
  Between its steps the others take theirs, so two calls may both miss one
  source and both remember it, and what a call remembers may be forgotten
  before it returns.  A call may be called off at any moment, with any error.

      Phase, Call        — how far a call has come
      Loader.advance     — its next step
      Shared, Event      — a loader with all its calls, and what can happen
      Sound              — the invariant: calls that hold a program hold that
                           of their own source, and so does the cache

  Main results

      advance_load       — a call that is not interrupted is a load
      Sound.occur        — no event breaks the invariant
      loader_occur       — only a call that returns a program touches the
                           loader
      Call.left_after    — three steps are enough for any call
      shared_cache_sound — the cache is sound in any order of steps
-/
import Mathlib
import Tetraglyph.Proofs.Program.Caching

namespace Tetraglyph

/-! ## §1. Calls, and the steps they take. -/

namespace Loader

/-- How far a call has come. -/
inductive Phase where
  /-- It has not done anything. -/
  | called
  /-- Its source was not found. -/
  | missed
  /-- Its source was read, decoded and linked. -/
  | compiled (p : Program)
  /-- It has returned. -/
  | returned (result : Except Failure Program)

/-- A call that loads a source. -/
structure Call where
  /-- The source. -/
  src : Bytes
  /-- The error that the call was called off with, if it was. -/
  done : Option Failure
  /-- How far it has come. -/
  phase : Phase

/-- What can happen to a loader. -/
inductive Event where
  /-- Someone calls for a source. -/
  | call (src : Bytes)
  /-- A call is called off with an error. -/
  | callOff (i : Nat) (f : Failure)
  /-- A call takes its next step. -/
  | advance (i : Nat)
  deriving DecidableEq

/-- The source that an event calls for, if it does. -/
def Event.source? : Event → Option Bytes
  | .call src => some src
  | _ => none

section

variable {γ : Type}

/-- The next step of a call: the loader after it, and the call. -/
def advance (l : Loader γ) (c : Call) : Loader γ × Call :=
  match c.phase with
  | .called =>
    match l.find? c.src with
    | some (p, cache) => ({ l with cache }, { c with phase := .returned (.ok p) })
    | none => (l, { c with phase := .missed })
  | .missed =>
    match l.compile c.done c.src with
    | .ok p => (l, { c with phase := .compiled p })
    | .error f => (l, { c with phase := .returned (.error f) })
  | .compiled p => (l.remember c.src p, { c with phase := .returned (.ok p) })
  | .returned _ => (l, c)

/-- The call, called off with an error.  The first error is the one that
counts. -/
def Call.callOff (c : Call) (f : Failure) : Call := { c with done := c.done.or (some f) }

/-- A loader, and all the calls it has had. -/
structure Shared (γ : Type) where
  /-- The loader. -/
  loader : Loader γ
  /-- The calls, the first one first. -/
  calls : List Call

/-- What an event makes of the loader and its calls. -/
def Shared.occur (s : Shared γ) : Event → Shared γ
  | .call src => { s with calls := s.calls ++ [⟨src, none, .called⟩] }
  | .callOff i f => { s with calls := s.calls.modify i fun c => c.callOff f }
  | .advance i =>
    match s.calls[i]? with
    | some c => ⟨(s.loader.advance c).1, s.calls.set i (s.loader.advance c).2⟩
    | none => s

/-- The loader and its calls after a number of events. -/
def Shared.after (s : Shared γ) (events : List Event) : Shared γ := events.foldl Shared.occur s

/-- A new loader that nobody has called yet. -/
def Shared.start (store : Program.Store γ) (processors : Nat) (workers cacheSize : Int) :
    Shared γ :=
  ⟨Loader.new store processors workers cacheSize, []⟩

theorem Shared.after_append (s : Shared γ) (before later : List Event) :
    s.after (before ++ later) = (s.after before).after later :=
  List.foldl_append

/-! ## §2. One step. -/

/-- What a step of a call can be: it finds its source, or misses it, compiles
it, fails to, or remembers the program; or it has returned before. -/
theorem advance_cases (l : Loader γ) (c : Call) :
    (∃ p cache, c.phase = .called ∧ l.find? c.src = some (p, cache) ∧
      l.advance c = ({ l with cache }, { c with phase := .returned (.ok p) })) ∨
    (c.phase = .called ∧ l.find? c.src = none ∧ l.advance c = (l, { c with phase := .missed })) ∨
    (∃ p, c.phase = .missed ∧ l.compile c.done c.src = .ok p ∧
      l.advance c = (l, { c with phase := .compiled p })) ∨
    (∃ f, c.phase = .missed ∧ l.compile c.done c.src = .error f ∧
      l.advance c = (l, { c with phase := .returned (.error f) })) ∨
    (∃ p, c.phase = .compiled p ∧
      l.advance c = (l.remember c.src p, { c with phase := .returned (.ok p) })) ∨
    (∃ r, c.phase = .returned r ∧ l.advance c = (l, c)) := by
  unfold advance
  cases hphase : c.phase with
  | called =>
      cases hfind : l.find? c.src with
      | some found => exact .inl ⟨found.1, found.2, rfl, rfl, rfl⟩
      | none => exact .inr (.inl ⟨rfl, rfl, rfl⟩)
  | missed =>
      cases hcompile : l.compile c.done c.src with
      | ok p => exact .inr (.inr (.inl ⟨p, rfl, rfl, rfl⟩))
      | error f => exact .inr (.inr (.inr (.inl ⟨f, rfl, rfl, rfl⟩)))
  | compiled p => exact .inr (.inr (.inr (.inr (.inl ⟨p, rfl, rfl⟩))))
  | returned r => exact .inr (.inr (.inr (.inr (.inr ⟨r, rfl, rfl⟩))))

/-- **A call that is not interrupted is a load.** -/
theorem advance_load (l : Loader γ) (done : Option Failure) (src : Bytes) :
    let one := l.advance ⟨src, done, .called⟩
    let two := one.1.advance one.2
    two.1.advance two.2 = ((l.load done src).loader,
      ⟨src, done, .returned (l.load done src).result⟩) := by
  dsimp only [advance, load]
  cases hfind : l.find? src with
  | some found => rfl
  | none =>
      dsimp only
      cases hcompile : l.compile done src with
      | ok p => rfl
      | error f => rfl

/-- No step puts another store in place. -/
theorem advance_store (l : Loader γ) (c : Call) : (l.advance c).1.store = l.store := by
  rcases l.advance_cases c with ⟨p, cache, _, _, hstep⟩ | ⟨_, _, hstep⟩ | ⟨p, _, _, hstep⟩ |
    ⟨f, _, _, hstep⟩ | ⟨p, _, hstep⟩ | ⟨r, _, hstep⟩
  all_goals rw [hstep]
  rfl

theorem Shared.store_after (s : Shared γ) (events : List Event) :
    (s.after events).loader.store = s.loader.store := by
  induction events generalizing s with
  | nil => rfl
  | cons e events ih =>
      refine (ih (s.occur e)).trans ?_
      cases e with
      | call src => rfl
      | callOff i f => rfl
      | advance i =>
          unfold Shared.occur
          dsimp only
          split
          next c _ => exact s.loader.advance_store c
          next => rfl

/-- A compiled source has a program; one that fails is rejected, or was
called off. -/
theorem compile_cases (l : Loader γ) (done : Option Failure) (src : Bytes) :
    (∀ p, l.compile done src = .ok p → Source.program src = .ok p) ∧
    ∀ f, l.compile done src = .error f → Source.program src = .error f ∨ done = some f := by
  cases done with
  | none =>
      rw [compile_eq]
      exact ⟨fun p hp => hp, fun f hf => .inl hf⟩
  | some g =>
      unfold compile Source.program link
      cases hcs : Source.codes src with
      | error g => exact ⟨fun p hp => absurd hp (by simp [bind, Except.bind]), fun f hf => .inl hf⟩
      | ok cs =>
          dsimp only [bind, Except.bind]
          rw [Decoding.decode_done]
          exact ⟨fun p hp => absurd hp (by simp),
            fun f hf => .inr (congrArg some (Except.error.inj hf))⟩

end

/-! ## §3. The invariant. -/

/-- A call that holds a program holds the one of its source, and a call that
failed did so because its source is rejected or because it was called off. -/
structure Call.Honest (c : Call) : Prop where
  /-- The program of the source. -/
  program : ∀ p, c.phase = .compiled p ∨ c.phase = .returned (.ok p) → Source.program c.src = .ok p
  /-- The reason to fail. -/
  failure : ∀ f, c.phase = .returned (.error f) → Source.program c.src = .error f ∨ c.done = some f

/-- A call that returns the program of its source is honest. -/
theorem Call.honest_returned {c : Call} {p : Program} (hp : Source.program c.src = .ok p) :
    ({ c with phase := .returned (.ok p) } : Call).Honest := by
  refine ⟨?_, by simp⟩
  rintro q (hq | hq)
  · exact absurd hq (by simp)
  · obtain rfl : p = q := Except.ok.inj (Phase.returned.inj hq)
    exact hp

/-- A call that is called off is as honest as before: the error of a call that
was called off already stays. -/
theorem Call.Honest.callOff {c : Call} (h : c.Honest) (f : Failure) : (c.callOff f).Honest := by
  refine ⟨h.program, fun g hg => ?_⟩
  rcases h.failure g hg with hrejected | hdone
  · exact .inl hrejected
  · refine .inr ?_
    show c.done.or (some f) = some g
    rw [hdone]
    rfl

variable {γ : Type} {view : γ → Cache Content.Id Program} {srcs : List Bytes} {capacity : Nat}
  {s : Shared γ}

/-- The loader remembers programs of some sources, under their ids and as many
as it has room for; and its calls are for these sources, and honest. -/
structure Sound (view : γ → Cache Content.Id Program) (srcs : List Bytes) (capacity : Nat)
    (s : Shared γ) : Prop where
  /-- What is remembered. -/
  faithful : s.loader.Faithful view srcs
  /-- One entry for each id. -/
  wellFormed : (view s.loader.cache).WellFormed
  /-- The room there is. -/
  capacity_eq : (view s.loader.cache).capacity = capacity
  /-- The calls. -/
  calls : ∀ c ∈ s.calls, c.src ∈ srcs ∧ c.Honest

theorem sound_start {store : Program.Store γ} (hlru : store.IsLru view)
    (hids : Content.TellApart store.hash srcs) (processors : Nat) (workers cacheSize : Int) :
    Sound view srcs (max 1 cacheSize.toNat) (Shared.start store processors workers cacheSize) := by
  have hview : view (Shared.start store processors workers cacheSize).loader.cache = _ :=
    hlru.new_loader processors workers cacheSize
  refine ⟨faithful_new hlru hids processors workers cacheSize, ?_, ?_,
    fun _ hc => absurd hc List.not_mem_nil⟩
  · rw [hview]
    exact Cache.wellFormed_new _
  · rw [hview]
    rfl

/-- A step of an honest call leaves an honest call, and a loader that remembers
nothing but programs of the sources. -/
theorem Sound.advance (h : Sound view srcs capacity s) {c : Call} (hsrc : c.src ∈ srcs)
    (hc : c.Honest) :
    (s.loader.advance c).1.Faithful view srcs ∧ (view (s.loader.advance c).1.cache).WellFormed ∧
      (view (s.loader.advance c).1.cache).capacity = capacity ∧
      (s.loader.advance c).2.src = c.src ∧ (s.loader.advance c).2.Honest := by
  obtain ⟨hfaithful, hwell, hcap, _⟩ := h
  rcases s.loader.advance_cases c with ⟨p, cache, _, hfind, hstep⟩ | ⟨_, _, hstep⟩ |
    ⟨p, _, hcompile, hstep⟩ | ⟨f, _, hcompile, hstep⟩ | ⟨p, hphase, hstep⟩ | ⟨r, _, hstep⟩
  · obtain ⟨hwell', hcap'⟩ := hwell.get? (hfaithful.lru.found hfind)
    rw [hstep]
    exact ⟨hfaithful.found hfind, hwell', hcap'.trans hcap, rfl,
      Call.honest_returned (hfaithful.program_eq hsrc hfind)⟩
  · rw [hstep]
    exact ⟨hfaithful, hwell, hcap, rfl, ⟨by simp, by simp⟩⟩
  · have hp := (s.loader.compile_cases c.done c.src).1 p hcompile
    rw [hstep]
    refine ⟨hfaithful, hwell, hcap, rfl, ?_, by simp⟩
    rintro q (hq | hq)
    · obtain rfl : p = q := Phase.compiled.inj hq
      exact hp
    · exact absurd hq (by simp)
  · have hf := (s.loader.compile_cases c.done c.src).2 f hcompile
    rw [hstep]
    refine ⟨hfaithful, hwell, hcap, rfl, by simp, ?_⟩
    intro g hg
    obtain rfl : f = g := Except.error.inj (Phase.returned.inj hg)
    exact hf
  · have hp := hc.program p (.inl hphase)
    have hadd := hfaithful.lru.remember c.src p
    rw [hstep]
    refine ⟨hfaithful.remember hsrc hp, ?_, ?_, rfl, Call.honest_returned hp⟩
    · rw [hadd]
      exact hwell.add _ p
    · rw [hadd]
      exact hcap
  · rw [hstep]
    exact ⟨hfaithful, hwell, hcap, rfl, hc⟩

/-- **No event breaks the invariant.** -/
theorem Sound.occur (h : Sound view srcs capacity s) {e : Event}
    (he : ∀ src, e.source? = some src → src ∈ srcs) : Sound view srcs capacity (s.occur e) := by
  cases e with
  | call src =>
      refine ⟨h.faithful, h.wellFormed, h.capacity_eq, ?_⟩
      intro c hc
      rcases List.mem_append.1 hc with hc | hc
      · exact h.calls c hc
      · obtain rfl := List.mem_singleton.1 hc
        exact ⟨he src rfl, ⟨by simp, by simp⟩⟩
  | callOff i f =>
      refine ⟨h.faithful, h.wellFormed, h.capacity_eq, ?_⟩
      intro c hc
      obtain ⟨j, hj⟩ := List.getElem?_of_mem hc
      have hj : (s.calls.modify i fun c => c.callOff f)[j]? = some c := hj
      rw [List.getElem?_modify] at hj
      obtain ⟨old, hold, hnew⟩ := Option.map_eq_some_iff.1 hj
      obtain ⟨hsrc, hhonest⟩ := h.calls old (List.mem_of_getElem? hold)
      split at hnew
      next =>
          subst hnew
          exact ⟨hsrc, hhonest.callOff f⟩
      next =>
          subst hnew
          exact ⟨hsrc, hhonest⟩
  | advance i =>
      unfold Shared.occur
      dsimp only
      split
      next c hc =>
          obtain ⟨hsrc, hhonest⟩ := h.calls c (List.mem_of_getElem? hc)
          obtain ⟨hfaithful, hwell, hcap, hown, hnext⟩ := h.advance hsrc hhonest
          refine ⟨hfaithful, hwell, hcap, ?_⟩
          intro d hd
          rcases List.mem_or_eq_of_mem_set hd with hd | rfl
          · exact h.calls d hd
          · exact ⟨hown ▸ hsrc, hnext⟩
      next => exact h

theorem Sound.after (h : Sound view srcs capacity s) (events : List Event)
    (hsrcs : ∀ src ∈ events.filterMap Event.source?, src ∈ srcs) :
    Sound view srcs capacity (s.after events) := by
  induction events generalizing s with
  | nil => exact h
  | cons e events ih =>
      have hlater : ∀ src ∈ events.filterMap Event.source?, src ∈ srcs := by
        intro src hsrc
        obtain ⟨e', he', hsrc'⟩ := List.mem_filterMap.1 hsrc
        exact hsrcs src (List.mem_filterMap.2 ⟨e', List.mem_cons_of_mem _ he', hsrc'⟩)
      refine ih (h.occur ?_) hlater
      intro src hsrc
      exact hsrcs src (List.mem_filterMap.2 ⟨e, List.mem_cons_self, hsrc⟩)

/-! ## §4. How a call goes on. -/

/-- What an event does to a call: its next step, if the event is that; else it
stays where it is. -/
theorem Call.occur {i : Nat} {c : Call} (hc : s.calls[i]? = some c) (e : Event) :
    ∃ c', (s.occur e).calls[i]? = some c' ∧
      ((e = .advance i ∧ c' = (s.loader.advance c).2) ∨
        (e ≠ .advance i ∧ c'.phase = c.phase)) := by
  obtain ⟨hi, _⟩ := List.getElem?_eq_some_iff.1 hc
  cases e with
  | call src =>
      refine ⟨c, ?_, .inr ⟨by simp, rfl⟩⟩
      show (s.calls ++ [_])[i]? = _
      rw [List.getElem?_append_left hi, hc]
  | callOff j f =>
      refine ⟨if j = i then c.callOff f else c, ?_, .inr ⟨by simp, ?_⟩⟩
      · show (s.calls.modify j _)[i]? = _
        rw [List.getElem?_modify, hc]
        rfl
      · split <;> rfl
  | advance j =>
      by_cases hj : j = i
      · subst hj
        refine ⟨_, ?_, .inl ⟨rfl, rfl⟩⟩
        unfold Shared.occur
        dsimp only
        rw [hc]
        exact List.getElem?_set_self hi
      · refine ⟨c, ?_, .inr ⟨by simpa using hj, rfl⟩⟩
        unfold Shared.occur
        dsimp only
        split
        next d hd =>
            show (s.calls.set j _)[i]? = _
            rw [List.getElem?_set_ne hj, hc]
        next => exact hc

/-- The steps that a call may have still to take. -/
def Call.left (c : Call) : Nat :=
  match c.phase with
  | .called => 3
  | .missed => 2
  | .compiled _ => 1
  | .returned _ => 0

theorem Call.left_le (c : Call) : c.left ≤ 3 := by
  unfold Call.left
  split <;> omega

theorem Call.returned_of_left {c : Call} (h : c.left = 0) : ∃ r, c.phase = .returned r := by
  unfold Call.left at h
  split at h
  next => exact absurd h (by simp)
  next => exact absurd h (by simp)
  next => exact absurd h (by simp)
  next r hr => exact ⟨r, hr⟩

theorem Call.left_advance (l : Loader γ) (c : Call) : (l.advance c).2.left ≤ c.left - 1 := by
  rcases l.advance_cases c with ⟨p, cache, hphase, _, hstep⟩ | ⟨hphase, _, hstep⟩ |
    ⟨p, hphase, _, hstep⟩ | ⟨f, hphase, _, hstep⟩ | ⟨p, hphase, hstep⟩ | ⟨r, hphase, hstep⟩
  all_goals
    rw [hstep]
    unfold Call.left
    rw [hphase]
    simp

/-- **Three steps are enough for any call.** -/
theorem Call.left_after (events : List Event) (i : Nat) :
    ∀ {s : Shared γ} {c : Call}, s.calls[i]? = some c →
      ∃ c', (s.after events).calls[i]? = some c' ∧
        c'.left ≤ c.left - events.count (.advance i) := by
  induction events with
  | nil =>
      intro s c hc
      exact ⟨c, hc, Nat.le_refl _⟩
  | cons e events ih =>
      intro s c hc
      obtain ⟨d, hd, hstep⟩ := Call.occur hc e
      obtain ⟨c', hc', hle⟩ := ih hd
      refine ⟨c', hc', ?_⟩
      rcases hstep with ⟨rfl, rfl⟩ | ⟨he, hphase⟩
      · have hone := Call.left_advance s.loader c
        rw [List.count_cons_self]
        omega
      · have hsame : d.left = c.left := by
          unfold Call.left
          rw [hphase]
        rw [List.count_cons_of_ne he]
        omega

/-- A call that has returned does not change its mind. -/
theorem Call.returned_after (events : List Event) (i : Nat) {r : Except Failure Program} :
    ∀ {s : Shared γ} {c : Call}, s.calls[i]? = some c → c.phase = .returned r →
      ∃ c', (s.after events).calls[i]? = some c' ∧ c'.phase = .returned r := by
  induction events with
  | nil =>
      intro s c hc hr
      exact ⟨c, hc, hr⟩
  | cons e events ih =>
      intro s c hc hr
      obtain ⟨d, hd, hstep⟩ := Call.occur hc e
      refine ih hd ?_
      rcases hstep with ⟨_, rfl⟩ | ⟨_, hphase⟩
      · unfold Loader.advance
        rw [hr]
        exact hr
      · rw [hphase, hr]

/-- **Only a call that returns a program touches the loader.** -/
theorem loader_occur (s : Shared γ) (e : Event) :
    (s.occur e).loader = s.loader ∨
      ∃ i c p, e = .advance i ∧ (s.occur e).calls[i]? = some c ∧ c.phase = .returned (.ok p) := by
  cases e with
  | call src => exact .inl rfl
  | callOff i f => exact .inl rfl
  | advance i =>
      cases hc : s.calls[i]? with
      | none =>
          left
          unfold Shared.occur
          dsimp only
          rw [hc]
      | some c =>
          have hloader : (s.occur (.advance i)).loader = (s.loader.advance c).1 := by
            unfold Shared.occur
            dsimp only
            rw [hc]
          obtain ⟨d, hd, hstep⟩ := Call.occur hc (.advance i)
          obtain rfl : d = (s.loader.advance c).2 := by
            rcases hstep with ⟨_, hd⟩ | ⟨hne, _⟩
            · exact hd
            · exact absurd rfl hne
          rw [hloader]
          rcases s.loader.advance_cases c with ⟨p, cache, _, _, hadvance⟩ | ⟨_, _, hadvance⟩ |
            ⟨p, _, _, hadvance⟩ | ⟨f, _, _, hadvance⟩ | ⟨p, _, hadvance⟩ | ⟨r, _, hadvance⟩
          · exact .inr ⟨i, _, p, rfl, hd, by rw [hadvance]⟩
          · exact .inl (by rw [hadvance])
          · exact .inl (by rw [hadvance])
          · exact .inl (by rw [hadvance])
          · exact .inr ⟨i, _, p, rfl, hd, by rw [hadvance]⟩
          · exact .inl (by rw [hadvance])

/-- A step of a call that fails in the end leaves the loader as it is. -/
theorem loader_of_failed {later : List Event} {i : Nat} {c : Call} {f : Failure}
    (hc : ((s.occur (.advance i)).after later).calls[i]? = some c)
    (hf : c.phase = .returned (.error f)) : (s.occur (.advance i)).loader = s.loader := by
  rcases loader_occur s (.advance i) with h | ⟨j, d, p, hij, hd, hp⟩
  · exact h
  · -- it would have returned a program then, and still
    obtain rfl : i = j := Event.advance.inj hij
    obtain ⟨c', hc', hp'⟩ := Call.returned_after later i hd hp
    rw [hc', Option.some.injEq] at hc
    rw [hc, hf] at hp'
    exact absurd hp' (by simp)

/-! ## §5. The cache is sound. -/

/-- **The cache is sound in any order of steps.**  Calls come, take their steps
and are called off in any order, on a loader that was new, with any store that
keeps what was used last.  As long as ids tell their sources apart, a call that
returns a program returns what reading, decoding and linking gives for its own
source; one that fails does so because its source is rejected, or with the
error that it was called off with.  Every entry of the cache is the id of a
source that someone called for with the program which that source has, and
there is one for each id.  No step of a call that fails touches the loader.
There are never more entries than room.  Every call has returned when it had
three steps, and one that takes its steps in a row is a load. -/
theorem shared_cache_sound {store : Program.Store γ} (hlru : store.IsLru view) (processors : Nat)
    (workers cacheSize : Int) (events : List Event)
    (hids : Content.TellApart store.hash (events.filterMap Event.source?)) :
    let start := Shared.start store processors workers cacheSize
    let s := start.after events
    (∀ c ∈ s.calls,
      (∀ p, c.phase = .returned (.ok p) → ∀ l : Loader γ, l.compile none c.src = .ok p) ∧
      ∀ f, c.phase = .returned (.error f) →
        (∀ l : Loader γ, l.compile none c.src = .error f) ∨ c.done = some f) ∧
    (∀ e ∈ (view s.loader.cache).entries, ∃ src, .call src ∈ events ∧
      e.1 = store.hash src ∧ ∀ l : Loader γ, l.compile none src = .ok e.2) ∧
    ((view s.loader.cache).entries.map Prod.fst).Nodup ∧
    (∀ (i : Nat) (c : Call) (f : Failure), s.calls[i]? = some c → c.phase = .returned (.error f) →
      ∀ before later, events = before ++ .advance i :: later →
        (start.after (before ++ [.advance i])).loader = (start.after before).loader) ∧
    ((s.loader.size : Int) ≤ max 1 cacheSize) ∧
    (∀ (before later : List Event) (i : Nat), events = before ++ later →
      i < (start.after before).calls.length → 3 ≤ later.count (.advance i) →
        ∃ c r, s.calls[i]? = some c ∧ c.phase = .returned r) ∧
    ∀ (l : Loader γ) (done : Option Failure) (src : Bytes),
      let one := l.advance ⟨src, done, .called⟩
      let two := one.1.advance one.2
      two.1.advance two.2 = ((l.load done src).loader,
        ⟨src, done, .returned (l.load done src).result⟩) := by
  intro start s
  have hsound : Sound view (events.filterMap Event.source?) (max 1 cacheSize.toNat) s :=
    (sound_start hlru hids processors workers cacheSize).after events fun _ h => h
  refine ⟨?_, ?_, hsound.wellFormed.keys, ?_, ?_, ?_, advance_load⟩
  · intro c hc
    obtain ⟨_, hhonest⟩ := hsound.calls c hc
    refine ⟨?_, ?_⟩
    · intro p hp l
      rw [compile_eq]
      exact hhonest.program p (.inr hp)
    · intro f hf
      rcases hhonest.failure f hf with hf | hf
      · exact .inl fun l => (l.compile_eq c.src).trans hf
      · exact .inr hf
  · intro e he
    obtain ⟨src, hsrc, hid, hp⟩ := hsound.faithful.entries e he
    have hstore : s.loader.store = store := start.store_after events
    rw [hstore] at hid
    obtain ⟨e', he', hsrc'⟩ := List.mem_filterMap.1 hsrc
    cases e' with
    | call src' =>
        obtain rfl : src' = src := Option.some.inj hsrc'
        exact ⟨src', he', hid, fun l => (l.compile_eq src').trans hp⟩
    | callOff i f => exact absurd hsrc' (by simp [Event.source?])
    | advance i => exact absurd hsrc' (by simp [Event.source?])
  · intro i c f hc hf before later hevents
    have hs : s = ((start.after before).occur (.advance i)).after later := by
      show start.after events = _
      rw [hevents, Shared.after_append]
      rfl
    rw [hs] at hc
    rw [Shared.after_append]
    exact loader_of_failed hc hf
  · have hroom := hsound.wellFormed.room
    have hsize : s.loader.size = (view s.loader.cache).size := hsound.faithful.lru.size_eq _
    rw [hsound.capacity_eq] at hroom
    omega
  · intro before later i hevents hi hcount
    have hs : s = (start.after before).after later := by
      show start.after events = _
      rw [hevents, Shared.after_append]
    rw [hs]
    obtain ⟨c, hc, hle⟩ := Call.left_after later i (List.getElem?_eq_getElem hi)
    have hthree := ((start.after before).calls[i]).left_le
    obtain ⟨r, hr⟩ := c.returned_of_left (by omega)
    exact ⟨c, r, hc, hr⟩

/-- Two calls that miss one source and both remember it, a call for a source of
the wrong length, one that is called off for its time after it missed, and one
that is called off and finds the source all the same; with room for one
program. -/
theorem shared_cache_sound_race :
    let dup : Bytes := [97, 98, 97, 98]
    let short : Bytes := [97, 98]
    let late : Failure := .plain "context deadline exceeded"
    let before : List Event := [.call dup, .call dup, .call short, .call dup, .advance 0,
      .advance 1, .advance 2, .advance 3, .callOff 3 late, .advance 0, .advance 0, .advance 2]
    let events : List Event := before ++ .advance 3 ::
      [.advance 1, .advance 1, .call dup, .callOff 4 (.known .cancelled), .advance 4]
    let p : Program := #[⟨.dup, 0, halt, halt, 0⟩]
    let f : Failure := .syntactic .codeLengthInvalid (-1)
    Content.TellApart Program.Store.standard.hash (events.filterMap Event.source?) ∧
      ((Shared.start .standard 2 0 0).after events).calls.map Call.phase
        = [.returned (.ok p), .returned (.ok p), .returned (.error f), .returned (.error late),
          .returned (.ok p)] ∧
      (∀ e ∈ ((Shared.start .standard 2 0 0).after events).loader.cache.entries,
        ∃ src, .call src ∈ events ∧ e.1 = Program.Store.standard.hash src ∧
          ∀ l : Loader (Cache Content.Id Program), l.compile none src = .ok e.2) ∧
      ((Shared.start .standard 2 0 0).after (before ++ [.advance 3])).loader
        = ((Shared.start .standard 2 0 0).after before).loader ∧
      ((Shared.start .standard 2 0 0).after events).loader.size ≤ 1 := by
  intro dup short late before events p f
  have hids : Content.TellApart Program.Store.standard.hash (events.filterMap Event.source?) := by
    have hne : Program.Store.standard.hash dup ≠ Program.Store.standard.hash short := by
      show Program.Store.standard.hash [97, 98, 97, 98] ≠ Program.Store.standard.hash [97, 98]
      decide +kernel
    show Content.TellApart Program.Store.standard.hash [dup, dup, short, dup, dup]
    exact Content.tellApart_of_two hne (by simp)
  have hdup : ∀ l : Loader (Cache Content.Id Program), l.compile none dup = .ok p := by
    intro l
    rw [compile_eq]
    cbv
  have hshort : ∀ l : Loader (Cache Content.Id Program), l.compile none short = .error f := by
    intro l
    rw [compile_eq]
    cbv
  have hlate : ∀ l : Loader (Cache Content.Id Program),
      l.compile (some late) dup = .error late := by
    intro l
    unfold compile link
    simp only [Decoding.decode_done]
    cbv
  have hphases : ((Shared.start .standard 2 0 0).after events).calls.map Call.phase
      = [.returned (.ok p), .returned (.ok p), .returned (.error f), .returned (.error late),
        .returned (.ok p)] := by
    simp [events, before, Shared.after, Shared.occur, Shared.start, advance, new,
      find?, remember, Call.callOff, Program.Store.standard, Cache.new, Cache.get?, Cache.add,
      Cache.others, hdup, hshort, hlate]
  have hlru : Program.Store.standard.IsLru fun c => c := Program.Store.standard_isLru
  obtain ⟨_, hentries, _, hfailed, hroom, _⟩ := shared_cache_sound hlru 2 0 0 events hids
  -- the fourth call is the one that failed
  obtain ⟨c, hc, hphase⟩ : ∃ c, ((Shared.start .standard 2 0 0).after events).calls[3]? = some c ∧
      c.phase = .returned (.error late) := by
    have hthird := congrArg (·[3]?) hphases
    simpa using hthird
  exact ⟨hids, hphases, hentries, hfailed 3 c _ hc hphase before _ rfl, by omega⟩

end Loader

end Tetraglyph
