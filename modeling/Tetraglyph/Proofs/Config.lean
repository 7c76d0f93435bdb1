/-
  Tetraglyph.Proofs.Config
  ────────────────────────
  **CONFIGURATIONS IN LAYERS.**

  A file and the flags are LAYERS of one kind: for each value a layer asks
  for nothing, or for something that is checked and may be refused.  A layer
  over a configuration keeps the values for which it asks nothing and takes
  over the others, up to the first that is refused.  Loading is the layer of
  the file over the defaults, and the layer of the flags over that, in
  whatever formats the file and the levels are written.

      Layer        — what is asked for, value by value
      Layer.onto   — a layer over a configuration
      Granted      — what a value is behind a layer
      Says         — what the file says, and nothing if there is none
      Refuses      — a computation that fails about an argument only

  Main results

      Layer.onto_eq_ok_iff      — every value is granted, one by one
      apply_eq, applyFlags_eq   — the file and the flags are layers
      load_eq_ok_iff            — what is loaded
      load_hasBase              — a configuration that is loaded has a base there is
      load_refuses              — what loading fails with
-/
import Tetraglyph.Config
import Tetraglyph.Proofs.Program.Linking

namespace Tetraglyph

namespace Config

/-! ## §1. Layers. -/

section

variable {α : Type}

/-- The value that is asked for, or the one below if nothing is. -/
def asked (request : Option (Except Failure α)) (below : α) : Except Failure α :=
  request.getD (.ok below)

/-- What a value is behind a request for it: the one that was asked for, or
the one below. -/
def Granted (request : Option (Except Failure α)) (below v : α) : Prop :=
  match request with
  | some x => x = .ok v
  | none => v = below

theorem asked_eq_ok_iff {request : Option (Except Failure α)} {below v : α} :
    asked request below = .ok v ↔ Granted request below v := by
  cases request with
  | some x => exact Iff.rfl
  | none => exact ⟨fun h => (Except.ok.inj h).symm, fun h => congrArg _ (Eq.symm h)⟩

theorem asked_map_ok (o : Option α) (below : α) :
    asked (o.map .ok) below = .ok (o.getD below) := by
  cases o <;> rfl

theorem eq_some_of_asked {request : Option (Except Failure α)} {below : α} {e : Failure}
    (h : asked request below = .error e) : request = some (.error e) := by
  cases request with
  | some x => exact congrArg some h
  | none => exact absurd h (by simp [asked])

theorem bind_eq_error_iff {β : Type} {x : Except Failure α} {f : α → Except Failure β}
    {e : Failure} : (x >>= f) = .error e ↔ x = .error e ∨ ∃ a, x = .ok a ∧ f a = .error e := by
  cases x <;> simp [bind, Except.bind]

end

/-- What is asked for, value by value. -/
structure Layer where
  /-- The base. -/
  base : Option (Except Failure Int)
  /-- The greatest number of steps. -/
  maxSteps : Option (Except Failure UInt64)
  /-- The log level. -/
  logLevel : Option (Except Failure Level)
  /-- The number of workers. -/
  workers : Option (Except Failure Int)
  /-- Whether stacks are shown. -/
  dump : Option (Except Failure Bool)

namespace Layer

/-- A layer over a configuration. -/
def onto (l : Layer) (cfg : Config) : Except Failure Config := do
  let base ← asked l.base cfg.base
  let maxSteps ← asked l.maxSteps cfg.maxSteps
  let logLevel ← asked l.logLevel cfg.logLevel
  let workers ← asked l.workers cfg.workers
  let dump ← asked l.dump cfg.dump
  return ⟨base, maxSteps, logLevel, workers, dump⟩

/-- **Behind a layer every value is granted**, whatever the others are. -/
theorem onto_eq_ok_iff {l : Layer} {cfg c : Config} :
    l.onto cfg = .ok c ↔
      Granted l.base cfg.base c.base ∧ Granted l.maxSteps cfg.maxSteps c.maxSteps ∧
      Granted l.logLevel cfg.logLevel c.logLevel ∧ Granted l.workers cfg.workers c.workers ∧
      Granted l.dump cfg.dump c.dump := by
  unfold onto
  simp only [Linking.except_bind_ok, asked_eq_ok_iff]
  constructor
  · rintro ⟨base, hbase, steps, hsteps, level, hlevel, workers, hworkers, dump, hdump, h⟩
    obtain rfl := Except.ok.inj h
    exact ⟨hbase, hsteps, hlevel, hworkers, hdump⟩
  · rintro ⟨hbase, hsteps, hlevel, hworkers, hdump⟩
    exact ⟨_, hbase, _, hsteps, _, hlevel, _, hworkers, _, hdump, rfl⟩

/-- A layer fails with what refuses one of the values it asks for. -/
theorem onto_error {l : Layer} {cfg : Config} {e : Failure} (h : l.onto cfg = .error e) :
    l.base = some (.error e) ∨ l.maxSteps = some (.error e) ∨ l.logLevel = some (.error e) ∨
      l.workers = some (.error e) ∨ l.dump = some (.error e) := by
  unfold onto at h
  simp only [bind_eq_error_iff] at h
  rcases h with h | ⟨_, _, h | ⟨_, _, h | ⟨_, _, h | ⟨_, _, h | ⟨_, _, h⟩⟩⟩⟩⟩
  · exact .inl (eq_some_of_asked h)
  · exact .inr (.inl (eq_some_of_asked h))
  · exact .inr (.inr (.inl (eq_some_of_asked h)))
  · exact .inr (.inr (.inr (.inl (eq_some_of_asked h))))
  · exact .inr (.inr (.inr (.inr (eq_some_of_asked h))))
  · exact absurd h (by simp [pure, Except.pure])

end Layer

/-! ## §2. The file and the flags as layers. -/

section

variable {α : Type}

/-- A text asks for what is read from it, and an empty one for nothing. -/
def ofText (t : String) (read : String → Except Failure α) : Option (Except Failure α) :=
  if t.isEmpty then none else some (read t)

theorem granted_ofText {t : String} {read : String → Except Failure α} {below v : α} :
    Granted (ofText t read) below v ↔ if t = "" then v = below else read t = .ok v := by
  unfold ofText
  by_cases h : t = ""
  · rw [if_pos h, if_pos (by rw [h]; rfl)]
    exact Iff.rfl
  · rw [if_neg h, if_neg fun he => h (String.isEmpty_iff.1 he)]
    exact Iff.rfl

/-- A text that may be empty, and what is read from it, in front of the rest
of the work. -/
theorem ite_asked {β : Type} {t : String} {r : String → Except Failure α} {below : α}
    {k : α → Except Failure β} {x : Except Failure β} (hx : x = r t >>= k) :
    (if t.isEmpty then pure below >>= k else x) = asked (ofText t r) below >>= k := by
  unfold ofText
  split
  next => rfl
  next => exact hx

end

/-- The refusal of a number of workers. -/
def checkWorkers (w : Int) : Except Failure Int :=
  if w < 0 then .error (fileFailure s!"workers must not be negative, have {w}") else .ok w

/-- Reads a base. -/
def readBase (t : String) : Except Failure Int :=
  match signed? t with
  | some b => checkBase b
  | none => .error (.argumentFrom "base" (.plain s!"{Text.quote t} is not a number"))

/-- Reads a greatest number of steps. -/
def readSteps (t : String) : Except Failure UInt64 :=
  match unsigned? t with
  | some n => .ok n
  | none =>
    .error (.argumentFrom "max-steps" (.plain s!"{Text.quote t} is not a non-negative number"))

/-- Reads whether stacks are shown. -/
def readDump (t : String) : Except Failure Bool :=
  match boolean? t with
  | some b => .ok b
  | none => .error (.argumentFrom "dump" (.plain s!"{Text.quote t} is not true or false"))

/-- What a file asks for. -/
def FileSettings.layer (s : FileSettings) (formats : Formats) : Layer where
  base := s.base.map checkBase
  maxSteps := s.maxSteps.map .ok
  logLevel := ofText s.logLevel (level formats)
  workers := s.workers.map checkWorkers
  dump := s.dump.map .ok

/-- What flags ask for. -/
def flagLayer (formats : Formats) (f : Flags) : Layer where
  base := ofText f.base readBase
  maxSteps := ofText f.maxSteps readSteps
  logLevel := ofText f.logLevel (level formats)
  workers := none
  dump := ofText f.dump readDump

variable {formats : Formats}

/-- **A file without unknown keys is a layer.** -/
theorem apply_eq (cfg : Config) (path : String) {s : FileSettings} (hs : s.unknown = []) :
    cfg.apply formats path s = (s.layer formats).onto cfg := by
  unfold apply
  extract_lets withBase unlessUnknown keys
  rw [if_neg (by rw [hs]; decide)]
  obtain ⟨base?, steps?, levelText, workers?, dump?, unknown⟩ := s
  -- one value after the other, in the order in which they are checked
  refine Eq.trans (b := asked (base?.map checkBase) cfg.base >>= withBase)
    (by cases base? <;> rfl) (bind_congr fun base => ?_)
  unfold withBase
  extract_lets withLevel
  show _ = (asked (steps?.map .ok) cfg.maxSteps >>= _)
  rw [asked_map_ok]
  refine (ite_asked (t := levelText) (r := level formats) rfl).trans (bind_congr fun logLevel => ?_)
  unfold withLevel
  extract_lets withWorkers
  refine Eq.trans (b := asked (workers?.map checkWorkers) cfg.workers >>= withWorkers) ?_
    (bind_congr fun workers => ?_)
  · cases workers? with
    | none => rfl
    | some w =>
        show _ = (checkWorkers w >>= withWorkers)
        unfold checkWorkers
        dsimp only
        split <;> rfl
  · show _ = (asked (dump?.map .ok) cfg.dump >>= _)
    rw [asked_map_ok]
    rfl

/-- A file with unknown keys is refused. -/
theorem apply_unknown (cfg : Config) (path : String) {s : FileSettings} (hs : s.unknown ≠ []) :
    ∃ text, cfg.apply formats path s = .error (fileFailure text) := by
  unfold apply
  extract_lets withBase unlessUnknown keys
  rw [if_pos (by simpa using hs)]
  exact ⟨_, rfl⟩

/-- **Flags are a layer.** -/
theorem applyFlags_eq (cfg : Config) (f : Flags) :
    cfg.applyFlags formats f = (flagLayer formats f).onto cfg := by
  unfold applyFlags
  extract_lets withBase
  refine (ite_asked (t := f.base) (r := readBase) ?_).trans (bind_congr fun base => ?_)
  · unfold readBase
    cases signed? f.base <;> rfl
  unfold withBase
  extract_lets withSteps
  refine (ite_asked (t := f.maxSteps) (r := readSteps) ?_).trans (bind_congr fun steps => ?_)
  · unfold readSteps
    cases unsigned? f.maxSteps <;> rfl
  unfold withSteps
  extract_lets withLevel
  refine (ite_asked (t := f.logLevel) (r := level formats) rfl).trans
    (bind_congr fun logLevel => ?_)
  unfold withLevel
  extract_lets withDump
  refine (ite_asked (t := f.dump) (r := readDump) ?_).trans (bind_congr fun dump => rfl)
  unfold readDump
  cases boolean? f.dump <;> rfl

/-! ## §3. Single values. -/

theorem checkBase_eq_ok_iff {b c : Int} :
    checkBase b = .ok c ↔ c = b ∧ 2 ≤ b ∧ b ≤ 36 := by
  have hvalid : Base.isValid b = true ↔ 2 ≤ b ∧ b ≤ 36 := by
    unfold Base.isValid Base.ofInt?
    by_cases hb : 2 ≤ b ∧ b ≤ 36
    · simp [hb]
    · simp [hb]
  unfold checkBase
  by_cases hb : 2 ≤ b ∧ b ≤ 36
  · rw [if_pos (hvalid.2 hb)]
    exact ⟨fun h => ⟨(Except.ok.inj h).symm, hb⟩, fun h => by rw [h.1]⟩
  · rw [if_neg fun h => hb (hvalid.1 h)]
    exact ⟨fun h => absurd h (by simp), fun h => absurd h.2 hb⟩

theorem checkWorkers_eq_ok_iff {w v : Int} : checkWorkers w = .ok v ↔ v = w ∧ 0 ≤ w := by
  unfold checkWorkers
  by_cases hw : w < 0
  · rw [if_pos hw]
    exact ⟨fun h => absurd h (by simp), fun h => absurd h.2 (by omega)⟩
  · rw [if_neg hw]
    exact ⟨fun h => ⟨(Except.ok.inj h).symm, by omega⟩, fun h => by rw [h.1]⟩

theorem readBase_eq_ok_iff {t : String} {b : Int} :
    readBase t = .ok b ↔ signed? t = some b ∧ 2 ≤ b ∧ b ≤ 36 := by
  unfold readBase
  cases signed? t with
  | none => simp
  | some c =>
      dsimp only
      rw [checkBase_eq_ok_iff, Option.some.injEq]
      constructor
      · rintro ⟨rfl, hb⟩
        exact ⟨rfl, hb⟩
      · rintro ⟨rfl, hb⟩
        exact ⟨rfl, hb⟩

theorem readSteps_eq_ok_iff {t : String} {n : UInt64} :
    readSteps t = .ok n ↔ unsigned? t = some n := by
  unfold readSteps
  cases unsigned? t <;> simp

theorem readDump_eq_ok_iff {t : String} {b : Bool} : readDump t = .ok b ↔ boolean? t = some b := by
  unfold readDump
  cases boolean? t <;> simp

theorem level_eq_ok_iff {t : String} {l : Level} :
    level formats t = .ok l ↔ formats.level t = .ok l := by
  unfold level
  cases formats.level t <;> simp

/-- A value that is taken over as it is, if it passes a check. -/
theorem granted_map {α : Type} {o : Option α} {g : α → Except Failure α} {P : α → Prop}
    (hg : ∀ {a v}, g a = .ok v ↔ v = a ∧ P a) {below v : α} :
    Granted (o.map g) below v ↔ v = o.getD below ∧ ∀ a, o = some a → P a := by
  cases o with
  | none => exact ⟨fun h => ⟨h, fun a ha => absurd ha (by simp)⟩, fun h => h.1⟩
  | some a =>
      show g a = .ok v ↔ v = a ∧ _
      rw [hg]
      simp only [Option.some.injEq, forall_eq']

/-- A value that is taken over without a check. -/
theorem granted_map_ok {α : Type} {o : Option α} {below v : α} :
    Granted (o.map .ok) below v ↔ v = o.getD below := by
  cases o with
  | none => exact Iff.rfl
  | some a => exact ⟨fun h => (Except.ok.inj h).symm, fun h => congrArg _ (Eq.symm h)⟩

/-! ## §4. Loading. -/

/-- What the file says that the flags name; if they name none, nothing. -/
inductive Says (formats : Formats) (read : FileReader) (f : Flags) : FileSettings → Prop where
  /-- There is no file. -/
  | nothing (hpath : f.config = "") : Says formats read f {}
  /-- The file is there, and its settings can be read. -/
  | file {bytes : Bytes} {s : FileSettings} (hpath : f.config ≠ "")
      (hread : read f.config = .ok bytes) (hs : formats.settings bytes = .ok s) :
      Says formats read f s

/-- **The first layer** is that of the file, over the defaults. -/
theorem fromFile_eq_ok_iff {read : FileReader} {f : Flags} {cfg : Config} :
    (if f.config.isEmpty then pure default else default.applyFile formats read f.config)
        = .ok cfg ↔
      ∃ s, Says formats read f s ∧ s.unknown = [] ∧ (s.layer formats).onto default = .ok cfg := by
  by_cases hpath : f.config = ""
  · rw [if_pos (by rw [hpath]; rfl)]
    constructor
    · intro h
      exact ⟨{}, .nothing hpath, rfl, h⟩
    · rintro ⟨s, hsays, _, hover⟩
      cases hsays with
      | nothing => exact hover
      | file hne => exact absurd hpath hne
  · rw [if_neg fun he => hpath (String.isEmpty_iff.1 he)]
    unfold applyFile
    constructor
    · intro h
      split at h
      next => exact absurd h (by simp)
      next bytes hread =>
          split at h
          next => exact absurd h (by simp)
          next s hs =>
              by_cases hknown : s.unknown = []
              · rw [apply_eq default _ hknown] at h
                exact ⟨s, .file hpath hread hs, hknown, h⟩
              · obtain ⟨text, htext⟩ := apply_unknown default f.config hknown
                rw [htext] at h
                exact absurd h (by simp)
    · rintro ⟨s, hsays, hknown, hover⟩
      cases hsays with
      | nothing h => exact absurd h hpath
      | file _ hread hs =>
          rw [hread]
          dsimp only
          rw [hs]
          dsimp only
          rw [apply_eq default _ hknown, hover]

theorem load_eq (read : FileReader) (f : Flags) :
    load formats read f
      = (if f.config.isEmpty then pure default else default.applyFile formats read f.config) >>=
          fun cfg => cfg.applyFlags formats f := by
  unfold load
  split <;> rfl

/-- **What is loaded** is the layer of the flags over that of the file over
the defaults. -/
theorem load_eq_ok_iff {read : FileReader} {f : Flags} {c : Config} :
    load formats read f = .ok c ↔ ∃ s cfg, Says formats read f s ∧ s.unknown = [] ∧
      (s.layer formats).onto default = .ok cfg ∧ (flagLayer formats f).onto cfg = .ok c := by
  rw [load_eq, Linking.except_bind_ok]
  simp only [fromFile_eq_ok_iff, applyFlags_eq]
  constructor
  · rintro ⟨cfg, ⟨s, hsays, hknown, hfile⟩, hflags⟩
    exact ⟨s, cfg, hsays, hknown, hfile, hflags⟩
  · rintro ⟨s, cfg, hsays, hknown, hfile, hflags⟩
    exact ⟨cfg, ⟨s, hsays, hknown, hfile⟩, hflags⟩

/-- **A configuration that is loaded has a base there is.** -/
theorem load_hasBase {read : FileReader} {f : Flags} {c : Config}
    (h : load formats read f = .ok c) : 2 ≤ c.base ∧ c.base ≤ 36 := by
  obtain ⟨s, cfg, _, _, hfile, hflags⟩ := load_eq_ok_iff.1 h
  obtain ⟨hbase, hchecked⟩ := (granted_map checkBase_eq_ok_iff).1 (Layer.onto_eq_ok_iff.1 hfile).1
  have hgranted := granted_ofText.1 (Layer.onto_eq_ok_iff.1 hflags).1
  split at hgranted
  next =>
      rw [hgranted, hbase]
      cases hs : s.base with
      | none => exact ⟨by decide, by decide⟩
      | some b => exact hchecked b hs
  next => exact (readBase_eq_ok_iff.1 hgranted).2

/-! ## §5. What loading fails with. -/

/-- The failure is about an argument. -/
def Refusal (e : Failure) : Prop := ∃ name cause, e = .argumentFrom name cause

section

variable {α β : Type}

/-- If the computation fails, an argument is refused. -/
def Refuses (x : Except Failure α) : Prop := ∀ e, x = .error e → Refusal e

theorem refuses_ok (a : α) : Refuses (.ok a) := fun _ h => absurd h (by simp)

theorem refuses_argument (name : String) (cause : Failure) :
    Refuses (.error (.argumentFrom name cause) : Except Failure α) :=
  fun _ h => ⟨name, cause, (Except.error.inj h).symm⟩

theorem refusal_of_map {o : Option β} {g : β → Except Failure α} (hg : ∀ b, Refuses (g b))
    {e : Failure} (h : o.map g = some (.error e)) : Refusal e := by
  obtain ⟨b, _, hb⟩ := Option.map_eq_some_iff.1 h
  exact hg b e hb

theorem refusal_of_text {t : String} {r : String → Except Failure α} (hr : ∀ t, Refuses (r t))
    {e : Failure} (h : ofText t r = some (.error e)) : Refusal e := by
  unfold ofText at h
  split at h
  next => exact absurd h (by simp)
  next => exact hr t e (Option.some.inj h)

end

theorem checkBase_refuses (b : Int) : Refuses (checkBase b) := by
  unfold checkBase
  split
  next => exact refuses_ok b
  next => exact refuses_argument _ _

theorem checkWorkers_refuses (w : Int) : Refuses (checkWorkers w) := by
  unfold checkWorkers
  split
  next => exact refuses_argument _ _
  next => exact refuses_ok w

theorem level_refuses (t : String) : Refuses (level formats t) := by
  unfold level
  split
  next l _ => exact refuses_ok l
  next => exact refuses_argument _ _

theorem readBase_refuses (t : String) : Refuses (readBase t) := by
  unfold readBase
  split
  next b _ => exact checkBase_refuses b
  next => exact refuses_argument _ _

theorem readSteps_refuses (t : String) : Refuses (readSteps t) := by
  unfold readSteps
  split
  next n _ => exact refuses_ok n
  next => exact refuses_argument _ _

theorem readDump_refuses (t : String) : Refuses (readDump t) := by
  unfold readDump
  split
  next b _ => exact refuses_ok b
  next => exact refuses_argument _ _

theorem fileLayer_refuses (s : FileSettings) (cfg : Config) :
    Refuses ((s.layer formats).onto cfg) := by
  intro e h
  rcases Layer.onto_error h with h | h | h | h | h
  · exact refusal_of_map checkBase_refuses h
  · exact refusal_of_map refuses_ok h
  · exact refusal_of_text level_refuses h
  · exact refusal_of_map checkWorkers_refuses h
  · exact refusal_of_map refuses_ok h

theorem flagLayer_refuses (f : Flags) (cfg : Config) :
    Refuses ((flagLayer formats f).onto cfg) := by
  intro e h
  rcases Layer.onto_error h with h | h | h | h | h
  · exact refusal_of_text readBase_refuses h
  · exact refusal_of_text readSteps_refuses h
  · exact refusal_of_text level_refuses h
  · exact absurd h (by simp [flagLayer])
  · exact refusal_of_text readDump_refuses h

theorem applyFile_refuses (cfg : Config) (read : FileReader) (path : String) :
    Refuses (cfg.applyFile formats read path) := by
  unfold applyFile
  split
  next => exact refuses_argument _ _
  next =>
      split
      next => exact refuses_argument _ _
      next s _ =>
          by_cases hknown : s.unknown = []
          · rw [apply_eq cfg path hknown]
            exact fileLayer_refuses s cfg
          · obtain ⟨text, htext⟩ := apply_unknown cfg path hknown
            rw [htext]
            exact refuses_argument _ _

/-- **Loading fails with the refusal of an argument**, if it fails. -/
theorem load_refuses (read : FileReader) (f : Flags) : Refuses (load formats read f) := by
  intro e h
  rw [load_eq, bind_eq_error_iff] at h
  rcases h with h | ⟨cfg, _, h⟩
  · split at h
    next => exact absurd h (by simp [pure, Except.pure])
    next => exact applyFile_refuses default read f.config e h
  · rw [applyFlags_eq] at h
    exact flagLayer_refuses f cfg e h

end Config

end Tetraglyph
