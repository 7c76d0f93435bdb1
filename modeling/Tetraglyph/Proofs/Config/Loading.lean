/-
  Tetraglyph.Proofs.Config.Loading
  ────────────────────────────────
  **WHICH CONFIGURATIONS CAN BE LOADED.**

  A flag is a text, and what it may be is said here without a reader: some
  digits and the number they denote, with a sign in front of them or not, or
  one of a few words.  A file and flags are SOUND if each value in them is one
  there can be.  What can be loaded is exactly a sound file under sound flags:
  a value that a flag overrides is no exception.  And what is loaded is made
  up value by value, from the topmost layer that says something about it.

  The readers of files and of log levels may be any: one refuses some bytes
  and makes settings of the others, and the other refuses some texts and makes
  levels of the others.

      Denotes              — digits and their number
      Signed               — the same with a sign or none
      FileSettings.Sound   — a file in which every value can be
      FlagsSound           — flags in which every value can be
      Layered              — a configuration, from flags, file and defaults

  Main results

      signed?_eq_some_iff, unsigned?_eq_some_iff, boolean?_eq_some_iff
                        — the readers read exactly these texts
      fileLayer_iff     — which files can be put over a configuration
      flagLayer_iff     — which flags can
      layered_of_onto   — where each value comes from
      load_layers       — what is loaded, and when nothing is
-/
import Mathlib.Data.Nat.Digits.Defs
import Tetraglyph.Proofs.Config
import Tetraglyph.Proofs.Command.Programs
import Tetraglyph.Toml.Settings

namespace Tetraglyph

namespace Config

/-! ## §1. Texts of numbers and truth values. -/

/-- Some decimal digits, and the number that they denote. -/
structure Denotes (cs : List Char) (n : Nat) : Prop where
  /-- There is a digit. -/
  ne_nil : cs ≠ []
  /-- There is nothing but digits. -/
  digits : ∀ c ∈ cs, c.isDigit = true
  /-- Each digit counts ten times as much as the one behind it. -/
  value : n = Nat.ofDigits 10 (cs.reverse.map fun c => c.toNat - 48)

/-- Digits with a sign or none, and the number that they denote. -/
inductive Signed : List Char → Int → Prop where
  /-- There is no sign. -/
  | plain {cs : List Char} {n : Nat} (h : Denotes cs n) : Signed cs n
  /-- A plus sign changes nothing. -/
  | plus {cs : List Char} {n : Nat} (h : Denotes cs n) : Signed ('+' :: cs) n
  /-- A minus sign makes the number negative. -/
  | minus {cs : List Char} {n : Nat} (h : Denotes cs n) : Signed ('-' :: cs) (-n)

/-- The words for true. -/
def truths : List String := ["1", "t", "T", "TRUE", "true", "True"]

/-- The words for false. -/
def falsehoods : List String := ["0", "f", "F", "FALSE", "false", "False"]

theorem foldl_eq_ofDigits (cs : List Char) :
    cs.foldl (fun n c => 10 * n + (c.toNat - 48)) 0
      = Nat.ofDigits 10 (cs.reverse.map fun c => c.toNat - 48) := by
  rw [Nat.ofDigits_eq_foldr, List.foldr_map, List.foldr_reverse]
  congr 1
  funext n c
  exact Nat.add_comm _ _

theorem digits?_eq_some_iff {cs : List Char} {n : Nat} : digits? cs = some n ↔ Denotes cs n := by
  unfold digits?
  rw [foldl_eq_ofDigits]
  by_cases h : cs ≠ [] ∧ ∀ c ∈ cs, c.isDigit = true
  · rw [if_pos (by simpa using h)]
    exact ⟨fun hn => ⟨h.1, h.2, (Option.some.inj hn).symm⟩, fun hn => by rw [hn.value]⟩
  · rw [if_neg fun hc => h (by simpa using hc)]
    exact ⟨fun hn => absurd hn (by simp), fun hn => absurd ⟨hn.ne_nil, hn.digits⟩ h⟩

/-- Digits do not begin with a sign. -/
theorem Denotes.head_isDigit {c : Char} {cs : List Char} {n : Nat} (h : Denotes (c :: cs) n) :
    c.isDigit = true := h.digits c List.mem_cons_self

theorem signed_minus_iff {cs : List Char} {i : Int} :
    Signed ('-' :: cs) i ↔ ∃ n, Denotes cs n ∧ i = -(n : Int) := by
  constructor
  · intro h
    cases h with
    | plain h => exact absurd h.head_isDigit (by decide)
    | minus h => exact ⟨_, h, rfl⟩
  · rintro ⟨n, h, rfl⟩
    exact .minus h

theorem signed_plus_iff {cs : List Char} {i : Int} :
    Signed ('+' :: cs) i ↔ ∃ n, Denotes cs n ∧ i = (n : Int) := by
  constructor
  · intro h
    cases h with
    | plain h => exact absurd h.head_isDigit (by decide)
    | plus h => exact ⟨_, h, rfl⟩
  · rintro ⟨n, h, rfl⟩
    exact .plus h

theorem signed_plain_iff {cs : List Char} {i : Int} (hminus : ∀ ds, cs ≠ '-' :: ds)
    (hplus : ∀ ds, cs ≠ '+' :: ds) : Signed cs i ↔ ∃ n, Denotes cs n ∧ i = (n : Int) := by
  constructor
  · intro h
    cases h with
    | plain h => exact ⟨_, h, rfl⟩
    | plus => exact absurd rfl (hplus _)
    | minus => exact absurd rfl (hminus _)
  · rintro ⟨n, h, rfl⟩
    exact .plain h

/-- **A signed number of 64 bits is read from its digits.** -/
theorem signed?_eq_some_iff {t : String} {i : Int} :
    signed? t = some i ↔ Signed t.toList i ∧ -2 ^ 63 ≤ i ∧ i < 2 ^ 63 := by
  have hread : ∀ {cs : List Char} {f : Int → Int},
      ((do let n ← digits? cs; pure (n : Int)) : Option Int).map f = some i ↔
        ∃ n : Nat, Denotes cs n ∧ i = f n := by
    intro cs f
    constructor
    · intro h
      obtain ⟨_, hj, rfl⟩ := Option.map_eq_some_iff.1 h
      obtain ⟨n, hn, hj⟩ := Option.bind_eq_some_iff.1 hj
      exact ⟨n, digits?_eq_some_iff.1 hn, by rw [Option.some.inj hj]⟩
    · rintro ⟨n, hn, rfl⟩
      rw [digits?_eq_some_iff.2 hn]
      rfl
  unfold signed?
  extract_lets n
  have hn : n = some i ↔ Signed t.toList i := by
    unfold n
    split
    next cs hcs => rw [hcs, signed_minus_iff, hread]
    next cs hcs => rw [hcs, signed_plus_iff, hread]
    next hminus hplus =>
        rw [signed_plain_iff hminus hplus, hread]
  rw [← hn]
  cases n with
  | none => simp
  | some j =>
      dsimp only
      split
      next h =>
          rw [Option.some.injEq]
          constructor
          · rintro rfl
            exact ⟨rfl, h⟩
          · exact fun h => h.1
      next h =>
          constructor
          · intro hi
            exact absurd hi (by simp)
          · rintro ⟨hj, hi⟩
            rw [Option.some.inj hj] at h
            exact absurd hi h

/-- **An unsigned number of 64 bits is read from its digits.** -/
theorem unsigned?_eq_some_iff {t : String} {w : UInt64} :
    unsigned? t = some w ↔ Denotes t.toList w.toNat := by
  rw [← digits?_eq_some_iff]
  unfold unsigned?
  cases digits? t.toList with
  | none => simp
  | some n =>
      have hw := w.toNat_lt
      dsimp only
      rw [Option.some.injEq]
      split
      next h =>
          rw [Option.some.injEq]
          constructor
          · rintro rfl
            rw [UInt64.toNat_ofNat_of_lt' h]
          · rintro rfl
            exact UInt64.ofNat_toNat
      next h =>
          constructor
          · intro hn
            exact absurd hn (by simp)
          · intro hn
            omega

/-- **A truth value is read from one of its words.** -/
theorem boolean?_eq_some_iff {t : String} {b : Bool} :
    boolean? t = some b ↔ (t ∈ truths ∧ b = true) ∨ (t ∈ falsehoods ∧ b = false) := by
  have hapart : ∀ t ∈ falsehoods, t ∉ truths := by decide
  show (if truths.contains t then some true
    else if falsehoods.contains t then some false else none) = some b ↔ _
  by_cases htrue : t ∈ truths
  · have hnot : t ∉ falsehoods := fun h => hapart t h htrue
    rw [if_pos (List.contains_iff_mem.2 htrue)]
    simp [htrue, hnot, eq_comm]
  · rw [if_neg fun h => htrue (List.contains_iff_mem.1 h)]
    by_cases hfalse : t ∈ falsehoods
    · rw [if_pos (List.contains_iff_mem.2 hfalse)]
      simp [htrue, hfalse, eq_comm]
    · rw [if_neg fun h => hfalse (List.contains_iff_mem.1 h)]
      simp [htrue, hfalse]

/-! ## §2. Sound files and flags. -/

variable {formats : Formats}

section

variable {α : Type}

theorem exists_granted_map {o : Option α} {g : α → Except Failure α} {P : α → Prop}
    (hg : ∀ {a v}, g a = .ok v ↔ v = a ∧ P a) {below : α} :
    (∃ v, Granted (o.map g) below v) ↔ ∀ a, o = some a → P a := by
  simp only [granted_map hg, exists_eq_left]

theorem exists_granted_ofText {t : String} {r : String → Except Failure α} {below : α} :
    (∃ v, Granted (ofText t r) below v) ↔ (t ≠ "" → ∃ v, r t = .ok v) := by
  simp only [granted_ofText]
  by_cases h : t = ""
  · simp [h]
  · simp [h]

end

/-- A layer can be put over a configuration if each of its values can. -/
theorem Layer.exists_onto_iff {l : Layer} {cfg : Config} :
    (∃ c, l.onto cfg = .ok c) ↔
      (∃ v, Granted l.base cfg.base v) ∧ (∃ v, Granted l.maxSteps cfg.maxSteps v) ∧
      (∃ v, Granted l.logLevel cfg.logLevel v) ∧ (∃ v, Granted l.workers cfg.workers v) ∧
      ∃ v, Granted l.dump cfg.dump v := by
  simp only [onto_eq_ok_iff]
  constructor
  · rintro ⟨c, hbase, hsteps, hlevel, hworkers, hdump⟩
    exact ⟨⟨_, hbase⟩, ⟨_, hsteps⟩, ⟨_, hlevel⟩, ⟨_, hworkers⟩, ⟨_, hdump⟩⟩
  · rintro ⟨⟨b, hbase⟩, ⟨n, hsteps⟩, ⟨l, hlevel⟩, ⟨w, hworkers⟩, ⟨d, hdump⟩⟩
    exact ⟨⟨b, n, l, w, d⟩, hbase, hsteps, hlevel, hworkers, hdump⟩

/-- A file with known keys only, in which every value can be. -/
structure FileSettings.Sound (formats : Formats) (s : FileSettings) : Prop where
  /-- Every key means something. -/
  known : s.unknown = []
  /-- The base is one there is. -/
  base : ∀ b, s.base = some b → 2 ≤ b ∧ b ≤ 36
  /-- The text of the log level is that of one. -/
  logLevel : s.logLevel ≠ "" → ∃ l, formats.level s.logLevel = .ok l
  /-- The number of workers is not negative. -/
  workers : ∀ w, s.workers = some w → 0 ≤ w

/-- **Which files can be put over a configuration.** -/
theorem fileLayer_iff {s : FileSettings} {cfg : Config} :
    s.Sound formats ↔ s.unknown = [] ∧ ∃ c, (s.layer formats).onto cfg = .ok c := by
  have hfree : ∀ {α : Type} {o : Option α} {below : α}, ∃ v, Granted (o.map .ok) below v :=
    ⟨_, granted_map_ok.2 rfl⟩
  have hover : (∃ c, (s.layer formats).onto cfg = .ok c) ↔
      (∀ b, s.base = some b → 2 ≤ b ∧ b ≤ 36) ∧
      (s.logLevel ≠ "" → ∃ l, formats.level s.logLevel = .ok l) ∧
      ∀ w, s.workers = some w → 0 ≤ w := by
    simp only [Layer.exists_onto_iff, FileSettings.layer, exists_granted_map checkBase_eq_ok_iff,
      exists_granted_map checkWorkers_eq_ok_iff, exists_granted_ofText, level_eq_ok_iff, hfree,
      true_and, and_true]
  rw [hover]
  constructor
  · exact fun h => ⟨h.known, h.base, h.logLevel, h.workers⟩
  · rintro ⟨hknown, hbase, hlevel, hworkers⟩
    exact ⟨hknown, hbase, hlevel, hworkers⟩

/-- Flags in which every value can be; an empty text is none. -/
structure FlagsSound (formats : Formats) (f : Flags) : Prop where
  /-- The base is a number, and one there is. -/
  base : f.base ≠ "" → ∃ b, Signed f.base.toList b ∧ 2 ≤ b ∧ b ≤ 36
  /-- The greatest number of steps is digits for a number of 64 bits. -/
  maxSteps : f.maxSteps ≠ "" → ∃ n, Denotes f.maxSteps.toList n ∧ n < 2 ^ 64
  /-- The text of the log level is that of one. -/
  logLevel : f.logLevel ≠ "" → ∃ l, formats.level f.logLevel = .ok l
  /-- Whether stacks are shown is a word for true or for false. -/
  dump : f.dump ≠ "" → f.dump ∈ truths ∨ f.dump ∈ falsehoods

/-- A base there is fits into 64 bits. -/
theorem readBase_iff {t : String} {b : Int} :
    readBase t = .ok b ↔ Signed t.toList b ∧ 2 ≤ b ∧ b ≤ 36 := by
  rw [readBase_eq_ok_iff, signed?_eq_some_iff]
  constructor
  · rintro ⟨⟨h, _⟩, hb⟩
    exact ⟨h, hb⟩
  · rintro ⟨h, hb⟩
    exact ⟨⟨h, by omega, by omega⟩, hb⟩

theorem exists_readSteps_iff {t : String} :
    (∃ w, readSteps t = .ok w) ↔ ∃ n, Denotes t.toList n ∧ n < 2 ^ 64 := by
  simp only [readSteps_eq_ok_iff, unsigned?_eq_some_iff]
  constructor
  · rintro ⟨w, h⟩
    exact ⟨_, h, w.toNat_lt⟩
  · rintro ⟨n, h, hn⟩
    refine ⟨UInt64.ofNat n, ?_⟩
    rw [UInt64.toNat_ofNat_of_lt' hn]
    exact h

theorem exists_readDump_iff {t : String} :
    (∃ b, readDump t = .ok b) ↔ t ∈ truths ∨ t ∈ falsehoods := by
  simp only [readDump_eq_ok_iff, boolean?_eq_some_iff]
  constructor
  · rintro ⟨b, ⟨h, _⟩ | ⟨h, _⟩⟩
    · exact .inl h
    · exact .inr h
  · rintro (h | h)
    · exact ⟨true, .inl ⟨h, rfl⟩⟩
    · exact ⟨false, .inr ⟨h, rfl⟩⟩

/-- **Which flags can be put over a configuration.** -/
theorem flagLayer_iff {f : Flags} {cfg : Config} :
    FlagsSound formats f ↔ ∃ c, (flagLayer formats f).onto cfg = .ok c := by
  have hfree : ∃ v, Granted none cfg.workers v := ⟨_, rfl⟩
  have hover : (∃ c, (flagLayer formats f).onto cfg = .ok c) ↔
      (f.base ≠ "" → ∃ b, Signed f.base.toList b ∧ 2 ≤ b ∧ b ≤ 36) ∧
      (f.maxSteps ≠ "" → ∃ n, Denotes f.maxSteps.toList n ∧ n < 2 ^ 64) ∧
      (f.logLevel ≠ "" → ∃ l, formats.level f.logLevel = .ok l) ∧
      (f.dump ≠ "" → f.dump ∈ truths ∨ f.dump ∈ falsehoods) := by
    simp only [Layer.exists_onto_iff, flagLayer, exists_granted_ofText, readBase_iff,
      exists_readSteps_iff, level_eq_ok_iff, exists_readDump_iff, hfree, true_and]
  rw [hover]
  constructor
  · exact fun h => ⟨h.base, h.maxSteps, h.logLevel, h.dump⟩
  · rintro ⟨hbase, hsteps, hlevel, hdump⟩
    exact ⟨hbase, hsteps, hlevel, hdump⟩

/-! ## §3. What is loaded. -/

/-- A configuration in which each value comes from the flags if they have it,
else from the file if it has it, and else from the defaults. -/
structure Layered (formats : Formats) (f : Flags) (s : FileSettings) (c : Config) : Prop where
  /-- The base. -/
  base : if f.base = "" then c.base = s.base.getD default.base else Signed f.base.toList c.base
  /-- The greatest number of steps. -/
  maxSteps : if f.maxSteps = "" then c.maxSteps = s.maxSteps.getD default.maxSteps
    else Denotes f.maxSteps.toList c.maxSteps.toNat
  /-- The log level; in the file, too, an empty text is none. -/
  logLevel : if f.logLevel = "" then
      if s.logLevel = "" then c.logLevel = default.logLevel
      else formats.level s.logLevel = .ok c.logLevel
    else formats.level f.logLevel = .ok c.logLevel
  /-- The number of workers, for which there is no flag. -/
  workers : c.workers = s.workers.getD default.workers
  /-- Whether stacks are shown. -/
  dump : if f.dump = "" then c.dump = s.dump.getD default.dump
    else (f.dump ∈ truths ∧ c.dump = true) ∨ (f.dump ∈ falsehoods ∧ c.dump = false)

/-- A text over a value that is known. -/
theorem ite_of_granted {α : Type} {t : String} {r : String → Except Failure α} {below v : α}
    {P Q : Prop} (h : Granted (ofText t r) below v) (hbelow : v = below → P)
    (hread : r t = .ok v → Q) : if t = "" then P else Q := by
  rw [granted_ofText] at h
  split at h
  next ht =>
      rw [if_pos ht]
      exact hbelow h
  next ht =>
      rw [if_neg ht]
      exact hread h

/-- **One layer over the other.** -/
theorem layered_of_onto {f : Flags} {s : FileSettings} {cfg c : Config}
    (hfile : (s.layer formats).onto default = .ok cfg)
    (hflags : (flagLayer formats f).onto cfg = .ok c) : Layered formats f s c := by
  obtain ⟨hbase, hsteps, hlevel, hworkers, hdump⟩ := Layer.onto_eq_ok_iff.1 hfile
  obtain ⟨hbase', hsteps', hlevel', hworkers', hdump'⟩ := Layer.onto_eq_ok_iff.1 hflags
  constructor
  case base =>
      refine ite_of_granted hbase' (fun h => ?_) fun h => (readBase_iff.1 h).1
      exact h.trans ((granted_map checkBase_eq_ok_iff).1 hbase).1
  case maxSteps =>
      refine ite_of_granted hsteps' (fun h => ?_) fun h =>
        unsigned?_eq_some_iff.1 (readSteps_eq_ok_iff.1 h)
      exact h.trans (granted_map_ok.1 hsteps)
  case logLevel =>
      refine ite_of_granted hlevel' (fun h => ?_) level_eq_ok_iff.1
      rw [h]
      exact ite_of_granted hlevel id level_eq_ok_iff.1
  case workers =>
      -- no flag speaks of the workers
      have hsame : c.workers = cfg.workers := hworkers'
      exact hsame.trans ((granted_map checkWorkers_eq_ok_iff).1 hworkers).1
  case dump =>
      refine ite_of_granted hdump' (fun h => ?_) fun h =>
        boolean?_eq_some_iff.1 (readDump_eq_ok_iff.1 h)
      exact h.trans (granted_map_ok.1 hdump)

/-- The number of workers that is loaded is not negative. -/
theorem Layered.workers_nonneg {f : Flags} {s : FileSettings} {c : Config}
    (h : Layered formats f s c) (hs : s.Sound formats) : 0 ≤ c.workers := by
  rw [h.workers]
  cases hw : s.workers with
  | none => decide
  | some w => exact hs.workers w hw

/-- **Something is loaded** for sound flags, and a sound file if they name
one. -/
theorem exists_load_iff {read : FileReader} {f : Flags} :
    (∃ c, load formats read f = .ok c) ↔
      (∃ s, Says formats read f s ∧ s.Sound formats) ∧ FlagsSound formats f := by
  simp only [load_eq_ok_iff]
  constructor
  · rintro ⟨c, s, cfg, hsays, hknown, hfile, hflags⟩
    exact ⟨⟨s, hsays, fileLayer_iff.2 ⟨hknown, cfg, hfile⟩⟩, flagLayer_iff.2 ⟨c, hflags⟩⟩
  · rintro ⟨⟨s, hsays, hs⟩, hf⟩
    obtain ⟨hknown, cfg, hfile⟩ := fileLayer_iff.1 hs
    obtain ⟨c, hflags⟩ := flagLayer_iff.1 hf
    exact ⟨c, s, cfg, hsays, hknown, hfile, hflags⟩

/-- A file that says nothing is sound, so only one that is named can fail. -/
theorem exists_says_iff {read : FileReader} {f : Flags} {P : FileSettings → Prop} (hempty : P {}) :
    (∃ s, Says formats read f s ∧ P s) ↔ (f.config ≠ "" → ∃ file s, read f.config = .ok file ∧
      formats.settings file = .ok s ∧ P s) := by
  constructor
  · rintro ⟨s, hsays, hs⟩ hne
    cases hsays with
    | nothing hpath => exact absurd hpath hne
    | file _ hread hfile => exact ⟨_, s, hread, hfile, hs⟩
  · intro h
    by_cases hpath : f.config = ""
    · exact ⟨{}, .nothing hpath, hempty⟩
    · obtain ⟨file, s, hread, hfile, hs⟩ := h hpath
      exact ⟨s, .file hpath hread hfile, hs⟩

theorem FileSettings.sound_empty : FileSettings.Sound formats {} where
  known := rfl
  base _ h := absurd h (by simp)
  logLevel h := absurd rfl h
  workers _ h := absurd h (by simp)

/-- **Loading a configuration**, with any readers of files and of log levels.

  (a) What it fails with is the refusal of an argument.

  (b) It succeeds exactly if the flags are sound and the file, if they name
  one, can be read, is made of settings and is sound.  Whether flags override
  a value of the file does not matter for that.

  (c) Each value then comes from the topmost layer that has it.  The base is
  one there is and the number of workers is not negative, so that machines
  can be made and stacks be shown. -/
theorem load_layers (formats : Formats) (read : FileReader) (f : Flags) :
    (∀ e, load formats read f = .error e → ∃ name cause, e = .argumentFrom name cause) ∧
    ((∃ c, load formats read f = .ok c) ↔
      (f.config ≠ "" → ∃ file s, read f.config = .ok file ∧
        formats.settings file = .ok s ∧ s.Sound formats) ∧
      FlagsSound formats f) ∧
    ∀ c, load formats read f = .ok c →
      (∃ s, Says formats read f s ∧ Layered formats f s c) ∧
      2 ≤ c.base ∧ c.base ≤ 36 ∧ 0 ≤ c.workers ∧
      (∀ p input output, ∃ m, Machine.new p c.base input output = .ok m) ∧
      ∀ stack : Stack, ∃ texts, stack.texts c.base = .ok texts := by
  refine ⟨load_refuses read f, ?_, ?_⟩
  · rw [exists_load_iff, exists_says_iff FileSettings.sound_empty]
  · intro c hc
    have hbase := load_hasBase hc
    obtain ⟨s, cfg, hsays, hknown, hfile, hflags⟩ := load_eq_ok_iff.1 hc
    have hs : s.Sound formats := fileLayer_iff.2 ⟨hknown, cfg, hfile⟩
    have hlayered := layered_of_onto hfile hflags
    exact ⟨⟨s, hsays, hlayered⟩, hbase.1, hbase.2, hlayered.workers_nonneg hs,
      fun p input output => Command.new_ok hbase p input output, Command.texts_ok hbase⟩

/-- A flag for the base over a file in TOML with another one, and with a
number of workers. -/
theorem load_layers_overridden :
    let formats := Formats.standard
    let read : FileReader := fun path =>
      if path = "run.toml" then .ok (Bytes.ofText "base = 16\nworkers = 3\n")
      else .error (FileError.missing.toFailure path)
    let f : Flags := { config := "run.toml", base := "+2", dump := "t" }
    let c : Config := ⟨2, 0, .warn, 3, true⟩
    load formats read f = .ok c ∧ FlagsSound formats f ∧
      (∃ s, Says formats read f s ∧ Layered formats f s c) ∧
      ∀ stack : Stack, ∃ texts, stack.texts c.base = .ok texts := by
  intro formats read f c
  have hload : load formats read f = .ok c := by decide +kernel
  obtain ⟨_, hsound, hloaded⟩ := load_layers formats read f
  obtain ⟨hlayered, _, _, _, _, hshown⟩ := hloaded c hload
  exact ⟨hload, (hsound.1 ⟨c, hload⟩).2, hlayered, hshown⟩

/-- A base that is none is refused in the file, also under a flag. -/
example :
    load Formats.standard (fun _ => .ok (Bytes.ofText "base = 37\n"))
        { config := "run.toml", base := "2" }
      = .error (.argumentFrom "base"
          (.plain "37 is not supported, it must be between 2 and 36")) := by
  decide +kernel

end Config

end Tetraglyph
