/-
  Tetraglyph.Loader
  ─────────────────
  **LOADING PROGRAMS THROUGH A CACHE.**

  A loader turns sources into linked programs and remembers the ones used
  last, by the ids of their sources.  Loading is three steps: look the id up;
  if it is not there read, decode and link the source; remember the result.
  What cannot be loaded is not remembered, and a program found in the cache
  is given out even if the work was called off.

  Neither the ids nor the cache are made here.  A loader is handed a STORE,
  which says how a source is hashed and what can be done with a cache.
-/
import Tetraglyph.Source
import Tetraglyph.Program.Decoding
import Tetraglyph.Program.Linking
import Tetraglyph.Content.Id

namespace Tetraglyph

/-! ## §1. Stores. -/

/-- How programs are remembered: under which id, and in what cache.  The
states of the cache are those of a type `γ`. -/
structure Program.Store (γ : Type) where
  /-- The id of a source. -/
  hash : Bytes → Content.Id
  /-- A cache without programs, and with room for so many. -/
  new : Nat → γ
  /-- Looks an id up: the program under it, and the cache after the look. -/
  get? : γ → Content.Id → Option (Program × γ)
  /-- Adds a program under an id. -/
  add : γ → Content.Id → Program → γ
  /-- The number of programs. -/
  size : γ → Nat

/-! ## §2. The loader. -/

/-- A loader of programs. -/
structure Loader (γ : Type) where
  /-- How programs are remembered. -/
  store : Program.Store γ
  /-- The number of processors, which is how many workers there are unless
  asked for otherwise. -/
  processors : Nat
  /-- How many workers decode a program; less than one asks for one for each
  processor. -/
  workers : Int
  /-- The programs used last. -/
  cache : γ

namespace Loader

/-- Decodes and links codes, unless the work is done with an error. -/
def link (processors : Nat) (workers : Int) (done : Option Failure) (codes : Array Code) :
    Except Failure Program := do
  let unlinked ← Decoding.decode processors codes workers done
  Linking.link unlinked

variable {γ : Type}

/-- A loader that remembers up to `cacheSize` programs, and at least one. -/
def new (store : Program.Store γ) (processors : Nat) (workers cacheSize : Int) : Loader γ :=
  ⟨store, processors, workers, store.new (max 1 cacheSize.toNat)⟩

/-- The number of programs it remembers. -/
def size (l : Loader γ) : Nat := l.store.size l.cache

/-- Looks a source up: its program, and the cache after the look. -/
def find? (l : Loader γ) (src : Bytes) : Option (Program × γ) :=
  l.store.get? l.cache (l.store.hash src)

/-- Remembers the program of a source. -/
def remember (l : Loader γ) (src : Bytes) (p : Program) : Loader γ :=
  { l with cache := l.store.add l.cache (l.store.hash src) p }

/-- Reads, decodes and links a source, without the cache. -/
def compile (l : Loader γ) (done : Option Failure) (src : Bytes) : Except Failure Program := do
  let codes ← Source.codes src
  link l.processors l.workers done codes

/-- What came of loading a source. -/
structure Outcome (γ : Type) where
  /-- The program, or why there is none. -/
  result : Except Failure Program
  /-- Whether it came out of the cache. -/
  hit : Bool
  /-- How many workers decoded it, if it came to that. -/
  workers : Option Nat
  /-- The loader afterwards. -/
  loader : Loader γ

/-- How many workers decode a source, if it has codes at all. -/
def workersFor (l : Loader γ) (src : Bytes) : Option Nat :=
  match Source.codes src with
  | .ok codes => some (Decoding.workerCount l.processors l.workers codes.size)
  | .error _ => none

/-- Loads a source. -/
def load (l : Loader γ) (done : Option Failure) (src : Bytes) : Outcome γ :=
  match l.find? src with
  | some (p, cache) => ⟨.ok p, true, none, { l with cache }⟩
  | none =>
    match l.compile done src with
    | .ok p => ⟨.ok p, false, l.workersFor src, l.remember src p⟩
    | .error f => ⟨.error f, false, l.workersFor src, l⟩

end Loader

end Tetraglyph
