/-
  Tetraglyph.Content.Store
  ────────────────────────
  **THE STORE OF THE PROGRAM.**

  The store that the program is built with: sources are told apart by their
  BLAKE3 hashes, and programs are kept in a list, in the order of their last
  use.
-/
import Tetraglyph.Cache
import Tetraglyph.Content.Blake3
import Tetraglyph.Loader

namespace Tetraglyph

/-- The id of some data, keyed if there is a key. -/
def Content.Id.ofData (key : Option Bytes) (data : Bytes) : Content.Id := ⟨Blake3.hash key data⟩

/-- BLAKE3 hashes, and a list. -/
def Program.Store.standard : Program.Store (Cache Content.Id Program) where
  hash := Content.Id.ofData none
  new := Cache.new
  get? := Cache.get?
  add := Cache.add
  size := Cache.size

end Tetraglyph
