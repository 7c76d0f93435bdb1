/-
  Tetraglyph.Content.Blake3
  ─────────────────────────
  **THE BLAKE3 HASH.**

  The input is cut into chunks of 1024 bytes, a chunk into blocks of 64.  The
  blocks of a chunk are compressed one after another; chunks are joined in a
  binary tree whose left subtree is always a full one, as large as it can be.
  Every part of the tree is first a NODE, a compression not yet carried out,
  because the last one of all is carried out with one more flag.

  The hash may be keyed: the key takes the place of the initial state.
-/
import Tetraglyph.Text.Utf8

namespace Tetraglyph.Content.Blake3

/-! ## §1. The compression function. -/

/-- Eight words: a key or a chaining value. -/
abbrev Chain := Vector UInt32 8

/-- Sixteen words: a block of a message, or the state of a compression. -/
abbrev Block := Vector UInt32 16

/-- The initial state. -/
def initial : Chain :=
  #v[0x6A09E667, 0xBB67AE85, 0x3C6EF372, 0xA54FF53A, 0x510E527F, 0x9B05688C, 0x1F83D9AB, 0x5BE0CD19]

/-- The flag of the first block of a chunk. -/
def chunkStart : UInt32 := 1

/-- The flag of the last block of a chunk. -/
def chunkEnd : UInt32 := 2

/-- The flag of an inner node of the tree. -/
def inner : UInt32 := 4

/-- The flag of the last compression of all. -/
def root : UInt32 := 8

/-- The flag of a keyed hash. -/
def keyed : UInt32 := 16

/-- Rotation to the right. -/
def rotr (x : UInt32) (n : UInt32) : UInt32 := (x >>> n) ||| (x <<< (32 - n))

/-- Mixes two message words into four words of the state. -/
def quarter (v : Block) (a b c d : Fin 16) (x y : UInt32) : Block :=
  let v := v.set a (v[a] + v[b] + x)
  let v := v.set d (rotr (v[d] ^^^ v[a]) 16)
  let v := v.set c (v[c] + v[d])
  let v := v.set b (rotr (v[b] ^^^ v[c]) 12)
  let v := v.set a (v[a] + v[b] + y)
  let v := v.set d (rotr (v[d] ^^^ v[a]) 8)
  let v := v.set c (v[c] + v[d])
  v.set b (rotr (v[b] ^^^ v[c]) 7)

/-- One round: the columns of the state, then its diagonals. -/
def round (v m : Block) : Block :=
  let v := quarter v 0 4 8 12 m[0] m[1]
  let v := quarter v 1 5 9 13 m[2] m[3]
  let v := quarter v 2 6 10 14 m[4] m[5]
  let v := quarter v 3 7 11 15 m[6] m[7]
  let v := quarter v 0 5 10 15 m[8] m[9]
  let v := quarter v 1 6 11 12 m[10] m[11]
  let v := quarter v 2 7 8 13 m[12] m[13]
  quarter v 3 4 9 14 m[14] m[15]

/-- The order of the message words in the next round. -/
def permute (m : Block) : Block :=
  #v[m[2], m[6], m[3], m[10], m[7], m[0], m[4], m[13], m[1], m[11], m[12], m[5], m[9], m[14], m[15],
    m[8]]

/-- A number of rounds, permuting the message after each. -/
def rounds : Nat → Block → Block → Block
  | 0, v, _ => v
  | n + 1, v, m => rounds n (round v m) (permute m)

/-- A compression that is not carried out yet. -/
structure Node where
  /-- The chaining value it starts from. -/
  chain : Chain
  /-- The message. -/
  block : Block
  /-- The number of the chunk; 0 for inner nodes. -/
  counter : UInt64
  /-- How many bytes of the block count. -/
  length : UInt32
  /-- The flags. -/
  flags : UInt32

/-- Carries out a compression in seven rounds. -/
def Node.compress (n : Node) : Chain :=
  let h := n.chain
  let v := rounds 7
    #v[h[0], h[1], h[2], h[3], h[4], h[5], h[6], h[7], initial[0], initial[1], initial[2], initial[3],
      n.counter.toUInt32, (n.counter >>> 32).toUInt32, n.length, n.flags] n.block
  #v[v[0] ^^^ v[8], v[1] ^^^ v[9], v[2] ^^^ v[10], v[3] ^^^ v[11], v[4] ^^^ v[12], v[5] ^^^ v[13],
    v[6] ^^^ v[14], v[7] ^^^ v[15]]

/-! ## §2. Chunks and the tree. -/

/-- The word at a place of a byte string, the least significant byte
first; bytes past the end are 0. -/
def wordAt (bs : Array UInt8) (i : Nat) : UInt32 :=
  let byte (k : Nat) : UInt32 := (bs.getD (4 * i + k) 0).toUInt32
  byte 0 ||| byte 1 <<< 8 ||| byte 2 <<< 16 ||| byte 3 <<< 24

/-- The words of a block of up to 64 bytes. -/
def blockOf (bs : Bytes) : Block :=
  let bytes := bs.toArray
  Vector.ofFn fun i => wordAt bytes i.val

/-- The words of a key of 32 bytes. -/
def keyOf (bs : Bytes) : Chain :=
  let bytes := bs.toArray
  Vector.ofFn fun i => wordAt bytes i.val

/-- The last block of a chunk; the blocks before it are compressed.  `start`
is the flag of the first block, once. -/
def chunkNode (flags : UInt32) (counter : UInt64) (chain : Chain) (start : UInt32) (bs : Bytes) :
    Node :=
  if 64 < bs.length then
    let node : Node := ⟨chain, blockOf (bs.take 64), counter, 64, flags ||| start⟩
    chunkNode flags counter node.compress 0 (bs.drop 64)
  else ⟨chain, blockOf bs, counter, UInt32.ofNat bs.length, flags ||| start ||| chunkEnd⟩
termination_by bs.length
decreasing_by simp; omega

/-- An inner node of the tree. -/
def innerNode (key : Chain) (flags : UInt32) (left right : Chain) : Node :=
  ⟨key, (left ++ right), 0, 64, flags ||| inner⟩

/-- The number of bytes in the left subtree over `n` bytes, more than one
chunk: the greatest power of two of chunks that leaves some for the right. -/
def leftLength (n : Nat) : Nat := 1024 <<< Nat.log2 ((n - 1) / 1024)

theorem leftLength_pos (n : Nat) : 0 < leftLength n := by
  rw [leftLength, Nat.shiftLeft_eq]
  exact Nat.mul_pos (by decide) (Nat.pow_pos (by decide))

theorem leftLength_lt {n : Nat} (h : 1024 < n) : leftLength n < n := by
  have hne : (n - 1) / 1024 ≠ 0 := by omega
  have hle := Nat.log2_self_le hne
  rw [leftLength, Nat.shiftLeft_eq]
  omega

/-- The node of a subtree whose first chunk has number `counter`. -/
def treeNode (key : Chain) (flags : UInt32) (counter : UInt64) (bs : Bytes) : Node :=
  if 1024 < bs.length then
    let n := leftLength bs.length
    let left := treeNode key flags counter (bs.take n)
    let right := treeNode key flags (counter + (n / 1024).toUInt64) (bs.drop n)
    innerNode key flags left.compress right.compress
  else chunkNode flags counter key chunkStart bs
termination_by bs.length
decreasing_by
  · next h =>
    have := leftLength_lt h
    simp; omega
  · have := leftLength_pos bs.length
    simp; omega

/-! ## §3. The hash. -/

/-- The bytes of a word, the least significant first. -/
def wordBytes (w : UInt32) : Bytes :=
  [w.toUInt8, (w >>> 8).toUInt8, (w >>> 16).toUInt8, (w >>> 24).toUInt8]

/-- The hash of a byte string in 32 bytes, keyed if there is a key. -/
def hash (key : Option Bytes) (bs : Bytes) : Bytes :=
  let node :=
    match key with
    | none => treeNode initial 0 0 bs
    | some k => treeNode (keyOf k) keyed 0 bs
  ({ node with flags := node.flags ||| root }.compress).toList.flatMap wordBytes

end Tetraglyph.Content.Blake3
