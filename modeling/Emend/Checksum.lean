/-!
# Checksums

The 256-bit BLAKE3 hash of a text, as 64 hexadecimal digits. A text is hashed as
its UTF-8 bytes. The bytes are cut into chunks of 1024 bytes, which are the
leaves of a binary tree whose left subtrees are full; a node's value is
compressed from the values of its two children, and the root is marked.
-/

set_option autoImplicit false

namespace Emend.Checksum

/-- The sixteen words that are mixed, or a block of input. -/
abbrev Words := Vector UInt32 16

/-- The eight words that one compression hands to the next. -/
abbrev Chain := Vector UInt32 8

/-- The words that hashing starts from. -/
def seed : Chain :=
  #v[0x6A09E667, 0xBB67AE85, 0x3C6EF372, 0xA54FF53A, 0x510E527F, 0x9B05688C, 0x1F83D9AB,
    0x5BE0CD19]

/-- Marks of a compression: where it stands in its chunk and in the tree. -/
structure Marks where
  chunkStart : Bool := false
  chunkEnd : Bool := false
  parent : Bool := false
  root : Bool := false

def Marks.word (marks : Marks) : UInt32 :=
  (if marks.chunkStart then 1 else 0) + (if marks.chunkEnd then 2 else 0) +
    (if marks.parent then 4 else 0) + (if marks.root then 8 else 0)

def rotate (x : UInt32) (n : UInt32) : UInt32 := (x >>> n) ||| (x <<< (32 - n))

/-- Mix two words of input into four words of the state. -/
def mix (v : Words) (a b c d : Fin 16) (x y : UInt32) : Words :=
  let v := v.set a (v[a] + v[b] + x)
  let v := v.set d (rotate (v[d] ^^^ v[a]) 16)
  let v := v.set c (v[c] + v[d])
  let v := v.set b (rotate (v[b] ^^^ v[c]) 12)
  let v := v.set a (v[a] + v[b] + y)
  let v := v.set d (rotate (v[d] ^^^ v[a]) 8)
  let v := v.set c (v[c] + v[d])
  v.set b (rotate (v[b] ^^^ v[c]) 7)

/-- Mix a block into the state: the columns, then the diagonals. -/
def round (v m : Words) : Words :=
  let v := mix v 0 4 8 12 m[0] m[1]
  let v := mix v 1 5 9 13 m[2] m[3]
  let v := mix v 2 6 10 14 m[4] m[5]
  let v := mix v 3 7 11 15 m[6] m[7]
  let v := mix v 0 5 10 15 m[8] m[9]
  let v := mix v 1 6 11 12 m[10] m[11]
  let v := mix v 2 7 8 13 m[12] m[13]
  mix v 3 4 9 14 m[14] m[15]

/-- The order of the words of a block for the next round. -/
def permute (m : Words) : Words :=
  #v[m[2], m[6], m[3], m[10], m[7], m[0], m[4], m[13], m[1], m[11], m[12], m[5], m[9], m[14],
    m[15], m[8]]

def rounds : Nat → Words → Words → Words
  | 0, v, _ => v
  | n + 1, v, m => rounds n (round v m) (permute m)

/-- A compression before it is done, so that it can still be marked as the root. -/
structure Step where
  chain : Chain
  block : Words
  counter : Nat
  /-- How many bytes of the block count. -/
  size : Nat
  marks : Marks

def Step.run (s : Step) : Chain :=
  let prior := s.chain
  let v : Words := #v[prior[0], prior[1], prior[2], prior[3], prior[4], prior[5], prior[6],
    prior[7],
    seed[0], seed[1], seed[2], seed[3], s.counter.toUInt32, (s.counter / 0x100000000).toUInt32,
    s.size.toUInt32, s.marks.word]
  let v := rounds 7 v s.block
  #v[v[0] ^^^ v[8], v[1] ^^^ v[9], v[2] ^^^ v[10], v[3] ^^^ v[11], v[4] ^^^ v[12],
    v[5] ^^^ v[13], v[6] ^^^ v[14], v[7] ^^^ v[15]]

/-- The word of four bytes, the lowest first; missing bytes are zero. -/
def wordAt (bytes : List UInt8) (i : Nat) : UInt32 :=
  let byte (k : Nat) : UInt32 := (bytes.getD (4 * i + k) 0).toUInt32
  byte 0 ||| (byte 1 <<< 8) ||| (byte 2 <<< 16) ||| (byte 3 <<< 24)

def blockOf (bytes : List UInt8) : Words := Vector.ofFn fun i => wordAt bytes i.val

/-- The last compression of a chunk, whose other blocks are compressed before. The
first argument bounds the number of blocks. -/
def chunkFrom (counter : Nat) : Nat → Chain → Bool → List UInt8 → Step
  | 0, chain, isFirst, bytes =>
    ⟨chain, blockOf bytes, counter, bytes.length, { chunkStart := isFirst, chunkEnd := true }⟩
  | n + 1, chain, isFirst, bytes =>
    if bytes.length ≤ 64 then
      ⟨chain, blockOf bytes, counter, bytes.length, { chunkStart := isFirst, chunkEnd := true }⟩
    else
      let step : Step := ⟨chain, blockOf (bytes.take 64), counter, 64, { chunkStart := isFirst }⟩
      chunkFrom counter n step.run false (bytes.drop 64)

/-- How many bytes a chunk has at most. -/
def chunkSize : Nat := 1024

/-- How many bytes belong to the left subtree: the largest power of two of chunks
that leaves something to the right one. -/
def leftSize (size : Nat) : Nat := chunkSize * Nat.pow 2 ((size - 1) / chunkSize).log2

/-- The left part is never empty. -/
theorem leftSize_pos (size : Nat) : 0 < leftSize size :=
  Nat.mul_pos (by decide) (Nat.pow_pos (by decide))

/-- The left part leaves something for the right one. -/
theorem leftSize_lt {size : Nat} (large : chunkSize < size) : leftSize size < size := by
  have nonzero : (size - 1) / chunkSize ≠ 0 := by
    have := Nat.div_pos (a := size - 1) (b := chunkSize) (by omega) (by decide)
    omega
  have power := Nat.log2_self_le nonzero
  have whole := Nat.mul_div_le (size - 1) chunkSize
  have := Nat.mul_le_mul_left chunkSize power
  rw [leftSize, Nat.pow_eq]
  omega

/-- The two chains of the children of a node, as a block. -/
def joinChains (a b : Chain) : Words :=
  #v[a[0], a[1], a[2], a[3], a[4], a[5], a[6], a[7], b[0], b[1], b[2], b[3], b[4], b[5], b[6],
    b[7]]

/-- The last compression of the tree over some bytes, whose first chunk has the
given number. -/
def tree (counter : Nat) (bytes : List UInt8) : Step :=
  if large : chunkSize < bytes.length then
    have := leftSize_lt large
    have := leftSize_pos bytes.length
    let size := leftSize bytes.length
    let left := tree counter (bytes.take size)
    let right := tree (counter + size / chunkSize) (bytes.drop size)
    ⟨seed, joinChains left.run right.run, 0, 64, { parent := true }⟩
  else chunkFrom counter 16 seed true bytes
termination_by bytes.length
decreasing_by all_goals (simp only [List.length_take, List.length_drop]; omega)

/-- The two hexadecimal digits of a byte. -/
def hexByte (n : Nat) : List Char :=
  let digit (n : Nat) : Char := (Nat.toDigits 16 n).headD '0'
  [digit (n / 16), digit (n % 16)]

/-- The digits of a word, the lowest byte first. -/
def hexWord (word : UInt32) : List Char :=
  let n := word.toNat
  hexByte (n % 256) ++ hexByte (n / 0x100 % 256) ++ hexByte (n / 0x10000 % 256) ++
    hexByte (n / 0x1000000)

def ofText (text : String) : String :=
  let last := tree 0 text.toUTF8.toList
  let root : Step := { last with marks := { last.marks with root := true } }
  .ofList (root.run.toList.flatMap hexWord)

end Emend.Checksum
