import JsonRules.Wire.LittleEndian

/-!
# BLAKE3

The BLAKE3 hash of a byte string, thirty-two bytes long. The input is cut into chunks of 1024 bytes
and these into blocks of 64. A *compression* mixes a block into a chaining value of eight words; a
chunk chains its blocks, and pairs of chunks, of pairs, and so on are joined by compressing the two
chaining values as one block. A last chunk or subtree without a partner moves up as it is. The
compression at the root carries a flag of its own, so nothing else can be mistaken for a whole
input.
-/

namespace JsonRules

namespace Blake3

/-- Eight words that stand for all input so far. -/
abbrev Chaining := Vector UInt32 8

/-- The sixteen words of a block, or of the state of a compression. -/
abbrev Block := Vector UInt32 16

/-- The chaining value to begin with. -/
def initial : Chaining :=
  #v[0x6A09E667, 0xBB67AE85, 0x3C6EF372, 0xA54FF53A, 0x510E527F, 0x9B05688C, 0x1F83D9AB, 0x5BE0CD19]

/-- Flag of the first block of a chunk. -/
def chunkStart : UInt32 := 1

/-- Flag of the last block of a chunk. -/
def chunkEnd : UInt32 := 2

/-- Flag of a block of two chaining values. -/
def parent : UInt32 := 4

/-- Flag of the compression at the root. -/
def root : UInt32 := 8

/-- The bytes in a block. -/
def blockLength : Nat := 64

/-- The bytes in a chunk. -/
def chunkLength : Nat := 1024

/-- A word rotated to the right. -/
def rotateRight (word count : UInt32) : UInt32 := (word >>> count) ||| (word <<< (32 - count))

/-- Mixes two words of the block into four words of the state. -/
def mix (state : Block) (a b c d : Fin 16) (x y : UInt32) : Block :=
  let state := state.set a (state[a] + state[b] + x)
  let state := state.set d (rotateRight (state[d] ^^^ state[a]) 16)
  let state := state.set c (state[c] + state[d])
  let state := state.set b (rotateRight (state[b] ^^^ state[c]) 12)
  let state := state.set a (state[a] + state[b] + y)
  let state := state.set d (rotateRight (state[d] ^^^ state[a]) 8)
  let state := state.set c (state[c] + state[d])
  state.set b (rotateRight (state[b] ^^^ state[c]) 7)

/-- Mixes all words of the block into the state, along the columns and then the diagonals. -/
def round (state block : Block) : Block :=
  let state := mix state 0 4 8 12 block[0] block[1]
  let state := mix state 1 5 9 13 block[2] block[3]
  let state := mix state 2 6 10 14 block[4] block[5]
  let state := mix state 3 7 11 15 block[6] block[7]
  let state := mix state 0 5 10 15 block[8] block[9]
  let state := mix state 1 6 11 12 block[10] block[11]
  let state := mix state 2 7 8 13 block[12] block[13]
  mix state 3 4 9 14 block[14] block[15]

/-- The words of a block in the order of the next round. -/
def permute (block : Block) : Block :=
  #v[block[2], block[6], block[3], block[10], block[7], block[0], block[4], block[13],
    block[1], block[11], block[12], block[5], block[9], block[14], block[15], block[8]]

/-- A number of rounds, the words of the block permuted between each two. -/
def rounds : Nat → Block → Block → Block
  | 0, state, _ => state
  | n + 1, state, block => rounds n (round state block) (permute block)

/-- The chaining value after a block of so many bytes. -/
def compress (chaining : Chaining) (block : Block) (counter : Nat) (length flags : UInt32) :
    Chaining :=
  let low := UInt32.ofNat counter
  let high := UInt32.ofNat (counter >>> 32)
  let state : Block :=
    #v[chaining[0], chaining[1], chaining[2], chaining[3], chaining[4], chaining[5], chaining[6],
      chaining[7], initial[0], initial[1], initial[2], initial[3], low, high, length, flags]
  let state := rounds 7 state block
  Vector.ofFn fun i : Fin 8 => state[i.val] ^^^ state[i.val + 8]

/-- The word that four bytes from a position stand for, bytes that are not there counting as
zero. -/
def wordAt (bytes : Array UInt8) (position : Nat) : UInt32 :=
  UInt32.ofNat (Wire.ofLittleEndian
    ((List.range 4).map fun i => (bytes[position + i]?).getD 0))

/-- The block that starts at a position. -/
def blockAt (bytes : Array UInt8) (position : Nat) : Block :=
  Vector.ofFn fun i : Fin 16 => wordAt bytes (position + 4 * i.val)

/-- The number of blocks of a chunk of so many bytes; an empty chunk has one. -/
def blockCount (length : Nat) : Nat := max 1 ((length + blockLength - 1) / blockLength)

/-- The chaining value of a chunk, given by its number, its first position and its length. The flags
given go to its last block. -/
def chunk (bytes : Array UInt8) (number start length : Nat) (lastFlags : UInt32) : Chaining :=
  let count := blockCount length
  (List.range count).foldl
    (fun chaining i =>
      let here := min blockLength (length - i * blockLength)
      let first := if i = 0 then chunkStart else 0
      let last := if i + 1 = count then chunkEnd ||| lastFlags else 0
      compress chaining (blockAt (bytes.extract start (start + length)) (i * blockLength)) number
        (UInt32.ofNat here) (first ||| last))
    initial

/-- The chaining value of two chaining values. -/
def join (left right : Chaining) (flags : UInt32) : Chaining :=
  compress initial (left ++ right) 0 64 (parent ||| flags)

/-- Joins the chaining values of neighbouring subtrees; a last one without a partner stays. -/
def joinPairs : List Chaining → List Chaining
  | left :: right :: rest => join left right 0 :: joinPairs rest
  | rest => rest

/-- Joins subtrees until two are left, and these at the root. Every pass halves their number, so
`fuel` need not exceed it. -/
def joinAll : (fuel : Nat) → List Chaining → Chaining
  | 0, _ => initial
  | _ + 1, [left, right] => join left right root
  | fuel + 1, subtrees => joinAll fuel (joinPairs subtrees)

/-- The chaining value at the root of an input. -/
def rootChaining (bytes : Array UInt8) : Chaining :=
  if bytes.size ≤ chunkLength then chunk bytes 0 0 bytes.size root
  else
    let count := (bytes.size + chunkLength - 1) / chunkLength
    let chunks := (List.range count).map fun i =>
      chunk bytes i (i * chunkLength) (min chunkLength (bytes.size - i * chunkLength)) 0
    joinAll count chunks

/-- The hash of a byte string. -/
def hash (bytes : List UInt8) : Vector UInt8 32 :=
  let words := rootChaining bytes.toArray
  Vector.ofFn fun i : Fin 32 =>
    UInt8.ofNat (words[i.val / 4].toNat >>> (8 * (i.val % 4)))

end Blake3

end JsonRules
