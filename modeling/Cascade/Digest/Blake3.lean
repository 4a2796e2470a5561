/-!
# The BLAKE3 hash function

Unkeyed hashing with an output of 32 bytes.  The input is cut into chunks
of 1024 bytes, and each chunk into blocks of 64.  The chunks are the leaves
of a binary tree in which every left subtree is complete.  All words are
little-endian.
-/

namespace Cascade.Blake3

/-- Eight words that one node hands to its parent. -/
abbrev ChainValue := Vector UInt32 8

/-- The sixteen words of a block, or of the inner state. -/
abbrev Block := Vector UInt32 16

/-- The initial chain value. -/
def initial : ChainValue :=
  #v[0x6A09E667, 0xBB67AE85, 0x3C6EF372, 0xA54FF53A, 0x510E527F, 0x9B05688C, 0x1F83D9AB, 0x5BE0CD19]

/-- The order in which a round takes the words of the block before it. -/
def schedule : Vector (Fin 16) 16 := #v[2, 6, 3, 10, 7, 0, 4, 13, 1, 11, 12, 5, 9, 14, 15, 8]

/-! ## Compression -/

/-- Rotate a word to the right. -/
def rotate (x n : UInt32) : UInt32 := (x >>> n) ||| (x <<< (32 - n))

/-- Mix two words of a block into four words of the state. -/
def mix (s : Block) (a b c d : Fin 16) (x y : UInt32) : Block :=
  let s := s.set a (s[a] + s[b] + x)
  let s := s.set d (rotate (s[d] ^^^ s[a]) 16)
  let s := s.set c (s[c] + s[d])
  let s := s.set b (rotate (s[b] ^^^ s[c]) 12)
  let s := s.set a (s[a] + s[b] + y)
  let s := s.set d (rotate (s[d] ^^^ s[a]) 8)
  let s := s.set c (s[c] + s[d])
  s.set b (rotate (s[b] ^^^ s[c]) 7)

/-- One round: the columns of the state, then its diagonals. -/
def round (m : Block) (s : Block) : Block :=
  let s := mix s 0 4 8 12 m[0] m[1]
  let s := mix s 1 5 9 13 m[2] m[3]
  let s := mix s 2 6 10 14 m[4] m[5]
  let s := mix s 3 7 11 15 m[6] m[7]
  let s := mix s 0 5 10 15 m[8] m[9]
  let s := mix s 1 6 11 12 m[10] m[11]
  let s := mix s 2 7 8 13 m[12] m[13]
  mix s 3 4 9 14 m[14] m[15]

/-- The words of a block in the order of the next round. -/
def permute (m : Block) : Block := schedule.map fun i => m[i]

/-- Several rounds. -/
def rounds : Nat → Block → Block → Block
  | 0, _, s => s
  | n + 1, m, s => rounds n (permute m) (round m s)

/-- What a compression takes in. -/
structure Node where
  chain : ChainValue
  block : Block
  counter : Nat
  length : UInt32
  flags : UInt32

namespace Node

/-- The eight words that a compression gives. -/
def compress (n : Node) : ChainValue :=
  let low := n.counter.toUInt32
  let high := (n.counter >>> 32).toUInt32
  let s : Block := #v[n.chain[0], n.chain[1], n.chain[2], n.chain[3], n.chain[4], n.chain[5],
    n.chain[6], n.chain[7], initial[0], initial[1], initial[2], initial[3], low, high, n.length,
    n.flags]
  let s := rounds 7 n.block s
  #v[s[0] ^^^ s[8], s[1] ^^^ s[9], s[2] ^^^ s[10], s[3] ^^^ s[11], s[4] ^^^ s[12],
    s[5] ^^^ s[13], s[6] ^^^ s[14], s[7] ^^^ s[15]]

/-- The flag of the first block of a chunk. -/
def chunkStart : UInt32 := 1

/-- The flag of the last block of a chunk. -/
def chunkEnd : UInt32 := 2

/-- The flag of a node above two others. -/
def parentFlag : UInt32 := 4

/-- The flag of the root of the tree. -/
def rootFlag : UInt32 := 8

/-- The words of the hash, if this node is the root of the tree. -/
def root (n : Node) : ChainValue := { n with flags := n.flags ||| rootFlag }.compress

/-- The node above two others. -/
def parent (left right : ChainValue) : Node :=
  ⟨initial, left ++ right, 0, 64, parentFlag⟩

end Node

/-! ## Chunks -/

/-- The word that four bytes spell. -/
def wordOf (a b c d : UInt8) : UInt32 :=
  a.toUInt32 ||| (b.toUInt32 <<< 8) ||| (c.toUInt32 <<< 16) ||| (d.toUInt32 <<< 24)

/-- The words of a block; missing bytes are zero. -/
def blockOf (bytes : List UInt8) : Block :=
  let a := bytes.toArray
  let byte (i : Nat) : UInt8 := a.getD i 0
  Vector.ofFn fun i =>
    wordOf (byte (4 * i)) (byte (4 * i + 1)) (byte (4 * i + 2)) (byte (4 * i + 3))

/-- Cut a list into pieces of `size` elements; the last piece may be
shorter.  The empty list gives no piece.  `fuel` bounds the number of
pieces. -/
def pieces (size : Nat) : Nat → List UInt8 → List (List UInt8)
  | 0, _ => []
  | _ + 1, [] => []
  | fuel + 1, bytes => bytes.take size :: pieces size fuel (bytes.drop size)

/-- The last compression of a chunk, from its blocks on. -/
def chunkFrom (counter : Nat) (flags : UInt32) : ChainValue → List (List UInt8) → Node
  | chain, [] => ⟨chain, blockOf [], counter, 0, flags ||| Node.chunkEnd⟩
  | chain, [block] =>
    ⟨chain, blockOf block, counter, block.length.toUInt32, flags ||| Node.chunkEnd⟩
  | chain, block :: rest =>
    let node : Node := ⟨chain, blockOf block, counter, block.length.toUInt32, flags⟩
    chunkFrom counter 0 node.compress rest

/-- The last compression of a chunk. -/
def chunk (counter : Nat) (bytes : List UInt8) : Node :=
  chunkFrom counter Node.chunkStart initial (pieces 64 16 bytes)

/-! ## The tree -/

/-- The largest power of two below `n`, doubling at most `fuel` times. -/
def leftSize : Nat → Nat → Nat → Nat
  | 0, size, _ => size
  | fuel + 1, size, n => if 2 * size < n then leftSize fuel (2 * size) n else size

/-- The node above some chunks.  `fuel` bounds their number. -/
def subtree : Nat → Nat → List (List UInt8) → Node
  | _, counter, [] => chunk counter []
  | _, counter, [bytes] => chunk counter bytes
  | 0, counter, bytes :: _ => chunk counter bytes
  | fuel + 1, counter, chunks =>
    let left := leftSize chunks.length 1 chunks.length
    Node.parent (subtree fuel counter (chunks.take left)).compress
      (subtree fuel (counter + left) (chunks.drop left)).compress

/-- The bytes of a word. -/
def bytesOf (w : UInt32) : List UInt8 :=
  [w.toUInt8, (w >>> 8).toUInt8, (w >>> 16).toUInt8, (w >>> 24).toUInt8]

/-- The hash of some bytes. -/
def hash (bytes : List UInt8) : List UInt8 :=
  let chunks := pieces 1024 (bytes.length / 1024 + 1) bytes
  (subtree chunks.length 0 chunks).root.toList.flatMap bytesOf

/-- A hexadecimal digit, in lower case. -/
def hexDigit (n : Nat) : Char :=
  if n < 10 then Char.ofNat ('0'.toNat + n) else Char.ofNat ('a'.toNat + (n - 10))

/-- Bytes as hexadecimal digits, two each. -/
def hexText (bytes : List UInt8) : String :=
  String.ofList (bytes.flatMap fun b => [hexDigit (b.toNat / 16), hexDigit (b.toNat % 16)])

/-- The hash of some bytes as hexadecimal digits. -/
def hexHash (bytes : List UInt8) : String := hexText (hash bytes)

end Cascade.Blake3
