import Stanzas.Text.Blank

/-!
# BLAKE3

The hash of a byte string is computed on a binary tree. Its leaves are chunks of 1024 bytes, each
cut into blocks of 64 bytes that are compressed one after another; an inner node compresses what its
two children came to. The left child of a node holds the greatest power of two of chunks that leaves
some for the right one, and so the tree grows level by level, by joining neighbours two and two. The
last compression carries a flag for the root, so a node is kept as the compression that is still to
be done (`Node`).
-/

namespace Stanzas.Blake3

/-- The words that a compression works on. -/
abbrev Block := Vector UInt32 16

/-- What the compressions so far came to. -/
abbrev Chain := Vector UInt32 8

/-- The chain before the first block. -/
def start : Chain :=
  #v[0x6A09E667, 0xBB67AE85, 0x3C6EF372, 0xA54FF53A, 0x510E527F, 0x9B05688C, 0x1F83D9AB, 0x5BE0CD19]

/-- Where the word of each position comes from in the next round. -/
def permutation : Vector (Fin 16) 16 := #v[2, 6, 3, 10, 7, 0, 4, 13, 1, 11, 12, 5, 9, 14, 15, 8]

example : permutation.toList.Perm (List.finRange 16) := by decide

/-! ## Compression -/

/-- A word turned to the right by some bits. -/
def rotate (w n : UInt32) : UInt32 := (w >>> n) ||| (w <<< (32 - n))

/-- Stirs two words of a block into four words of the state. -/
def mix (s : Block) (a b c d : Fin 16) (x y : UInt32) : Block :=
  let wa := s[a] + s[b] + x
  let wd := rotate (s[d] ^^^ wa) 16
  let wc := s[c] + wd
  let wb := rotate (s[b] ^^^ wc) 12
  let wa := wa + wb + y
  let wd := rotate (wd ^^^ wa) 8
  let wc := wc + wd
  let wb := rotate (wb ^^^ wc) 7
  (((s.set a wa).set b wb).set c wc).set d wd

/-- Stirs a block into the state, by columns and then by diagonals. -/
def round (s m : Block) : Block :=
  let s := mix s 0 4 8 12 m[0] m[1]
  let s := mix s 1 5 9 13 m[2] m[3]
  let s := mix s 2 6 10 14 m[4] m[5]
  let s := mix s 3 7 11 15 m[6] m[7]
  let s := mix s 0 5 10 15 m[8] m[9]
  let s := mix s 1 6 11 12 m[10] m[11]
  let s := mix s 2 7 8 13 m[12] m[13]
  mix s 3 4 9 14 m[14] m[15]

/-- The block and its permutations, one for each round still to go. -/
def schedule : Nat → Block → List Block
  | 0, _ => []
  | n + 1, m => m :: schedule n (permutation.map (m[·]))

/-- A compression that is still to be done. -/
structure Node where
  chain : Chain
  block : Block
  counter : UInt64
  /-- How many bytes of the block are of the input. -/
  length : UInt32
  flags : UInt32

namespace Flag

def chunkStart : UInt32 := 1
def chunkEnd : UInt32 := 2
def parent : UInt32 := 4
def root : UInt32 := 8

end Flag

namespace Node

/-- What the node comes to, with some more flags. -/
def compress (n : Node) (flags : UInt32) : Chain :=
  let tail : Chain := #v[start[0], start[1], start[2], start[3], n.counter.toUInt32,
    (n.counter >>> 32).toUInt32, n.length, n.flags ||| flags]
  let s : Block := (schedule 7 n.block).foldl round (n.chain ++ tail)
  Vector.ofFn fun i : Fin 8 => s[i.castAdd 8] ^^^ s[i.natAdd 8]

/-- The node above two nodes. -/
def join (left right : Node) : Node :=
  { chain := start, block := left.compress 0 ++ right.compress 0, counter := 0, length := 64,
    flags := Flag.parent }

end Node

/-! ## Chunks and their tree -/

/-- A byte string cut into pieces of `n` bytes, the last of which may be shorter; an empty string is
one empty piece. -/
def pieces (n : Nat) (bytes : ByteArray) : List ByteArray :=
  (List.range (max 1 ((bytes.size + n - 1) / n))).map fun i => bytes.extract (i * n) ((i + 1) * n)

/-- The words of up to 64 bytes, each from its lowest byte on, filled up with zeros. -/
def blockOf (bytes : ByteArray) : Block :=
  let byte (i : Nat) : UInt32 := if h : i < bytes.size then bytes[i].toUInt32 else 0
  Vector.ofFn fun i : Fin 16 =>
    byte (4 * i) ||| (byte (4 * i + 1) <<< 8) ||| (byte (4 * i + 2) <<< 16) |||
      (byte (4 * i + 3) <<< 24)

/-- The last compression of a chunk, after those of all blocks before the last. -/
def chunk (counter : Nat) (flags : UInt32) (chain : Chain) : ByteArray → List ByteArray → Node
  | last, [] =>
    { chain, block := blockOf last, counter := counter.toUInt64, length := last.size.toUInt32,
      flags := flags ||| Flag.chunkEnd }
  | first, next :: rest =>
    let node : Node := { chain, block := blockOf first, counter := counter.toUInt64,
                         length := first.size.toUInt32, flags }
    chunk counter 0 (node.compress 0) next rest

/-- The leaf of a chunk with the given number. -/
def leaf (bytes : ByteArray) (counter : Nat) : Node :=
  match pieces 64 bytes with
  | [] => chunk counter Flag.chunkStart start bytes []
  | first :: rest => chunk counter Flag.chunkStart start first rest

/-- Neighbours joined two and two; one without a neighbour goes up as it is. -/
def joinPairs : List Node → List Node
  | a :: b :: rest => a.join b :: joinPairs rest
  | rest => rest

theorem length_joinPairs_le (l : List Node) : (joinPairs l).length ≤ l.length := by
  fun_induction joinPairs l with
  | case1 a b rest ih => simp only [List.length_cons]; omega
  | case2 => exact Nat.le_refl _

/-- The root of the tree over some nodes. -/
def rootOf (first : Node) (rest : List Node) : Node :=
  match rest with
  | [] => first
  | second :: more => rootOf (first.join second) (joinPairs more)
termination_by rest.length
decreasing_by
  have := length_joinPairs_le more
  simp only [List.length_cons]
  omega

/-- The 32 bytes of the hash of a byte string. -/
def hash (bytes : ByteArray) : List UInt8 :=
  let leaves := (pieces 1024 bytes).zipIdx.map fun p => leaf p.1 p.2
  let root := match leaves with
    | [] => leaf bytes 0
    | first :: rest => rootOf first rest
  (root.compress Flag.root).toList.flatMap fun (w : UInt32) =>
    [w.toUInt8, (w >>> 8).toUInt8, (w >>> 16).toUInt8, (w >>> 24).toUInt8]

end Stanzas.Blake3
