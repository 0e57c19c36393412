import CommandVM.Bytes

/-!
# BLAKE3

The hash function BLAKE3 with its default output of 32 bytes. Input is cut into chunks of 1024
bytes, each chunk is compressed block by block, and the chunk values are the leaves of a binary tree
whose left subtrees are complete.
-/

namespace CommandVM.Blake3

abbrev Words := Array UInt32

def initial : Words :=
  #[0x6a09e667, 0xbb67ae85, 0x3c6ef372, 0xa54ff53a, 0x510e527f, 0x9b05688c, 0x1f83d9ab, 0x5be0cd19]

/-- The order in which a round takes the words of the round before. -/
def permutation : Array Nat := #[2, 6, 3, 10, 7, 0, 4, 13, 1, 11, 12, 5, 9, 14, 15, 8]

def rotate (x : UInt32) (bits : UInt32) : UInt32 := (x >>> bits) ||| (x <<< (32 - bits))

/-- Word `i`, zero past the end. -/
def word (ws : Words) (i : Nat) : UInt32 := ws.getD i 0

def mix (s : Words) (a b c d : Nat) (x y : UInt32) : Words :=
  let va := word s a + word s b + x
  let vd := rotate (word s d ^^^ va) 16
  let vc := word s c + vd
  let vb := rotate (word s b ^^^ vc) 12
  let va := va + vb + y
  let vd := rotate (vd ^^^ va) 8
  let vc := vc + vd
  let vb := rotate (vb ^^^ vc) 7
  (((s.setIfInBounds a va).setIfInBounds b vb).setIfInBounds c vc).setIfInBounds d vd

/-- One round: the four columns, then the four diagonals. -/
def round (s m : Words) : Words :=
  let s := mix s 0 4 8 12 (word m 0) (word m 1)
  let s := mix s 1 5 9 13 (word m 2) (word m 3)
  let s := mix s 2 6 10 14 (word m 4) (word m 5)
  let s := mix s 3 7 11 15 (word m 6) (word m 7)
  let s := mix s 0 5 10 15 (word m 8) (word m 9)
  let s := mix s 1 6 11 12 (word m 10) (word m 11)
  let s := mix s 2 7 8 13 (word m 12) (word m 13)
  mix s 3 4 9 14 (word m 14) (word m 15)

def rounds : Nat → Words → Words → Words
  | 0, s, _ => s
  | n + 1, s, m => rounds n (round s m) (permutation.map (word m))

def chunkStart : UInt32 := 1
def chunkEnd : UInt32 := 2
def parent : UInt32 := 4
def root : UInt32 := 8

/-- What is compressed last at a node. Whether the node is the root is known only afterwards. -/
structure Node where
  chaining : Words
  block : Words
  counter : UInt32
  size : UInt32
  flags : UInt32

def Node.compress (n : Node) (more : UInt32) : Words :=
  let s := n.chaining ++ initial.take 4 ++ #[n.counter, 0, n.size, n.flags ||| more]
  let s := rounds 7 s n.block
  ((Array.range 8).map fun i => word s i ^^^ word s (i + 8))

def blockWords (bytes : List UInt8) : Words :=
  (Array.range 16).map fun i => UInt32.ofNat (Bytes.ofLittleEndian ((bytes.drop (4 * i)).take 4))

/-- The last node of a chunk; `fuel` bounds the number of blocks after the first. -/
def chunkFrom (counter : UInt32) : Nat → UInt32 → Words → List UInt8 → Node
  | fuel, start, chaining, bytes =>
    let block := bytes.take 64
    let rest := bytes.drop 64
    let node : Node :=
      { chaining, block := blockWords block, counter, size := UInt32.ofNat block.length,
        flags := start }
    match fuel, rest with
    | fuel + 1, _ :: _ => chunkFrom counter fuel 0 (node.compress 0) rest
    | _, _ => { node with flags := start ||| chunkEnd }

def chunk (counter : Nat) (bytes : List UInt8) : Node :=
  chunkFrom (UInt32.ofNat counter) 15 chunkStart initial bytes

def parentNode (left right : Words) : Node :=
  { chaining := initial, block := left ++ right, counter := 0, size := 64, flags := parent }

/-- The number of bytes of the left subtree over `size` bytes: the largest power of two of chunks
that leaves something. -/
def leftSize (size : Nat) : Nat := 1024 <<< ((size - 1) / 1024).log2

/-- The top node over some bytes, the first of them in chunk `counter`; `fuel` bounds the height. -/
def tree : Nat → Nat → List UInt8 → Node
  | 0, counter, bytes => chunk counter bytes
  | fuel + 1, counter, bytes =>
    if bytes.length ≤ 1024 then chunk counter bytes
    else
      let cut := leftSize bytes.length
      let left := tree fuel counter (bytes.take cut)
      let right := tree fuel (counter + cut / 1024) (bytes.drop cut)
      parentNode (left.compress 0) (right.compress 0)

def hash (bytes : List UInt8) : List UInt8 :=
  let node := tree (bytes.length.log2 + 1) 0 bytes
  (node.compress root).toList.flatMap fun w => Bytes.littleEndian 4 w.toNat

end CommandVM.Blake3
