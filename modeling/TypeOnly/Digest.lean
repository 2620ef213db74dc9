/-!
The 256-bit BLAKE3 digest of a sequence of bytes: chunks of 1024 bytes are the leaves of a binary
tree in which every left subtree is complete.
-/

namespace TypeOnly.Digest

set_option autoImplicit false

/-- The words that a compression chains on. -/
abbrev Chain := Vector UInt32 8

abbrev Block := Vector UInt32 16

def start : Chain := #v[0x6a09e667, 0xbb67ae85, 0x3c6ef372, 0xa54ff53a, 0x510e527f, 0x9b05688c,
  0x1f83d9ab, 0x5be0cd19]

def chunkStart : UInt32 := 1
def chunkEnd : UInt32 := 2
def parentNode : UInt32 := 4
def rootNode : UInt32 := 8

/-! ### Compression -/

def rotateRight (x : UInt32) (n : UInt32) : UInt32 := (x >>> n) ||| (x <<< (32 - n))

/-- Mixes two words of the message into four words of the state. -/
def mix (s : Block) (a b c d : Fin 16) (x y : UInt32) : Block :=
  let a1 := s[a] + s[b] + x
  let d1 := rotateRight (s[d] ^^^ a1) 16
  let c1 := s[c] + d1
  let b1 := rotateRight (s[b] ^^^ c1) 12
  let a2 := a1 + b1 + y
  let d2 := rotateRight (d1 ^^^ a2) 8
  let c2 := c1 + d2
  let b2 := rotateRight (b1 ^^^ c2) 7
  (((s.set a a2).set b b2).set c c2).set d d2

/-- Mixes the message into the columns of the state, then into its diagonals. -/
def round (s m : Block) : Block :=
  let s := mix s 0 4 8 12 m[0] m[1]
  let s := mix s 1 5 9 13 m[2] m[3]
  let s := mix s 2 6 10 14 m[4] m[5]
  let s := mix s 3 7 11 15 m[6] m[7]
  let s := mix s 0 5 10 15 m[8] m[9]
  let s := mix s 1 6 11 12 m[10] m[11]
  let s := mix s 2 7 8 13 m[12] m[13]
  mix s 3 4 9 14 m[14] m[15]

/-- The order in which the next round takes the words of the message. -/
def permute (m : Block) : Block :=
  #v[m[2], m[6], m[3], m[10], m[7], m[0], m[4], m[13], m[1], m[11], m[12], m[5], m[9], m[14], m[15],
    m[8]]

def rounds : Nat → Block → Block → Block
  | 0, s, _ => s
  | n + 1, s, m => rounds n (round s m) (permute m)

/-- A node of the tree before its last compression. -/
structure Node where
  chain : Chain
  block : Block
  counter : Nat
  length : Nat
  flags : UInt32

namespace Node

def compress (n : Node) (flags : UInt32) : Chain :=
  let w := n.chain
  let s := rounds 7 #v[w[0], w[1], w[2], w[3], w[4], w[5], w[6], w[7], start[0], start[1], start[2],
    start[3], UInt32.ofNat n.counter, UInt32.ofNat (n.counter / Nat.pow 2 32),
    UInt32.ofNat n.length, flags] n.block
  #v[s[0] ^^^ s[8], s[1] ^^^ s[9], s[2] ^^^ s[10], s[3] ^^^ s[11], s[4] ^^^ s[12], s[5] ^^^ s[13],
    s[6] ^^^ s[14], s[7] ^^^ s[15]]

/-- What a node gives to the node above it. -/
def value (n : Node) : Chain := n.compress n.flags

/-- What the node at the top gives. -/
def digest (n : Node) : Chain := n.compress (n.flags ||| rootNode)

end Node

/-! ### Leaves -/

/-- A byte, zero after the end. -/
def byteAt (data : ByteArray) (i : Nat) : UInt32 :=
  if h : i < data.size then data[i].toUInt32 else 0

/-- Four bytes, the lowest first. -/
def wordAt (data : ByteArray) (i : Nat) : UInt32 :=
  byteAt data i ||| (byteAt data (i + 1) <<< 8) ||| (byteAt data (i + 2) <<< 16)
    ||| (byteAt data (i + 3) <<< 24)

def blockAt (data : ByteArray) (i : Nat) : Block := Vector.ofFn fun k => wordAt data (i + 4 * k.val)

/-- The leaf for a chunk. -/
def leaf (data : ByteArray) (chunk : Nat) : Node :=
  let first := 1024 * chunk
  let size := min 1024 (data.size - first)
  let last := (size - 1) / 64
  let node (chain : Chain) (i : Nat) : Node :=
    { chain, block := blockAt data (first + 64 * i), counter := chunk
      length := min 64 (size - 64 * i)
      flags := (if i = 0 then chunkStart else 0) ||| (if i = last then chunkEnd else 0) }
  node ((List.range last).foldl (fun chain i => (node chain i).value) start) last

/-! ### The tree -/

def parent (left right : Chain) : Node where
  chain := start
  block := left ++ right
  counter := 0
  length := 64
  flags := parentNode

/-- The subtree over `count` chunks from the one at `first`, where `count ≤ 2 ^ height`. -/
def tree (data : ByteArray) : Nat → Nat → Nat → Node
  | 0, first, _ => leaf data first
  | height + 1, first, count =>
    if count ≤ Nat.pow 2 height then tree data height first count
    else
      parent (tree data height first (Nat.pow 2 height)).value
        (tree data height (first + Nat.pow 2 height) (count - Nat.pow 2 height)).value

def root (data : ByteArray) : Node :=
  let chunks := max 1 ((data.size + 1023) / 1024)
  tree data (chunks.log2 + 1) 0 chunks

def hexDigits (byte : Nat) : List Char := [Nat.digitChar (byte / 16), Nat.digitChar (byte % 16)]

/-- A word in hexadecimal digits, its lowest byte first. -/
def wordText (w : UInt32) : List Char :=
  [0, 8, 16, 24].flatMap fun shift => hexDigits (w.toNat / Nat.pow 2 shift % 256)

/-- The digest of bytes in hexadecimal digits. -/
def ofBytes (data : ByteArray) : String :=
  String.ofList ((root data).digest.toList.flatMap wordText)

/-- The digest of a text in hexadecimal digits. -/
def ofText (s : String) : String := ofBytes s.toUTF8

end TypeOnly.Digest
