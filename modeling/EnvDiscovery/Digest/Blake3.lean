import EnvDiscovery.Text.Digit

/-!
**The hash BLAKE3.**

The input is cut into chunks of 1024 bytes and these into blocks of 64. A chunk is compressed block
by block; the chunks are the leaves of a binary tree whose left subtrees are full.

Main definitions:
* `Blake3.compress` — the compression function;
* `Blake3.chunkNode`, `Blake3.parentNode`, `Blake3.treeNode` — nodes of the tree;
* `Blake3.hash`, `Blake3.hexHash` — the hash of 32 bytes, and its hexadecimal text.
-/

namespace EnvDiscovery.Blake3

/-- The initial chaining value. -/
def iv : Vector UInt32 8 :=
  #v[0x6A09E667, 0xBB67AE85, 0x3C6EF372, 0xA54FF53A, 0x510E527F, 0x9B05688C, 0x1F83D9AB, 0x5BE0CD19]

/-- Marks the first block of a chunk. -/
def chunkStart : UInt32 := 1

/-- Marks the last block of a chunk. -/
def chunkEnd : UInt32 := 2

/-- Marks a node with children. -/
def parentFlag : UInt32 := 4

/-- Marks the root of the tree. -/
def rootFlag : UInt32 := 8

/-- Where each message word goes before the next round. -/
def permutation : Vector (Fin 16) 16 :=
  #v[2, 6, 3, 10, 7, 0, 4, 13, 1, 11, 12, 5, 9, 14, 15, 8]

/-- Rotation to the right. -/
def rotr (x : UInt32) (n : UInt32) : UInt32 :=
  (x >>> n) ||| (x <<< (32 - n))

/-- Mixes two message words into four words of the state. -/
def mix (v : Vector UInt32 16) (a b c d : Fin 16) (x y : UInt32) : Vector UInt32 16 :=
  let va := v[a] + v[b] + x
  let vd := rotr (v[d] ^^^ va) 16
  let vc := v[c] + vd
  let vb := rotr (v[b] ^^^ vc) 12
  let va := va + vb + y
  let vd := rotr (vd ^^^ va) 8
  let vc := vc + vd
  let vb := rotr (vb ^^^ vc) 7
  (((v.set a va).set b vb).set c vc).set d vd

/-- One round: the columns, then the diagonals. -/
def round (v m : Vector UInt32 16) : Vector UInt32 16 :=
  let v := mix v 0 4 8 12 m[0] m[1]
  let v := mix v 1 5 9 13 m[2] m[3]
  let v := mix v 2 6 10 14 m[4] m[5]
  let v := mix v 3 7 11 15 m[6] m[7]
  let v := mix v 0 5 10 15 m[8] m[9]
  let v := mix v 1 6 11 12 m[10] m[11]
  let v := mix v 2 7 8 13 m[12] m[13]
  mix v 3 4 9 14 m[14] m[15]

/-- Several rounds, with the message words permuted between them. -/
def rounds : Nat → Vector UInt32 16 → Vector UInt32 16 → Vector UInt32 16
  | 0, v, _ => v
  | n + 1, v, m => rounds n (round v m) (permutation.map fun i => m[i])

/-- A node of the tree before it is compressed. -/
structure Node where
  chaining : Vector UInt32 8
  block : Vector UInt32 16
  counter : Nat
  length : Nat
  flags : UInt32

/-- The chaining value that a node passes to its parent. -/
def compress (n : Node) : Vector UInt32 8 :=
  let low := UInt32.ofNat n.counter
  let high := UInt32.ofNat (n.counter / UInt32.size)
  let cv := n.chaining
  let start : Vector UInt32 16 :=
    #v[cv[0], cv[1], cv[2], cv[3], cv[4], cv[5], cv[6], cv[7], iv[0], iv[1], iv[2], iv[3],
       low, high, UInt32.ofNat n.length, n.flags]
  let v := rounds 7 start n.block
  Vector.ofFn fun i : Fin 8 => v[i.val] ^^^ v[i.val + 8]

/-- The number that bytes write, least significant first. -/
def littleEndian (bytes : List UInt8) : Nat :=
  bytes.foldr (fun b n => b.toNat + 256 * n) 0

/-- The words of a block, with zeros after its end. -/
def blockWords (bytes : List UInt8) : Vector UInt32 16 :=
  Vector.ofFn fun i => UInt32.ofNat (littleEndian ((bytes.drop (4 * i.val)).take 4))

/-- Cuts a list into pieces of `size`; the last may be shorter. The empty list is one empty
piece. -/
def pieces {α : Type} (size : Nat) : Nat → List α → List (List α)
  | 0, xs => [xs]
  | fuel + 1, xs =>
    if xs.length ≤ size then [xs] else xs.take size :: pieces size fuel (xs.drop size)

/-- The node of the last block of a chunk, after compressing those before it. -/
def blocksNode (counter : Nat) (chaining : Vector UInt32 8) (flags : UInt32) :
    List (List UInt8) → Node
  | [] => ⟨chaining, blockWords [], counter, 0, flags ||| chunkEnd⟩
  | [b] => ⟨chaining, blockWords b, counter, b.length, flags ||| chunkEnd⟩
  | b :: rest =>
    blocksNode counter (compress ⟨chaining, blockWords b, counter, b.length, flags⟩) 0 rest

/-- The node of a chunk. -/
def chunkNode (counter : Nat) (chunk : List UInt8) : Node :=
  blocksNode counter iv chunkStart (pieces 64 chunk.length chunk)

/-- The node above two subtrees. -/
def parentNode (left right : Node) : Node :=
  let l := compress left
  let r := compress right
  ⟨iv, #v[l[0], l[1], l[2], l[3], l[4], l[5], l[6], l[7], r[0], r[1], r[2], r[3], r[4],
    r[5], r[6], r[7]],
    0, 64, parentFlag⟩

/-- The largest power of two below the number of leaves. -/
def splitSize (leaves : Nat) : Nat :=
  (List.range leaves).foldl (fun k _ => if 2 * k < leaves then 2 * k else k) 1

/-- The root of the tree over the given leaves. -/
def treeNode : Nat → List Node → Node
  | _, [] => chunkNode 0 []
  | _, [n] => n
  | 0, n :: _ => n
  | fuel + 1, ns =>
    let k := splitSize ns.length
    parentNode (treeNode fuel (ns.take k)) (treeNode fuel (ns.drop k))

/-- The bytes of a word, least significant first. -/
def wordBytes (w : UInt32) : List UInt8 :=
  [w.toUInt8, (w >>> 8).toUInt8, (w >>> 16).toUInt8, (w >>> 24).toUInt8]

/-- The hash of a list of bytes. -/
def hash (input : List UInt8) : List UInt8 :=
  let chunks := pieces 1024 input.length input
  let leaves := chunks.mapIdx chunkNode
  let root := treeNode leaves.length leaves
  (compress { root with flags := root.flags ||| rootFlag }).toList.flatMap wordBytes

/-- The hash in hexadecimal digits. -/
def hexHash (input : List UInt8) : String :=
  Text.hex (hash input)

end EnvDiscovery.Blake3
