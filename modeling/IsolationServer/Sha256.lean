import IsolationServer.Keys

/-!
# The password hash

The class `SHA256` and the function `sha256` on top of it. A message is hashed in
pieces: `update` compresses the complete blocks and keeps the rest in `m_block`,
`final` pads what is left there. Every access through a pointer is checked against
the array behind it, and `none` stands for one that is out of bounds.
-/
namespace IsolationServer.Sha256

def sha256K : Vector UInt32 64 := #v[
  0x428a2f98, 0x71374491, 0xb5c0fbcf, 0xe9b5dba5,
  0x3956c25b, 0x59f111f1, 0x923f82a4, 0xab1c5ed5,
  0xd807aa98, 0x12835b01, 0x243185be, 0x550c7dc3,
  0x72be5d74, 0x80deb1fe, 0x9bdc06a7, 0xc19bf174,
  0xe49b69c1, 0xefbe4786, 0x0fc19dc6, 0x240ca1cc,
  0x2de92c6f, 0x4a7484aa, 0x5cb0a9dc, 0x76f988da,
  0x983e5152, 0xa831c66d, 0xb00327c8, 0xbf597fc7,
  0xc6e00bf3, 0xd5a79147, 0x06ca6351, 0x14292967,
  0x27b70a85, 0x2e1b2138, 0x4d2c6dfc, 0x53380d13,
  0x650a7354, 0x766a0abb, 0x81c2c92e, 0x92722c85,
  0xa2bfe8a1, 0xa81a664b, 0xc24b8b70, 0xc76c51a3,
  0xd192e819, 0xd6990624, 0xf40e3585, 0x106aa070,
  0x19a4c116, 0x1e376c08, 0x2748774c, 0x34b0bcb5,
  0x391c0cb3, 0x4ed8aa4a, 0x5b9cca4f, 0x682e6ff3,
  0x748f82ee, 0x78a5636f, 0x84c87814, 0x8cc70208,
  0x90befffa, 0xa4506ceb, 0xbef9a3f7, 0xc67178f2]

/-! ## The macros -/

def shfr (x n : UInt32) : UInt32 := x >>> n

def rotr (x n : UInt32) : UInt32 := (x >>> n) ||| (x <<< (32 - n))

def ch (x y z : UInt32) : UInt32 := (x &&& y) ^^^ (~~~x &&& z)

def maj (x y z : UInt32) : UInt32 := (x &&& y) ^^^ (x &&& z) ^^^ (y &&& z)

def f1 (x : UInt32) : UInt32 := rotr x 2 ^^^ rotr x 13 ^^^ rotr x 22

def f2 (x : UInt32) : UInt32 := rotr x 6 ^^^ rotr x 11 ^^^ rotr x 25

def f3 (x : UInt32) : UInt32 := rotr x 7 ^^^ rotr x 18 ^^^ shfr x 3

def f4 (x : UInt32) : UInt32 := rotr x 17 ^^^ rotr x 19 ^^^ shfr x 10

/-- The four bytes that `SHA2_UNPACK32` writes, in the order of their addresses. -/
def unpack32 (x : UInt32) : Bytes :=
  [(x >>> 24).toUInt8, (x >>> 16).toUInt8, (x >>> 8).toUInt8, x.toUInt8]

def pack32 (b₀ b₁ b₂ b₃ : UInt8) : UInt32 :=
  b₃.toUInt32 ||| b₂.toUInt32 <<< 8 ||| b₁.toUInt32 <<< 16 ||| b₀.toUInt32 <<< 24

/-! ## One block -/

/-- Pass `j` of the loop that reads the words of a block. -/
def loadWord (subBlock : Vector UInt8 64) (j : ℕ) (hj : j < 16) (w : Vector UInt32 64) :
    Vector UInt32 64 :=
  w.set j (pack32 subBlock[4 * j] subBlock[4 * j + 1] subBlock[4 * j + 2] subBlock[4 * j + 3])

/-- Pass `16 + j` of the loop that computes the other words. -/
def expandWord (j : ℕ) (hj : j < 48) (w : Vector UInt32 64) : Vector UInt32 64 :=
  w.set (16 + j) (f4 w[14 + j] + w[9 + j] + f3 w[1 + j] + w[j])

/-- The array `w` for a block. What it holds at first is never read. -/
def fillWords (subBlock : Vector UInt8 64) : Vector UInt32 64 :=
  Nat.fold 48 expandWord (Nat.fold 16 (loadWord subBlock) (Vector.replicate 64 0))

/-- Pass `j` of the loop over the working variables. -/
def round (w : Vector UInt32 64) (j : ℕ) (hj : j < 64) (wv : Vector UInt32 8) : Vector UInt32 8 :=
  let t1 := wv[7] + f2 wv[4] + ch wv[4] wv[5] wv[6] + sha256K[j] + w[j]
  let t2 := f1 wv[0] + maj wv[0] wv[1] wv[2]
  #v[t1 + t2, wv[0], wv[1], wv[2], wv[3] + t1, wv[4], wv[5], wv[6]]

def transformBlock (h : Vector UInt32 8) (subBlock : Vector UInt8 64) : Vector UInt32 8 :=
  let wv := Nat.fold 64 (round (fillWords subBlock)) h
  #v[h[0] + wv[0], h[1] + wv[1], h[2] + wv[2], h[3] + wv[3],
    h[4] + wv[4], h[5] + wv[5], h[6] + wv[6], h[7] + wv[7]]

/-! ## Memory -/

/-- The block at `message + (i << 6)`, where the offset is an `int`. -/
def subBlockAt (message : Bytes) (i : ℕ) : Option (Vector UInt8 64) :=
  let offset := (Int32.ofNat i <<< 6).toInt
  if h : 0 ≤ offset ∧ offset.toNat + 64 ≤ message.length then
    some ⟨((message.drop offset.toNat).take 64).toArray, by
      simp only [List.size_toArray, List.length_take, List.length_drop]
      omega⟩
  else none

/-- `memcpy(&dst[offset], src, n)` into an array of 128 bytes. -/
def memcpy (dst : Vector UInt8 128) (offset : ℕ) (src : Bytes) (n : ℕ) :
    Option (Vector UInt8 128) :=
  if h : offset + n ≤ 128 ∧ n ≤ src.length then
    some ⟨(dst.toList.take offset ++ src.take n ++ dst.toList.drop (offset + n)).toArray, by
      simp only [List.size_toArray, List.length_append, List.length_take, List.length_drop,
        Vector.length_toList]
      omega⟩
  else none

/-- `memset(&dst[offset], 0, n)`. -/
def memset (dst : Vector UInt8 128) (offset n : ℕ) : Option (Vector UInt8 128) :=
  memcpy dst offset (List.replicate n 0) n

/-! ## The class -/

structure SHA256 where
  totLen : UInt32
  len : UInt32
  block : Vector UInt8 128
  h : Vector UInt32 8

def transform (h : Vector UInt32 8) (message : Bytes) (blockNb : UInt32) :
    Option (Vector UInt32 8) :=
  (List.range blockNb.toInt32.toInt.toNat).foldlM
    (fun h i => (subBlockAt message i).map (transformBlock h)) h

/-- The context that `sha256` starts from, all zero before `init`. -/
def init : SHA256 where
  totLen := 0
  len := 0
  block := Vector.replicate 128 0
  h := #v[0x6a09e667, 0xbb67ae85, 0x3c6ef372, 0xa54ff53a,
    0x510e527f, 0x9b05688c, 0x1f83d9ab, 0x5be0cd19]

def update (c : SHA256) (message : Bytes) (len : UInt32) : Option SHA256 := do
  let tmpLen := 64 - c.len
  let remLen := if len < tmpLen then len else tmpLen
  let block ← memcpy c.block c.len.toNat message remLen.toNat
  if c.len + len < 64 then
    return { c with block, len := c.len + len }
  else
    let newLen := len - remLen
    let blockNb := newLen / 64
    let shiftedMessage := message.drop remLen.toNat
    let h ← transform c.h block.toList 1
    let h ← transform h shiftedMessage blockNb
    let remLen := newLen % 64
    let block ← memcpy block 0 (shiftedMessage.drop (blockNb <<< 6).toNat) remLen.toNat
    return { block, h, len := remLen, totLen := c.totLen + ((blockNb + 1) <<< 6) }

/-- The digest, and the context that is left. -/
def final (c : SHA256) : Option (Bytes × SHA256) := do
  let blockNb : UInt32 := 1 + if 64 - 9 < c.len % 64 then 1 else 0
  let lenB := (c.totLen + c.len) <<< 3
  let pmLen := blockNb <<< 6
  let block ← memset c.block c.len.toNat (pmLen - c.len).toNat
  let block ← memcpy block c.len.toNat [0x80] 1
  let block ← memcpy block (pmLen.toNat - 4) (unpack32 lenB) 4
  let h ← transform c.h block.toList blockNb
  return (h.toList.flatMap unpack32, { c with block, h })

/-- A digit of `%02x`. -/
def hexDigit (n : UInt8) : UInt8 := if n < 10 then 48 + n else 87 + n

def hexByte (b : UInt8) : Bytes := [hexDigit (b >>> 4), hexDigit (b &&& 15)]

def sha256 (input : Bytes) : Option Bytes := do
  let ctx ← update init input (UInt32.ofNat input.length)
  let (digest, _) ← final ctx
  return digest.flatMap hexByte

end IsolationServer.Sha256
