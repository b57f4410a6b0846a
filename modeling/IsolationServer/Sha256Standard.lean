import IsolationServer.BlockHash
import Mathlib.Analysis.SpecialFunctions.Pow.NthRootLemmas
import Mathlib.Data.Nat.Nth
import Mathlib.Data.Nat.Prime.Basic

/-!
# The SHA-256 standard

The hash function as it is specified: words of 32 bits, constants taken from the
roots of the first primes, a message schedule given by its recurrence, and a
message padded to complete blocks by its length in bits.
-/
namespace IsolationServer.Sha256Standard
open BlockHash

abbrev Word := BitVec 32

/-- The first 32 bits of the fractional part of the `k`-th root of `p`. -/
def rootFraction (k p : ℕ) : Word := BitVec.ofNat 32 (Nat.nthRoot k (p * 2 ^ (32 * k)))

/-- The primes in order, from 2 on. -/
noncomputable def prime (t : ℕ) : ℕ := Nat.nth Nat.Prime t

/-- The constant of round `t`. -/
noncomputable def roundConstant (t : ℕ) : Word := rootFraction 3 (prime t)

/-- A hash value, and the working variables while a block is compressed. -/
structure Words where
  a : Word
  b : Word
  c : Word
  d : Word
  e : Word
  f : Word
  g : Word
  h : Word

noncomputable def initialHash : Words where
  a := rootFraction 2 (prime 0)
  b := rootFraction 2 (prime 1)
  c := rootFraction 2 (prime 2)
  d := rootFraction 2 (prime 3)
  e := rootFraction 2 (prime 4)
  f := rootFraction 2 (prime 5)
  g := rootFraction 2 (prime 6)
  h := rootFraction 2 (prime 7)

def choose (x y z : Word) : Word := (x &&& y) ^^^ (~~~x &&& z)

def majority (x y z : Word) : Word := (x &&& y) ^^^ (x &&& z) ^^^ (y &&& z)

def bigSigma0 (x : Word) : Word := x.rotateRight 2 ^^^ x.rotateRight 13 ^^^ x.rotateRight 22

def bigSigma1 (x : Word) : Word := x.rotateRight 6 ^^^ x.rotateRight 11 ^^^ x.rotateRight 25

def smallSigma0 (x : Word) : Word := x.rotateRight 7 ^^^ x.rotateRight 18 ^^^ x >>> 3

def smallSigma1 (x : Word) : Word := x.rotateRight 17 ^^^ x.rotateRight 19 ^^^ x >>> 10

/-- The word of four bytes, the most significant one first. -/
def wordOf (b₀ b₁ b₂ b₃ : UInt8) : Word :=
  b₀.toBitVec ++ b₁.toBitVec ++ b₂.toBitVec ++ b₃.toBitVec

/-- Word `t` of a block. -/
def blockWord (block : List UInt8) (t : ℕ) : Word :=
  wordOf (block.getD (4 * t) 0) (block.getD (4 * t + 1) 0) (block.getD (4 * t + 2) 0)
    (block.getD (4 * t + 3) 0)

/-- The message schedule of a block. -/
def schedule (block : List UInt8) (t : ℕ) : Word :=
  if t < 16 then blockWord block t
  else smallSigma1 (schedule block (t - 2)) + schedule block (t - 7) +
    smallSigma0 (schedule block (t - 15)) + schedule block (t - 16)
termination_by t

/-- Round `t` on the working variables. -/
noncomputable def round (block : List UInt8) (v : Words) (t : ℕ) : Words :=
  let t₁ := v.h + bigSigma1 v.e + choose v.e v.f v.g + roundConstant t + schedule block t
  let t₂ := bigSigma0 v.a + majority v.a v.b v.c
  { a := t₁ + t₂, b := v.a, c := v.b, d := v.c, e := v.d + t₁, f := v.e, g := v.f, h := v.g }

def Words.add (v w : Words) : Words where
  a := v.a + w.a
  b := v.b + w.b
  c := v.c + w.c
  d := v.d + w.d
  e := v.e + w.e
  f := v.f + w.f
  g := v.g + w.g
  h := v.h + w.h

/-- The hash value after a block. -/
noncomputable def compress (v : Words) (block : List UInt8) : Words :=
  v.add ((List.range 64).foldl (round block) v)

def wordBytes (w : Word) : List UInt8 :=
  [⟨w.extractLsb' 24 8⟩, ⟨w.extractLsb' 16 8⟩, ⟨w.extractLsb' 8 8⟩, ⟨w.extractLsb' 0 8⟩]

def Words.bytes (v : Words) : List UInt8 :=
  wordBytes v.a ++ wordBytes v.b ++ wordBytes v.c ++ wordBytes v.d ++
    wordBytes v.e ++ wordBytes v.f ++ wordBytes v.g ++ wordBytes v.h

/-- What follows a message of `n` bytes: a one, as many zeros as it takes, and the
length in bits as a number of 64 bits. -/
def padding (n : ℕ) : List UInt8 :=
  0x80 :: List.replicate ((119 - n % 64) % 64) 0 ++
    wordBytes (BitVec.ofNat 32 (8 * n / 2 ^ 32)) ++ wordBytes (BitVec.ofNat 32 (8 * n))

noncomputable def hash (message : List UInt8) : Words :=
  absorb 64 compress initialHash (message ++ padding message.length)

/-- The digest of a message, 32 bytes. -/
noncomputable def digest (message : List UInt8) : List UInt8 := (hash message).bytes

end IsolationServer.Sha256Standard
