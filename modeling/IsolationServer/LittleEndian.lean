import Mathlib

/-!
# Little-endian words

The four bytes of a 32-bit word, least significant first. A word and its bytes
determine each other, and a byte can be cut out of a word by an arithmetic shift
because the sign only fills bits above it.
-/
namespace IsolationServer.LittleEndian

def bytesLe (v : UInt32) : List UInt8 :=
  [UInt8.ofNat v.toNat, UInt8.ofNat (v.toNat / 256), UInt8.ofNat (v.toNat / 65536),
    UInt8.ofNat (v.toNat / 16777216)]

def wordLe (b0 b1 b2 b3 : UInt8) : UInt32 :=
  UInt32.ofNat (b0.toNat + 256 * b1.toNat + 65536 * b2.toNat + 16777216 * b3.toNat)

theorem toNat_wordLe (b0 b1 b2 b3 : UInt8) : (wordLe b0 b1 b2 b3).toNat =
    b0.toNat + 256 * b1.toNat + 65536 * b2.toNat + 16777216 * b3.toNat := by
  have h0 := b0.toNat_lt
  have h1 := b1.toNat_lt
  have h2 := b2.toNat_lt
  have h3 := b3.toNat_lt
  rw [wordLe, UInt32.toNat_ofNat']
  omega

theorem wordLe_bytes (v : UInt32) : wordLe (UInt8.ofNat v.toNat) (UInt8.ofNat (v.toNat / 256))
    (UInt8.ofNat (v.toNat / 65536)) (UInt8.ofNat (v.toNat / 16777216)) = v := by
  have hv := v.toNat_lt
  apply UInt32.toNat_inj.mp
  rw [toNat_wordLe]
  simp only [UInt8.toNat_ofNat']
  omega

theorem bytesLe_wordLe (b0 b1 b2 b3 : UInt8) : bytesLe (wordLe b0 b1 b2 b3) = [b0, b1, b2, b3] := by
  have h0 := b0.toNat_lt
  have h1 := b1.toNat_lt
  have h2 := b2.toNat_lt
  have h3 := b3.toNat_lt
  simp only [bytesLe, toNat_wordLe, List.cons.injEq, and_true]
  refine ⟨?_, ?_, ?_, ?_⟩ <;> apply UInt8.toNat_inj.mp <;> rw [UInt8.toNat_ofNat'] <;> omega

theorem eq_bytesLe_iff (b0 b1 b2 b3 : UInt8) (v : UInt32) :
    [b0, b1, b2, b3] = bytesLe v ↔ wordLe b0 b1 b2 b3 = v := by
  constructor
  · intro h
    simp only [bytesLe, List.cons.injEq, and_true] at h
    obtain ⟨rfl, rfl, rfl, rfl⟩ := h
    exact wordLe_bytes v
  · rintro rfl
    exact (bytesLe_wordLe b0 b1 b2 b3).symm

/-- The byte of a word at bit `k`, cut out with an arithmetic shift. -/
theorem setWidth_sshiftRight_and (x : BitVec 32) (k : ℕ) (hk : k + 8 ≤ 32) :
    ((x.sshiftRight k) &&& 0xFF#32).setWidth 8 = BitVec.ofNat 8 (x.toNat / 2 ^ k) := by
  apply BitVec.eq_of_getLsbD_eq
  intro i hi
  have hmask : ∀ j < 8, (0xFF#32).getLsbD j = true := by decide
  have hhigh : ¬ 32 ≤ i := by omega
  have hlow : k + i < 32 := by omega
  rw [BitVec.getLsbD_setWidth, BitVec.getLsbD_and, hmask i hi, BitVec.getLsbD_sshiftRight,
    BitVec.getLsbD_ofNat, Nat.testBit_div_two_pow, BitVec.getLsbD, Nat.add_comm i k]
  simp [hi, hhigh, hlow]

end IsolationServer.LittleEndian
