import IsolationServer.Sha256
import IsolationServer.Sha256Standard
import Mathlib.Tactic.NormNum.Prime

/-!
# The compression of a block is the standard's

The macros are the standard's functions, the table holds its constants, the array
`w` is its message schedule, and the loop over the working variables takes its
rounds.
-/
namespace IsolationServer.Sha256
open BlockHash Sha256Standard

/-! ## Words and macros -/

theorem toBitVec_rotr (x : UInt32) (n : ℕ) (h0 : 0 < n) (h : n < 32) :
    (rotr x (UInt32.ofNat n)).toBitVec = x.toBitVec.rotateRight n := by
  have hright : ((UInt32.ofNat n).toBitVec % 32).toNat = n := by
    simp
    omega
  have hleft : ((32 - UInt32.ofNat n).toBitVec % 32).toNat = 32 - n := by
    simp
    omega
  rw [BitVec.rotateRight_def, Nat.mod_eq_of_lt h]
  simp only [rotr, UInt32.toBitVec_or, UInt32.toBitVec_shiftRight, UInt32.toBitVec_shiftLeft]
  rw [BitVec.ushiftRight_eq', BitVec.shiftLeft_eq', hright, hleft]

theorem toBitVec_f1 (x : UInt32) : (f1 x).toBitVec = bigSigma0 x.toBitVec := by
  rw [bigSigma0, ← toBitVec_rotr x 2 (by decide) (by decide),
    ← toBitVec_rotr x 13 (by decide) (by decide), ← toBitVec_rotr x 22 (by decide) (by decide)]
  rfl

theorem toBitVec_f2 (x : UInt32) : (f2 x).toBitVec = bigSigma1 x.toBitVec := by
  rw [bigSigma1, ← toBitVec_rotr x 6 (by decide) (by decide),
    ← toBitVec_rotr x 11 (by decide) (by decide), ← toBitVec_rotr x 25 (by decide) (by decide)]
  rfl

theorem toBitVec_f3 (x : UInt32) : (f3 x).toBitVec = smallSigma0 x.toBitVec := by
  rw [smallSigma0, ← toBitVec_rotr x 7 (by decide) (by decide),
    ← toBitVec_rotr x 18 (by decide) (by decide)]
  rfl

theorem toBitVec_f4 (x : UInt32) : (f4 x).toBitVec = smallSigma1 x.toBitVec := by
  rw [smallSigma1, ← toBitVec_rotr x 17 (by decide) (by decide),
    ← toBitVec_rotr x 19 (by decide) (by decide)]
  rfl

theorem toBitVec_pack32 (b₀ b₁ b₂ b₃ : UInt8) :
    (pack32 b₀ b₁ b₂ b₃).toBitVec = wordOf b₀ b₁ b₂ b₃ := by
  have happ : wordOf b₀ b₁ b₂ b₃ = b₀.toBitVec.setWidth 32 <<< 24 |||
      b₁.toBitVec.setWidth 32 <<< 16 ||| b₂.toBitVec.setWidth 32 <<< 8 |||
      b₃.toBitVec.setWidth 32 :=
    (BitVec.setWidth_eq _).symm.trans
      BitVec.setWidth_append_append_append_eq_shiftLeft_setWidth_or
  have hpack : (pack32 b₀ b₁ b₂ b₃).toBitVec = b₃.toBitVec.setWidth 32 |||
      b₂.toBitVec.setWidth 32 <<< 8 ||| b₁.toBitVec.setWidth 32 <<< 16 |||
      b₀.toBitVec.setWidth 32 <<< 24 := rfl
  rw [happ, hpack]
  generalize b₀.toBitVec.setWidth 32 <<< 24 = w₀
  generalize b₁.toBitVec.setWidth 32 <<< 16 = w₁
  generalize b₂.toBitVec.setWidth 32 <<< 8 = w₂
  ac_rfl

theorem unpack32_eq (x : UInt32) : unpack32 x = wordBytes x.toBitVec := by
  simp only [unpack32, wordBytes, List.cons.injEq, and_true]
  refine ⟨?_, ?_, ?_, ?_⟩
  all_goals
    apply UInt8.toBitVec_inj.mp
    ext i hi
    simp

/-! ## The constants -/

/-- The primes of the round constants. -/
def primes : List ℕ :=
  [2, 3, 5, 7, 11, 13, 17, 19, 23, 29, 31, 37, 41, 43, 47, 53, 59, 61, 67, 71, 73, 79, 83, 89, 97,
    101, 103, 107, 109, 113, 127, 131, 137, 139, 149, 151, 157, 163, 167, 173, 179, 181, 191, 193,
    197, 199, 211, 223, 227, 229, 233, 239, 241, 251, 257, 263, 269, 271, 277, 281, 283, 293, 307,
    311]

theorem prime_eq {t : ℕ} (ht : t < 64) : prime t = primes.getD t 0 := by
  have hprime : ∀ t : Fin 64, (primes.getD t 0).Prime := by decide +kernel
  -- no prime is left out between two neighbours
  have hgap : ∀ t : Fin 63, primes.getD t 0 < primes.getD (t + 1) 0 ∧
      ∀ k < primes.getD (t + 1) 0 - (primes.getD t 0 + 1), ¬(primes.getD t 0 + 1 + k).Prime := by
    decide +kernel
  have hcount : Nat.count Nat.Prime (primes.getD t 0) = t := by
    induction t with
    | zero => decide +kernel
    | succ t ih =>
      obtain ⟨hlt, hnot⟩ := hgap ⟨t, by omega⟩
      have hsplit : primes.getD (t + 1) 0 =
          primes.getD t 0 + 1 + (primes.getD (t + 1) 0 - (primes.getD t 0 + 1)) := by
        dsimp only at hlt
        omega
      rw [hsplit, Nat.count_add, Nat.count_succ, ih (by omega), if_pos (hprime ⟨t, by omega⟩),
        Nat.count_of_forall_not fun k hk => hnot k hk]
  have hnth := Nat.nth_count (hprime ⟨t, ht⟩)
  rwa [hcount] at hnth

theorem sha256K_root : ∀ t : Fin 64,
    sha256K[t.val].toBitVec = rootFraction 3 (primes.getD t 0) := by
  decide +kernel

/-- The table holds the cube roots of the first 64 primes. -/
theorem sha256K_eq {j : ℕ} (hj : j < 64) : sha256K[j].toBitVec = roundConstant j := by
  rw [roundConstant, prime_eq hj]
  exact sha256K_root ⟨j, hj⟩

/-- A hash value in the standard's words. -/
def toWords (h : Vector UInt32 8) : Words where
  a := (h.get 0).toBitVec
  b := (h.get 1).toBitVec
  c := (h.get 2).toBitVec
  d := (h.get 3).toBitVec
  e := (h.get 4).toBitVec
  f := (h.get 5).toBitVec
  g := (h.get 6).toBitVec
  h := (h.get 7).toBitVec

/-- The initial hash value holds the square roots of the first eight primes. -/
theorem toWords_init : toWords init.h = initialHash := by
  have hlt : ∀ t, t < 8 → t < 64 := fun t ht => by omega
  simp only [initialHash,
    prime_eq (hlt _ (by decide : 0 < 8)), prime_eq (hlt _ (by decide : 1 < 8)),
    prime_eq (hlt _ (by decide : 2 < 8)), prime_eq (hlt _ (by decide : 3 < 8)),
    prime_eq (hlt _ (by decide : 4 < 8)), prime_eq (hlt _ (by decide : 5 < 8)),
    prime_eq (hlt _ (by decide : 6 < 8)), prime_eq (hlt _ (by decide : 7 < 8))]
  simp only [toWords, Words.mk.injEq]
  decide +kernel

/-! ## One block -/

theorem getD_toList (b : Vector UInt8 64) {i : ℕ} (h : i < 64) : b.toList.getD i 0 = b[i] := by
  rw [List.getD_eq_getElem _ _ (by simpa using h)]
  simp

/-- A pass of the first loop adds one word of the schedule. -/
theorem getElem_loadWord (b : Vector UInt8 64) (j : ℕ) (hj : j < 16) (w : Vector UInt32 64)
    (hw : ∀ t, (ht : t < j) → w[t].toBitVec = schedule b.toList t) (t : ℕ) (ht : t < j + 1) :
    (loadWord b j hj w)[t].toBitVec = schedule b.toList t := by
  simp only [loadWord]
  rw [Vector.getElem_set]
  split
  · rename_i hjt
    subst hjt
    rw [toBitVec_pack32, schedule, if_pos hj, blockWord, getD_toList b (by omega),
      getD_toList b (by omega), getD_toList b (by omega), getD_toList b (by omega)]
  · exact hw t (by omega)

/-- So does a pass of the second one. -/
theorem getElem_expandWord (block : Bytes) (j : ℕ) (hj : j < 48) (w : Vector UInt32 64)
    (hw : ∀ t, (ht : t < 16 + j) → w[t].toBitVec = schedule block t) (t : ℕ)
    (ht : t < 16 + j + 1) : (expandWord j hj w)[t].toBitVec = schedule block t := by
  simp only [expandWord]
  rw [Vector.getElem_set]
  split
  · rename_i hjt
    subst hjt
    have h2 : 16 + j - 2 = 14 + j := by omega
    have h7 : 16 + j - 7 = 9 + j := by omega
    have h15 : 16 + j - 15 = 1 + j := by omega
    have h16 : 16 + j - 16 = j := by omega
    rw [schedule, if_neg (by omega), h2, h7, h15, h16]
    simp only [UInt32.toBitVec_add, toBitVec_f3, toBitVec_f4]
    rw [hw (14 + j) (by omega), hw (9 + j) (by omega), hw (1 + j) (by omega), hw j (by omega)]
  · exact hw t (by omega)

/-- The array `w` is the message schedule of the block. -/
theorem getElem_fillWords (b : Vector UInt8 64) {t : ℕ} (ht : t < 64) :
    (fillWords b)[t].toBitVec = schedule b.toList t := by
  have hload : ∀ n, (hn : n ≤ 16) → ∀ t, (ht : t < n) →
      (Nat.fold n (fun j hj => loadWord b j (hj.trans_le hn))
        (Vector.replicate 64 0))[t].toBitVec = schedule b.toList t := by
    intro n
    induction n with
    | zero => exact fun _ t ht => absurd ht t.not_lt_zero
    | succ n ih =>
      intro hn
      rw [Nat.fold_succ]
      exact getElem_loadWord b n (by omega) _ (ih (by omega))
  have hexpand : ∀ n, (hn : n ≤ 48) → ∀ t, (ht : t < 16 + n) →
      (Nat.fold n (fun j hj => expandWord j (hj.trans_le hn))
        (Nat.fold 16 (loadWord b) (Vector.replicate 64 0)))[t].toBitVec =
        schedule b.toList t := by
    intro n
    induction n with
    | zero => exact fun _ t ht => hload 16 le_rfl t ht
    | succ n ih =>
      intro hn
      rw [Nat.fold_succ]
      exact getElem_expandWord b.toList n (by omega) _ (ih (by omega))
  exact hexpand 48 le_rfl t ht

/-- A pass of the loop over the working variables is a round. -/
theorem toWords_round (b : Bytes) {w : Vector UInt32 64} {j : ℕ} (hj : j < 64)
    (hw : w[j].toBitVec = schedule b j) (v : Vector UInt32 8) :
    toWords (round w j hj v) = Sha256Standard.round b (toWords v) j := by
  have h1 : (v[7] + f2 v[4] + ch v[4] v[5] v[6] + sha256K[j] + w[j]).toBitVec =
      (toWords v).h + bigSigma1 (toWords v).e +
        choose (toWords v).e (toWords v).f (toWords v).g + roundConstant j + schedule b j := by
    rw [← hw, ← sha256K_eq hj, toWords, ← toBitVec_f2]
    rfl
  have h2 : (f1 v[0] + maj v[0] v[1] v[2]).toBitVec =
      bigSigma0 (toWords v).a + majority (toWords v).a (toWords v).b (toWords v).c := by
    rw [toWords, ← toBitVec_f1]
    rfl
  simp only [Sha256Standard.round, ← h1, ← h2]
  rfl

theorem toWords_transformBlock (h : Vector UInt32 8) (b : Vector UInt8 64) :
    toWords (transformBlock h b) = compress (toWords h) b.toList := by
  have hrounds : ∀ n, (hn : n ≤ 64) →
      toWords (Nat.fold n (fun j hj => round (fillWords b) j (hj.trans_le hn)) h) =
        (List.range n).foldl (Sha256Standard.round b.toList) (toWords h) := by
    intro n
    induction n with
    | zero => exact fun _ => rfl
    | succ n ih =>
      intro hn
      rw [Nat.fold_succ, List.range_succ, List.foldl_append, ← ih (by omega)]
      exact toWords_round b.toList (by omega) (getElem_fillWords b (by omega)) _
  rw [compress, ← hrounds 64 le_rfl]
  rfl

end IsolationServer.Sha256
