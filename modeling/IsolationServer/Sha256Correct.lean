import IsolationServer.Sha256Rounds

/-!
# The password hash computes the standard's

The buffer of a context holds what is left of the bytes so far after their complete
blocks. So a message may come in any pieces, no access leaves its array, and the
digest is the standard's while the length in bits fits into the 32 bits that `final`
writes.
-/
namespace IsolationServer.Sha256
open BlockHash Sha256Standard

/-! ## Memory -/

theorem offset_eq {i : ℕ} (hi : i < 2 ^ 25) : (Int32.ofNat i <<< 6).toInt = ((64 * i : ℕ) : ℤ) := by
  have hshift : (Int32.ofNat i <<< 6).toBitVec = BitVec.ofNat 32 i <<< 6 := rfl
  have hnat : (BitVec.ofNat 32 i <<< 6).toNat = 64 * i := by
    rw [BitVec.toNat_shiftLeft, BitVec.toNat_ofNat, Nat.shiftLeft_eq]
    omega
  rw [← Int32.toInt_toBitVec, hshift, BitVec.toInt_eq_toNat_of_lt (by omega), hnat]

/-- Block `i` of a message that is long enough for it. -/
theorem subBlockAt_eq (message : Bytes) {i : ℕ} (hi : i < 2 ^ 25)
    (hlen : 64 * i + 64 ≤ message.length) :
    ∃ b, subBlockAt message i = some b ∧ b.toList = (message.drop (64 * i)).take 64 := by
  unfold subBlockAt
  rw [dif_pos (by rw [offset_eq hi]; omega)]
  refine ⟨_, rfl, ?_⟩
  rw [Vector.toList_mk, offset_eq hi, Int.toNat_natCast]

theorem toNat_shiftLeft_six (x : UInt32) : (x <<< 6).toNat = 64 * x.toNat % 2 ^ 32 := by
  rw [UInt32.toNat_shiftLeft, Nat.shiftLeft_eq, Nat.mul_comm]
  rfl

/-- The blocks of a message, from its start on. -/
theorem transform_eq (message : Bytes) (blockNb : UInt32) (hnb : blockNb.toNat ≤ 2 ^ 25)
    (hlen : 64 * blockNb.toNat ≤ message.length) (h : Vector UInt32 8) :
    ∃ h', transform h message blockNb = some h' ∧
      toWords h' = absorb 64 compress (toWords h) (message.take (64 * blockNb.toNat)) := by
  have hint : blockNb.toInt32.toInt.toNat = blockNb.toNat := by
    have hcast : blockNb.toInt32.toInt = blockNb.toBitVec.toInt := rfl
    rw [hcast, BitVec.toInt_eq_toNat_of_lt (by rw [UInt32.toNat_toBitVec]; omega),
      Int.toNat_natCast, UInt32.toNat_toBitVec]
  unfold transform
  rw [hint]
  generalize blockNb.toNat = n at hnb hlen
  induction n with
  | zero => exact ⟨h, rfl, (absorb_of_short (by simp)).symm⟩
  | succ n ih =>
    obtain ⟨h', hrun, hwords⟩ := ih (by omega) (by omega)
    obtain ⟨b, hb, hbytes⟩ := subBlockAt_eq message (i := n) (by omega) (by omega)
    have hlast : ((message.drop (64 * n)).take 64).length = 64 := by
      rw [List.length_take, List.length_drop]
      omega
    have hfirst : (message.take (64 * n)).length % 64 = 0 := by
      rw [List.length_take]
      omega
    refine ⟨transformBlock h' b, ?_, ?_⟩
    · rw [List.range_succ, List.foldlM_append, hrun]
      simp [hb]
    · rw [toWords_transformBlock, hwords, hbytes, Nat.mul_succ, List.take_add,
        absorb_append_left (by decide) hfirst, absorb_of_length (by decide) hlast]

theorem memcpy_eq (dst : Vector UInt8 128) (offset : ℕ) (src : Bytes) (n : ℕ)
    (hdst : offset + n ≤ 128) (hsrc : n ≤ src.length) : ∃ v, memcpy dst offset src n = some v ∧
      v.toList = dst.toList.take offset ++ src.take n ++ dst.toList.drop (offset + n) := by
  unfold memcpy
  rw [dif_pos ⟨hdst, hsrc⟩]
  exact ⟨_, rfl, rfl⟩

/-- Bytes that are copied over bytes of the same number. -/
theorem memcpy_over {dst : Vector UInt8 128} {before old after : Bytes} (new : Bytes)
    (hdst : dst.toList = before ++ (old ++ after)) (hlen : old.length = new.length) :
    ∃ v, memcpy dst before.length new new.length = some v ∧
      v.toList = before ++ (new ++ after) := by
  have htotal := congrArg List.length hdst
  simp only [Vector.length_toList, List.length_append] at htotal
  obtain ⟨v, hv, hbytes⟩ := memcpy_eq dst before.length new new.length (by omega) le_rfl
  refine ⟨v, hv, ?_⟩
  rw [hbytes, hdst, List.take_left, List.take_length, List.append_assoc, ← List.drop_drop,
    List.drop_left, ← hlen, List.drop_left]

/-! ## Contexts -/

/-- The context after `init` and the bytes of a message, in whatever pieces. -/
structure Holds (c : SHA256) (message : Bytes) : Prop where
  len : c.len.toNat = message.length % 64
  block : c.block.toList.take c.len.toNat = rest 64 message
  h : toWords c.h = absorb 64 compress initialHash message
  totLen : c.totLen = UInt32.ofNat (message.length / 64 * 64)

theorem holds_init : Holds init [] where
  len := rfl
  block := (rest_of_short (by decide)).symm
  h := toWords_init.trans (absorb_of_short (by decide)).symm
  totLen := rfl

theorem Holds.length_rest {c : SHA256} {message : Bytes} (h : Holds c message) :
    (rest 64 message).length = c.len.toNat := by
  rw [BlockHash.length_rest (by decide), h.len]

/-- The bytes fit into the block that is being filled. -/
theorem Holds.keep {c : SHA256} {message bytes : Bytes} {len : UInt32} {block : Vector UInt8 128}
    (hc : Holds c message) (hlen : len.toNat ≤ bytes.length) (hfit : c.len.toNat + len.toNat < 64)
    (hblock : block.toList = c.block.toList.take c.len.toNat ++ bytes.take len.toNat ++
      c.block.toList.drop (c.len.toNat + len.toNat)) :
    Holds { c with block, len := c.len + len } (message ++ bytes.take len.toNat) := by
  have hcl := hc.len
  have htake : (bytes.take len.toNat).length = len.toNat := by simp [hlen]
  have hadd : (c.len + len).toNat = c.len.toNat + len.toNat := by
    rw [UInt32.toNat_add]
    omega
  have hfill : (rest 64 message ++ bytes.take len.toNat).length = c.len.toNat + len.toNat := by
    rw [List.length_append, hc.length_rest, htake]
  refine ⟨?_, ?_, ?_, ?_⟩
  · rw [hadd, List.length_append, htake]
    omega
  · rw [rest_append (by decide), rest_of_short (by omega), hblock, hc.block, hadd, ← hfill,
      List.take_left]
  · rw [absorb_append (by decide), absorb_of_short (by omega)]
    exact hc.h
  · have hdiv : (message ++ bytes.take len.toNat).length / 64 = message.length / 64 := by
      rw [List.length_append, htake]
      omega
    rw [hdiv]
    exact hc.totLen

/-- The bytes `first` fill the block up, `whole` is a number of blocks, and `left` is
copied to the front of the buffer. -/
theorem Holds.flush {c c' : SHA256} {message first whole left : Bytes} (hc : Holds c message)
    (hfirst : first.length = 64 - c.len.toNat) (hwhole : whole.length % 64 = 0)
    (hleft : left.length < 64) (hlen : c'.len.toNat = left.length)
    (hblock : c'.block.toList.take left.length = left)
    (hh : toWords c'.h = absorb 64 compress
      (absorb 64 compress (toWords c.h) (c.block.toList.take c.len.toNat ++ first)) whole)
    (htot : c'.totLen = c.totLen + UInt32.ofNat (64 + whole.length)) :
    Holds c' (message ++ (first ++ (whole ++ left))) := by
  have hcl := hc.len
  have hfull : (rest 64 message ++ first).length = 64 := by
    rw [List.length_append, hc.length_rest]
    omega
  have hmod : (rest 64 message ++ first).length % 64 = 0 := by omega
  refine ⟨?_, ?_, ?_, ?_⟩
  · rw [hlen]
    simp only [List.length_append]
    omega
  · rw [hlen, hblock, rest_append (by decide), ← List.append_assoc,
      rest_append_left (by decide) hmod, rest_append_left (by decide) hwhole, rest_of_short hleft]
  · rw [hh, hc.block, hc.h, absorb_append (by decide) message,
      ← List.append_assoc (rest 64 message), absorb_append_left (by decide) hmod,
      absorb_append_left (by decide) hwhole, absorb_of_short hleft]
  · have hdiv : (message ++ (first ++ (whole ++ left))).length / 64 * 64 =
        message.length / 64 * 64 + (64 + whole.length) := by
      simp only [List.length_append]
      omega
    rw [htot, hc.totLen, hdiv, ← UInt32.ofNat_add]

/-- The bytes that `update` copies first. -/
theorem toNat_remLen {m len : UInt32} (hm : m.toNat < 64) :
    (if len < 64 - m then len else 64 - m).toNat = min len.toNat (64 - m.toNat) := by
  have htmp : (64 - m).toNat = 64 - m.toNat := by
    rw [UInt32.toNat_sub]
    simp
    omega
  split
  · rename_i h
    rw [UInt32.lt_iff_toNat_lt, htmp] at h
    omega
  · rename_i h
    rw [UInt32.lt_iff_toNat_lt, htmp] at h
    omega

/-- `update` adds the bytes to the message, and stays within its arrays. -/
theorem Holds.update {c : SHA256} {message : Bytes} (hc : Holds c message) (bytes : Bytes)
    {len : UInt32} (hlen : len.toNat ≤ bytes.length) (hint : len.toNat < 2 ^ 31) :
    ∃ c', update c bytes len = some c' ∧ Holds c' (message ++ bytes.take len.toNat) := by
  have hcl := hc.len
  have hadd : (c.len + len).toNat = c.len.toNat + len.toNat := by
    rw [UInt32.toNat_add]
    omega
  have hrem : (if len < 64 - c.len then len else 64 - c.len).toNat =
      min len.toNat (64 - c.len.toNat) := toNat_remLen (by omega)
  unfold Sha256.update
  dsimp only
  generalize (if len < 64 - c.len then len else 64 - c.len) = remLen at hrem
  obtain ⟨block, hcopy, hblock⟩ := memcpy_eq c.block c.len.toNat bytes remLen.toNat
    (by omega) (by omega)
  rw [hcopy, Option.bind_eq_bind, Option.bind_some]
  split
  · rename_i h
    have hfit : c.len.toNat + len.toNat < 64 := by
      rwa [UInt32.lt_iff_toNat_lt, hadd] at h
    have hall : remLen.toNat = len.toNat := by omega
    exact ⟨_, rfl, hc.keep hlen hfit (by rw [hblock, hall])⟩
  · rename_i h
    have hfull : 64 ≤ c.len.toNat + len.toNat := by
      rw [UInt32.lt_iff_toNat_lt, hadd] at h
      exact Nat.le_of_not_lt h
    have hnew : (len - remLen).toNat = len.toNat - remLen.toNat := by
      rw [UInt32.toNat_sub]
      omega
    generalize len - remLen = newLen at hnew
    have hnb : (newLen / 64).toNat = newLen.toNat / 64 := UInt32.toNat_div newLen 64
    have hlast : (newLen % 64).toNat = newLen.toNat % 64 := UInt32.toNat_mod newLen 64
    generalize newLen / 64 = blockNb at hnb
    have hshift : (blockNb <<< 6).toNat = 64 * blockNb.toNat := by
      rw [toNat_shiftLeft_six]
      omega
    obtain ⟨h₁, hrun₁, hwords₁⟩ := transform_eq block.toList 1
      (by decide) (by simp) c.h
    obtain ⟨h₂, hrun₂, hwords₂⟩ := transform_eq (bytes.drop remLen.toNat) blockNb
      (by omega) (by rw [List.length_drop]; omega) h₁
    obtain ⟨block', hcopy', hblock'⟩ := memcpy_eq block 0
      ((bytes.drop remLen.toNat).drop (blockNb <<< 6).toNat) (newLen % 64).toNat
      (by omega) (by rw [List.length_drop, List.length_drop]; omega)
    simp only [hrun₁, hrun₂, hcopy', Option.bind_eq_bind, Option.bind_some]
    have hsplit : len.toNat = remLen.toNat + (64 * blockNb.toNat + (newLen % 64).toNat) := by omega
    have hrest : ((bytes.drop remLen.toNat).drop (64 * blockNb.toNat)).length =
        bytes.length - remLen.toNat - 64 * blockNb.toNat := by
      rw [List.length_drop, List.length_drop]
    have hleft : (((bytes.drop remLen.toNat).drop (64 * blockNb.toNat)).take
        (newLen % 64).toNat).length = (newLen % 64).toNat := by
      rw [List.length_take, hrest]
      omega
    have hwhole : ((bytes.drop remLen.toNat).take (64 * blockNb.toNat)).length =
        64 * blockNb.toNat := by
      rw [List.length_take, List.length_drop]
      omega
    have hfirst : (bytes.take remLen.toNat).length = 64 - c.len.toNat := by
      rw [List.length_take]
      omega
    have hpending : (c.block.toList.take c.len.toNat ++ bytes.take remLen.toNat).length = 64 := by
      rw [hc.block, List.length_append, hc.length_rest, hfirst]
      omega
    rw [hshift] at hblock'
    rw [hsplit, List.take_add, List.take_add]
    refine ⟨_, rfl, hc.flush hfirst (by omega) (by omega) hleft.symm ?_ ?_ ?_⟩
    · rw [hblock', List.take_zero, List.nil_append, List.take_left]
    · rw [hwords₂, hwords₁, hblock, UInt32.toNat_one, Nat.mul_one, ← hpending, List.take_left]
    · have htot : (blockNb + 1) <<< 6 = UInt32.ofNat (64 + 64 * blockNb.toNat) := by
        rw [← UInt32.toNat_inj, toNat_shiftLeft_six, UInt32.toNat_add, UInt32.toNat_ofNat',
          UInt32.toNat_one]
        omega
      rw [htot, hwhole]

/-- The bytes that `final` compresses: those that are left, a one bit, zeros, and the
low 32 bits of the length in bits. -/
theorem Holds.pad {c : SHA256} {message : Bytes} (hc : Holds c message) (lenB : UInt32)
    {k pmLen : ℕ} (hk : c.len.toNat + 1 + k + 4 = pmLen) (hpm : pmLen ≤ 128) :
    ∃ b₁ b₂ b₃, memset c.block c.len.toNat (pmLen - c.len.toNat) = some b₁ ∧
      memcpy b₁ c.len.toNat [0x80] 1 = some b₂ ∧
      memcpy b₂ (pmLen - 4) (unpack32 lenB) 4 = some b₃ ∧
      b₃.toList.take pmLen =
        rest 64 message ++ (0x80 :: List.replicate k 0) ++ unpack32 lenB := by
  have hlen := hc.length_rest
  have hzeros : List.replicate (pmLen - c.len.toNat) (0 : UInt8) =
      [0] ++ (List.replicate k 0 ++ List.replicate 4 0) := by
    rw [← List.replicate_add, show pmLen - c.len.toNat = 1 + (k + 4) by omega, List.replicate_add]
    rfl
  obtain ⟨b₁, h₁, hb₁⟩ := memcpy_eq c.block c.len.toNat
    (List.replicate (pmLen - c.len.toNat) 0) (pmLen - c.len.toNat) (by omega) (by simp)
  rw [hc.block, List.take_of_length_le (by simp), hzeros] at hb₁
  generalize c.block.toList.drop (c.len.toNat + (pmLen - c.len.toNat)) = after at hb₁
  have hdst₁ : b₁.toList =
      rest 64 message ++ ([0] ++ (List.replicate k 0 ++ List.replicate 4 0 ++ after)) := by
    rw [hb₁]
    simp only [List.append_assoc]
  obtain ⟨b₂, h₂, hb₂⟩ := memcpy_over [0x80] hdst₁ rfl
  have hdst₂ : b₂.toList = rest 64 message ++ (0x80 :: List.replicate k 0) ++
      (List.replicate 4 0 ++ after) := by
    rw [hb₂]
    simp
  obtain ⟨b₃, h₃, hb₃⟩ := memcpy_over (unpack32 lenB) hdst₂ rfl
  have hfront : (rest 64 message ++ (0x80 :: List.replicate k 0)).length = pmLen - 4 := by
    simp only [List.length_append, List.length_cons, List.length_replicate, hlen]
    omega
  rw [hlen] at h₂
  rw [hfront] at h₃
  refine ⟨b₁, b₂, b₃, h₁, h₂, h₃, ?_⟩
  rw [hb₃, ← List.append_assoc]
  apply List.take_left'
  rw [List.length_append, hfront]
  show pmLen - 4 + 4 = pmLen
  omega

/-- What follows the bytes that are left is the standard's padding, for the length
in bits modulo `2 ^ 32`. -/
theorem padding_eq {n k : ℕ} {lenB : UInt32} (hk : (n % 64 + 1 + k + 4) % 64 = 0) (hlt : k < 68)
    (hle : 4 ≤ k) (hlen : lenB.toNat = 8 * n % 2 ^ 32) :
    (0x80 :: List.replicate k 0) ++ unpack32 lenB = padding (n % 2 ^ 29) := by
  have hhigh : 8 * (n % 2 ^ 29) / 2 ^ 32 = 0 := by omega
  have hlow : lenB.toBitVec = BitVec.ofNat 32 (8 * (n % 2 ^ 29)) := by
    apply BitVec.eq_of_toNat_eq
    rw [UInt32.toNat_toBitVec, hlen, BitVec.toNat_ofNat]
    omega
  have hzeros : List.replicate k (0 : UInt8) =
      List.replicate ((119 - n % 2 ^ 29 % 64) % 64) 0 ++ wordBytes (BitVec.ofNat 32 0) := by
    rw [show k = (119 - n % 2 ^ 29 % 64) % 64 + 4 by omega, List.replicate_add]
    rfl
  rw [padding, hhigh, ← hlow, hzeros, unpack32_eq]
  simp only [List.cons_append, List.append_assoc]

theorem bytes_toWords (h : Vector UInt32 8) : h.toList.flatMap unpack32 = (toWords h).bytes := by
  obtain ⟨⟨l⟩, hl⟩ := h
  match l, hl with
  | [_, _, _, _, _, _, _, _], _ =>
    simp [toWords, Words.bytes, unpack32_eq]

/-- `final` hashes the padded message, and stays within its arrays. -/
theorem Holds.final {c : SHA256} {message : Bytes} (hc : Holds c message) :
    ∃ c', final c = some ((absorb 64 compress initialHash
      (message ++ padding (message.length % 2 ^ 29))).bytes, c') := by
  have hcl := hc.len
  have hbits : ((c.totLen + c.len) <<< 3).toNat = 8 * message.length % 2 ^ 32 := by
    rw [UInt32.toNat_shiftLeft, Nat.shiftLeft_eq, UInt32.toNat_add, hc.totLen, UInt32.toNat_ofNat']
    have h8 : 2 ^ (UInt32.toNat 3 % 32) = 8 := rfl
    rw [h8]
    omega
  obtain ⟨k, hk, hlt, hle, hpm⟩ : ∃ k,
      c.len.toNat + 1 + k + 4 = 64 * (1 + if 64 - 9 < c.len % 64 then 1 else 0 : UInt32).toNat ∧
      k < 68 ∧ 4 ≤ k ∧ (1 + if 64 - 9 < c.len % 64 then 1 else 0 : UInt32).toNat ≤ 2 := by
    have hmod : (c.len % 64).toNat = c.len.toNat := by
      rw [UInt32.toNat_mod]
      have h64 : UInt32.toNat 64 = 64 := rfl
      rw [h64]
      omega
    have hiff : (64 - 9 < c.len % 64) ↔ 55 < c.len.toNat := by
      rw [UInt32.lt_iff_toNat_lt, hmod]
      rfl
    by_cases h : 55 < c.len.toNat
    · rw [if_pos (hiff.mpr h)]
      exact ⟨123 - c.len.toNat, by show _ = 64 * 2; omega, by omega, by omega, le_rfl⟩
    · rw [if_neg (mt hiff.mp h)]
      exact ⟨59 - c.len.toNat, by show _ = 64 * 1; omega, by omega, by omega, by decide⟩
  unfold Sha256.final
  dsimp only
  generalize (1 + if 64 - 9 < c.len % 64 then 1 else 0 : UInt32) = blockNb at hk hpm
  generalize (c.totLen + c.len) <<< 3 = lenB at hbits
  have hpmLen : (blockNb <<< 6).toNat = 64 * blockNb.toNat := by
    rw [toNat_shiftLeft_six]
    omega
  have hsub : (blockNb <<< 6 - c.len).toNat = 64 * blockNb.toNat - c.len.toNat := by
    rw [UInt32.toNat_sub, hpmLen]
    omega
  obtain ⟨b₁, b₂, b₃, h₁, h₂, h₃, hbytes⟩ := hc.pad lenB hk (by omega)
  obtain ⟨h, hrun, hwords⟩ := transform_eq b₃.toList blockNb (by omega)
    (by rw [Vector.length_toList]; omega) c.h
  rw [hsub, hpmLen, h₁]
  simp only [h₂, h₃, hrun, Option.bind_eq_bind, Option.bind_some]
  refine ⟨{ c with block := b₃, h }, ?_⟩
  rw [bytes_toWords, hwords, hbytes, List.append_assoc,
    padding_eq (by omega) hlt hle hbits, absorb_append (by decide) message, hc.h]
  rfl

/-! ## Main results -/

/-- A message that comes in pieces. -/
def updateAll (c : SHA256) (pieces : List Bytes) : Option SHA256 :=
  pieces.foldlM (fun c piece => update c piece (UInt32.ofNat piece.length)) c

theorem Holds.updateAll {c : SHA256} {message : Bytes} (hc : Holds c message)
    (pieces : List Bytes) (h : ∀ piece ∈ pieces, piece.length < 2 ^ 31) :
    ∃ c', updateAll c pieces = some c' ∧ Holds c' (message ++ pieces.flatten) := by
  induction pieces generalizing c message with
  | nil => exact ⟨c, rfl, by rwa [List.flatten_nil, List.append_nil]⟩
  | cons piece pieces ih =>
    have hp := h piece List.mem_cons_self
    have hlen : (UInt32.ofNat piece.length).toNat = piece.length := by
      rw [UInt32.toNat_ofNat']
      omega
    obtain ⟨c₁, hrun, hc₁⟩ := hc.update piece hlen.le (by omega)
    rw [hlen, List.take_length] at hc₁
    obtain ⟨c₂, hruns, hc₂⟩ := ih hc₁ fun q hq => h q (List.mem_cons_of_mem _ hq)
    refine ⟨c₂, ?_, by rwa [List.flatten_cons, ← List.append_assoc]⟩
    rw [Sha256.updateAll, List.foldlM_cons, hrun]
    exact hruns

/-- However a message is cut into pieces, the class computes the standard's digest of
the whole, without an access out of bounds. -/
theorem digest_of_pieces (pieces : List Bytes) (h : pieces.flatten.length < 2 ^ 29) :
    ∃ c c', updateAll init pieces = some c ∧ final c = some (digest pieces.flatten, c') := by
  have hpieces : ∀ piece ∈ pieces, piece.length < 2 ^ 31 := by
    intro piece hp
    have hle := (List.sublist_flatten_of_mem hp).length_le
    omega
  obtain ⟨c, hrun, hc⟩ := holds_init.updateAll pieces hpieces
  rw [List.nil_append] at hc
  obtain ⟨c', hfinal⟩ := hc.final
  rw [Nat.mod_eq_of_lt h] at hfinal
  exact ⟨c, c', hrun, hfinal⟩

theorem digest_of_pieces_abc : ∃ c c', updateAll init [str "a", str "bc"] = some c ∧
    final c = some (digest [str "a", str "bc"].flatten, c') :=
  digest_of_pieces [str "a", str "bc"] (by decide)

theorem sha256_eq {input : Bytes} (h : input.length < 2 ^ 31) :
    sha256 input = some ((absorb 64 compress initialHash
      (input ++ padding (input.length % 2 ^ 29))).bytes.flatMap hexByte) := by
  obtain ⟨c, hrun, hc⟩ := holds_init.updateAll [input] (by simpa using h)
  obtain ⟨c', hfinal⟩ := hc.final
  have hctx : update init input (UInt32.ofNat input.length) = some c := by
    simpa [updateAll] using hrun
  simp only [List.flatten_cons, List.flatten_nil, List.append_nil, List.nil_append] at hfinal
  simp only [sha256, hctx, hfinal, Option.bind_eq_bind, Option.bind_some]
  rfl

/-- `sha256` returns the digits of the standard's digest. -/
theorem sha256_eq_standard (input : Bytes) (h : input.length < 2 ^ 29) :
    sha256 input = some ((digest input).flatMap hexByte) := by
  rw [sha256_eq (by omega), Nat.mod_eq_of_lt h]
  rfl

theorem sha256_eq_standard_abc :
    sha256 (str "abc") = some ((digest (str "abc")).flatMap hexByte) :=
  sha256_eq_standard (str "abc") (by decide)

example : sha256 (str "abc") =
    some (str "ba7816bf8f01cfea414140de5dae2223b00361a396177a9cb410ff61f20015ad") := by
  decide +kernel

end IsolationServer.Sha256
