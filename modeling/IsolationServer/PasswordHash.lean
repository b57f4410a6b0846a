import IsolationServer.Sha256Correct

/-!
# What the hash says about a password

The digits determine the digest, the digest determines the hash value, and a padded
message does not end in another one. Two different passwords with the same hash
therefore make the compression function collide, on blocks of theirs.
-/
namespace IsolationServer.Sha256
open BlockHash Sha256Standard

/-! ## The digits -/

/-- The byte that two digits stand for. -/
def unhexByte : Bytes → UInt8
  | [a, b] => (if a < 58 then a - 48 else a - 87) <<< 4 ||| (if b < 58 then b - 48 else b - 87)
  | _ => 0

theorem hexByte_injective : Function.Injective hexByte := by
  have hinv : ∀ a : Fin 256, unhexByte (hexByte (UInt8.ofFin a)) = UInt8.ofFin a := by
    decide +kernel
  exact Function.LeftInverse.injective (g := unhexByte) fun b => hinv b.toFin

theorem digits_injective : Function.Injective (List.flatMap hexByte) := by
  intro xs
  induction xs with
  | nil =>
    intro ys h
    cases ys with
    | nil => rfl
    | cons y ys => simp [hexByte] at h
  | cons x xs ih =>
    intro ys h
    cases ys with
    | nil => simp [hexByte] at h
    | cons y ys =>
      rw [List.flatMap_cons, List.flatMap_cons] at h
      obtain ⟨hxy, hrest⟩ := List.append_inj h rfl
      rw [hexByte_injective hxy, ih hrest]

theorem wordBytes_injective : Function.Injective wordBytes := by
  have hbytes : ∀ x : Word, wordOf ⟨x.extractLsb' 24 8⟩ ⟨x.extractLsb' 16 8⟩ ⟨x.extractLsb' 8 8⟩
      ⟨x.extractLsb' 0 8⟩ = x := by
    intro x
    have h16 : x.extractLsb' 24 8 ++ x.extractLsb' 16 8 = x.extractLsb' 16 16 :=
      BitVec.extractLsb'_append_extractLsb'_eq_extractLsb' rfl
    have h8 : x.extractLsb' 16 16 ++ x.extractLsb' 8 8 = x.extractLsb' 8 24 :=
      BitVec.extractLsb'_append_extractLsb'_eq_extractLsb' rfl
    simp only [wordOf]
    rw [h16, h8]
    exact (BitVec.extractLsb'_append_extractLsb' : x.extractLsb' 8 24 ++ x.extractLsb' 0 8 = x)
  intro v w h
  simp only [wordBytes, List.cons.injEq, and_true] at h
  obtain ⟨h0, h1, h2, h3⟩ := h
  rw [← hbytes v, ← hbytes w, h0, h1, h2, h3]

theorem bytes_injective : Function.Injective Words.bytes := by
  intro v w h
  have hlen : ∀ x y : Word, (wordBytes x).length = (wordBytes y).length := fun _ _ => rfl
  simp only [Words.bytes, List.append_assoc] at h
  obtain ⟨ha, h⟩ := List.append_inj h (hlen _ _)
  obtain ⟨hb, h⟩ := List.append_inj h (hlen _ _)
  obtain ⟨hc, h⟩ := List.append_inj h (hlen _ _)
  obtain ⟨hd, h⟩ := List.append_inj h (hlen _ _)
  obtain ⟨he, h⟩ := List.append_inj h (hlen _ _)
  obtain ⟨hf, h⟩ := List.append_inj h (hlen _ _)
  obtain ⟨hg, hh⟩ := List.append_inj h (hlen _ _)
  cases v
  cases w
  simp only [Words.mk.injEq]
  exact ⟨wordBytes_injective ha, wordBytes_injective hb, wordBytes_injective hc,
    wordBytes_injective hd, wordBytes_injective he, wordBytes_injective hf,
    wordBytes_injective hg, wordBytes_injective hh⟩

/-! ## Padded messages -/

theorem length_padded (message : Bytes) : (message ++ padding message.length).length % 64 = 0 := by
  have hpad : (padding message.length).length = 1 + (119 - message.length % 64) % 64 + 4 + 4 := by
    simp only [padding, List.length_append, List.length_cons, List.length_replicate]
    show _ + 4 + 4 = _
    omega
  rw [List.length_append, hpad]
  omega

/-- The length that a padded message ends in. -/
theorem length_eq_of_padded_suffix {a b : Bytes} (ha : a.length < 2 ^ 29) (hb : b.length < 2 ^ 29)
    (h : a ++ padding a.length <:+ b ++ padding b.length) : a.length = b.length := by
  obtain ⟨front, hfront⟩ := h
  simp only [padding, ← List.append_assoc] at hfront
  have hlow := (List.append_inj' hfront rfl).2
  have hnat := congrArg BitVec.toNat (wordBytes_injective hlow)
  rw [BitVec.toNat_ofNat, BitVec.toNat_ofNat] at hnat
  omega

/-- No padded message ends in another one. -/
theorem eq_of_padded_suffix {a b : Bytes} (ha : a.length < 2 ^ 29) (hb : b.length < 2 ^ 29)
    (h : blocks 64 (a ++ padding a.length) <:+ blocks 64 (b ++ padding b.length)) : a = b := by
  have hflat : a ++ padding a.length <:+ b ++ padding b.length := by
    rw [← flatten_blocks_of_mod_eq_zero (by decide) (length_padded a),
      ← flatten_blocks_of_mod_eq_zero (by decide) (length_padded b)]
    obtain ⟨front, hfront⟩ := h
    exact ⟨front.flatten, by rw [← hfront, List.flatten_append]⟩
  have hlen := length_eq_of_padded_suffix ha hb hflat
  have hsame := hflat.eq_of_length (by rw [List.length_append, List.length_append, hlen])
  exact (List.append_inj hsame hlen).1

/-- A collision of the compression function, met while hashing `a` and `b`. -/
def Collides (a b : Bytes) : Prop :=
  ∃ p ∈ links compress initialHash (blocks 64 (a ++ padding a.length)),
    ∃ q ∈ links compress initialHash (blocks 64 (b ++ padding b.length)),
      p ≠ q ∧ compress p.1 p.2 = compress q.1 q.2

/-- Two passwords with the same hash are the same, or blocks of theirs are compressed
to the same value from different inputs. -/
theorem same_hash_cases (a b : Bytes) (ha : a.length < 2 ^ 29) (hb : b.length < 2 ^ 29)
    (h : sha256 a = sha256 b) : a = b ∨ Collides a b := by
  by_cases hab : a = b
  · exact .inl hab
  · rw [sha256_eq_standard a ha, sha256_eq_standard b hb] at h
    have hhash : Sha256Standard.hash a = Sha256Standard.hash b :=
      bytes_injective (digits_injective (Option.some.inj h))
    refine .inr (collision_of_foldl_eq _ _ hhash ?_ ?_)
    · exact fun hs => hab (eq_of_padded_suffix ha hb hs)
    · exact fun hs => hab (eq_of_padded_suffix hb ha hs).symm

theorem same_hash_cases_pw : str "pw" = str "pw" ∨ Collides (str "pw") (str "pw") :=
  same_hash_cases (str "pw") (str "pw") (by decide) (by decide) rfl

end IsolationServer.Sha256
