import Mathlib

/-!
# UTF-8 by lead bytes

A lead byte announces the number of bytes of its character. Cutting a string at
the announced lengths gives groups of bytes, the last of which may fall short.
A group spells a number, and it is the encoding of a Unicode scalar value unless
it has one of five defects: it is truncated, a byte after the lead is no
continuation byte, or the number is spelled too long, is a surrogate or is above
U+10FFFF. Scalar values are `Char`, and their encoding is `String.utf8EncodeChar`.
-/
namespace IsolationServer.Utf8

/-- The well-formed encoding of a sequence of `n` scalar values. -/
def IsUtf8 (n : ℕ) (s : List UInt8) : Prop :=
  ∃ cs : List Char, cs.length = n ∧ s = cs.flatMap String.utf8EncodeChar

/-- The number of bytes of the character that a lead byte begins. -/
def announced (b : UInt8) : Option ℕ :=
  if b.toNat < 0x80 then some 1
  else if b.toNat < 0xC0 then none
  else if b.toNat < 0xE0 then some 2
  else if b.toNat < 0xF0 then some 3
  else if b.toNat < 0xF8 then some 4
  else none

/-- The string cut at the lengths that its lead bytes announce. -/
inductive Groups : List UInt8 → List (List UInt8) → Prop where
  | nil : Groups [] []
  | cons {b : UInt8} {rest : List UInt8} {k : ℕ} {gs : List (List UInt8)}
      (lead : announced b = some (k + 1)) (tail : Groups (rest.drop k) gs) :
      Groups (b :: rest) ((b :: rest.take k) :: gs)

/-- The number that a group of bytes spells. -/
def value : List UInt8 → ℕ
  | [a] => a.toNat
  | [a, b] => a.toNat % 32 * 64 + b.toNat % 64
  | [a, b, c] => a.toNat % 16 * 4096 + b.toNat % 64 * 64 + c.toNat % 64
  | [a, b, c, d] =>
      a.toNat % 8 * 262144 + b.toNat % 64 * 4096 + c.toNat % 64 * 64 + d.toNat % 64
  | _ => 0

/-- The least number that needs a group of this many bytes. -/
def least : ℕ → ℕ
  | 2 => 0x80
  | 3 => 0x800
  | 4 => 0x10000
  | _ => 0

def IsContinuation (b : UInt8) : Prop := 0x80 ≤ b.toNat ∧ b.toNat < 0xC0

/-- The defects of a group of bytes. -/
inductive Malformed : List UInt8 → Prop where
  | truncated {b : UInt8} {tail : List UInt8} {n : ℕ} (lead : announced b = some n)
      (short : tail.length + 1 < n) : Malformed (b :: tail)
  | continuation {b c : UInt8} {tail : List UInt8} (mem : c ∈ tail) (bad : ¬IsContinuation c) :
      Malformed (b :: tail)
  | overlong {g : List UInt8} (h : value g < least g.length) : Malformed g
  | surrogate {g : List UInt8} (lower : 0xD800 ≤ value g) (upper : value g < 0xE000) : Malformed g
  | tooLarge {g : List UInt8} (h : 0x110000 ≤ value g) : Malformed g

theorem announced_eq_some_iff (b : UInt8) (n : ℕ) : announced b = some n ↔
    n = 1 ∧ b.toNat < 0x80 ∨ n = 2 ∧ 0xC0 ≤ b.toNat ∧ b.toNat < 0xE0 ∨
      n = 3 ∧ 0xE0 ≤ b.toNat ∧ b.toNat < 0xF0 ∨ n = 4 ∧ 0xF0 ≤ b.toNat ∧ b.toNat < 0xF8 := by
  unfold announced
  split_ifs <;> simp only [Option.some.injEq, false_iff] <;> omega

/-- A group of bytes that spells `v` in full and in the shortest way. -/
structure Spells (v : ℕ) (b : UInt8) (tail : List UInt8) : Prop where
  lead : announced b = some (tail.length + 1)
  continuation : ∀ c ∈ tail, IsContinuation c
  value_eq : value (b :: tail) = v
  least_le : least (tail.length + 1) ≤ v

theorem spells_utf8EncodeChar (c : Char) : ∃ b tail,
    String.utf8EncodeChar c = b :: tail ∧ Spells c.val.toNat b tail := by
  have hc : c.val.toNat.isValidChar := c.valid
  unfold String.utf8EncodeChar
  generalize c.val.toNat = v at hc
  unfold Nat.isValidChar at hc
  dsimp only
  split_ifs with h1 h2 h3
  all_goals
    refine ⟨_, _, rfl, (announced_eq_some_iff _ _).mpr ?_, ?_, ?_, ?_⟩
    all_goals
      simp only [List.length_cons, List.length_nil, List.forall_mem_cons, List.not_mem_nil,
        false_implies, implies_true, and_true, true_and, Nat.reduceAdd, IsContinuation, value,
        least, UInt8.toNat_ofNat']
      try omega

theorem ofNat_eq {n : ℕ} {b : UInt8} (h : n = b.toNat) : UInt8.ofNat n = b := by
  rw [h, UInt8.ofNat_toNat]

/-- The shortest full spelling of a scalar value is its encoding. -/
theorem utf8EncodeChar_of_spells {v : ℕ} {b : UInt8} {tail : List UInt8} (h : Spells v b tail)
    (hv : v.isValidChar) : ∃ c : Char, String.utf8EncodeChar c = b :: tail := by
  have hn : (Char.ofNat v).val.toNat = v := by
    rw [Char.ofNat, dif_pos hv]
    rfl
  obtain ⟨lead, continuation, value_eq, least_le⟩ := h
  refine ⟨Char.ofNat v, ?_⟩
  unfold String.utf8EncodeChar
  rw [hn]
  dsimp only
  rw [announced_eq_some_iff] at lead
  simp only [IsContinuation] at continuation
  match tail with
  | [] =>
      simp only [List.length_nil, value] at lead value_eq
      rw [if_pos (by omega), ofNat_eq value_eq.symm]
  | [x] =>
      simp only [List.length_cons, List.length_nil, value, least, List.forall_mem_cons]
        at lead value_eq least_le continuation
      rw [if_neg (by omega), if_pos (by omega), ofNat_eq (b := b) (by omega),
        ofNat_eq (b := x) (by omega)]
  | [x, y] =>
      simp only [List.length_cons, List.length_nil, value, least, List.forall_mem_cons]
        at lead value_eq least_le continuation
      rw [if_neg (by omega), if_neg (by omega), if_pos (by omega), ofNat_eq (b := b) (by omega),
        ofNat_eq (b := x) (by omega), ofNat_eq (b := y) (by omega)]
  | [x, y, z] =>
      simp only [List.length_cons, List.length_nil, value, least, List.forall_mem_cons]
        at lead value_eq least_le continuation
      rw [if_neg (by omega), if_neg (by omega), if_neg (by omega), ofNat_eq (b := b) (by omega),
        ofNat_eq (b := x) (by omega), ofNat_eq (b := y) (by omega), ofNat_eq (b := z) (by omega)]
  | _ :: _ :: _ :: _ :: _ => simp only [List.length_cons] at lead; omega

/-- A group that is not cut short by more bytes than announced has a defect or is a character. -/
theorem encodes_iff {b : UInt8} {tail : List UInt8} {n : ℕ} (lead : announced b = some n)
    (fits : tail.length + 1 ≤ n) :
    (∃ c : Char, String.utf8EncodeChar c = b :: tail) ↔ ¬Malformed (b :: tail) := by
  constructor
  · rintro ⟨c, hc⟩ bad
    obtain ⟨b', tail', he, hs⟩ := spells_utf8EncodeChar c
    obtain ⟨rfl, rfl⟩ : b' = b ∧ tail' = tail := by
      simpa only [hc, List.cons.injEq, eq_comm] using he
    have hv : c.val.toNat.isValidChar := c.valid
    unfold Nat.isValidChar at hv
    have hval := hs.value_eq
    cases bad with
    | truncated lead' short =>
        have := hs.lead.symm.trans lead'
        simp only [Option.some.injEq] at this
        omega
    | continuation mem bad => exact bad (hs.continuation _ mem)
    | overlong h =>
        have := hs.least_le
        simp only [List.length_cons] at h
        omega
    | surrogate lower upper => omega
    | tooLarge h => omega
  · intro sound
    have full : announced b = some (tail.length + 1) := by
      rcases lt_or_eq_of_le fits with short | rfl
      · exact absurd (.truncated lead short) sound
      · exact lead
    have small : value (b :: tail) < 0x110000 := not_le.mp fun h => sound (.tooLarge h)
    have long : least (tail.length + 1) ≤ value (b :: tail) :=
      not_lt.mp fun h => sound (.overlong h)
    have scalar : (value (b :: tail)).isValidChar := by
      unfold Nat.isValidChar
      by_contra h
      exact sound (.surrogate (by omega) (by omega))
    refine utf8EncodeChar_of_spells ⟨full, ?_, rfl, long⟩ scalar
    intro c mem
    by_contra bad
    exact sound (.continuation mem bad)

namespace Groups

@[simp] theorem nil_iff (gs : List (List UInt8)) : Groups [] gs ↔ gs = [] := by
  constructor
  · intro h
    cases h
    rfl
  · rintro rfl
    exact .nil

theorem cons_iff (b : UInt8) (rest : List UInt8) (gs : List (List UInt8)) :
    Groups (b :: rest) gs ↔ ∃ k gs', announced b = some (k + 1) ∧ Groups (rest.drop k) gs' ∧
      gs = (b :: rest.take k) :: gs' := by
  constructor
  · intro h
    cases h with
    | cons lead tail => exact ⟨_, _, lead, tail, rfl⟩
  · rintro ⟨k, gs', lead, tail, rfl⟩
    exact .cons lead tail

theorem flatten {s : List UInt8} {gs : List (List UInt8)} (h : Groups s gs) : gs.flatten = s := by
  induction h with
  | nil => rfl
  | cons lead tail ih => rw [List.flatten_cons, ih, List.cons_append, List.take_append_drop]

theorem unique {s : List UInt8} {gs gs' : List (List UInt8)} (h : Groups s gs)
    (h' : Groups s gs') : gs = gs' := by
  induction h generalizing gs' with
  | nil => exact ((nil_iff gs').mp h').symm
  | cons lead tail ih =>
      obtain ⟨k', gs'', lead', tail', rfl⟩ := (cons_iff _ _ _).mp h'
      obtain rfl := Nat.succ.inj (Option.some.inj (lead.symm.trans lead'))
      rw [ih tail']

/-- An encoding is cut into its characters. -/
theorem flatMap_utf8EncodeChar (cs : List Char) :
    Groups (cs.flatMap String.utf8EncodeChar) (cs.map String.utf8EncodeChar) := by
  induction cs with
  | nil => exact .nil
  | cons c cs ih =>
      obtain ⟨b, tail, he, hs⟩ := spells_utf8EncodeChar c
      rw [List.flatMap_cons, List.map_cons, he, List.cons_append]
      have step := @Groups.cons b (tail ++ cs.flatMap String.utf8EncodeChar) tail.length
        (cs.map String.utf8EncodeChar) hs.lead
      rw [List.drop_left, List.take_left] at step
      exact step ih

theorem exists_chars {s : List UInt8} {gs : List (List UInt8)} (h : Groups s gs)
    (sound : ∀ g ∈ gs, ¬Malformed g) : ∃ cs : List Char, gs = cs.map String.utf8EncodeChar := by
  induction h with
  | nil => exact ⟨[], rfl⟩
  | @cons b rest k gs lead tail ih =>
      obtain ⟨cs, rfl⟩ := ih fun g hg => sound g (List.mem_cons_of_mem _ hg)
      have fits : (rest.take k).length + 1 ≤ k + 1 := by
        rw [List.length_take]
        omega
      obtain ⟨c, hc⟩ := (encodes_iff lead fits).mpr (sound _ List.mem_cons_self)
      exact ⟨c :: cs, by rw [List.map_cons, hc]⟩

end Groups

/-- A string is UTF-8 exactly if it can be cut and no group has a defect. -/
theorem isUtf8_iff (n : ℕ) (s : List UInt8) : IsUtf8 n s ↔
    ∃ gs, Groups s gs ∧ gs.length = n ∧ ∀ g ∈ gs, ¬Malformed g := by
  constructor
  · rintro ⟨cs, rfl, rfl⟩
    refine ⟨_, Groups.flatMap_utf8EncodeChar cs, List.length_map _, ?_⟩
    intro g hg
    obtain ⟨c, -, rfl⟩ := List.mem_map.mp hg
    obtain ⟨b, tail, he, hs⟩ := spells_utf8EncodeChar c
    rw [he]
    exact (encodes_iff hs.lead le_rfl).mp ⟨c, he⟩
  · rintro ⟨gs, hgs, rfl, sound⟩
    obtain ⟨cs, rfl⟩ := hgs.exists_chars sound
    exact ⟨cs, (List.length_map _).symm, by rw [← hgs.flatten, List.flatMap_def]⟩

end IsolationServer.Utf8
