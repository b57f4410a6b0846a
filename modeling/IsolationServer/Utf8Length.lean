import IsolationServer.Keys
import IsolationServer.Utf8

/-!
# The length of a string in characters

`utf8_length` counts lead bytes. It takes the length of every character from its
lead byte and never looks at the bytes in between, so that it counts the groups
of the string, sound or not, and refuses a string only at a byte that begins no
character. Where every group is sound its answer is exact.
-/
namespace IsolationServer.Utf8Length
open Utf8

/-- `char_len`, by the bit masks of the source. -/
def charLen (c : UInt8) : Option ℕ :=
  if c &&& 0x80 = 0 then some 1
  else if c &&& 0xE0 = 0xC0 then some 2
  else if c &&& 0xF0 = 0xE0 then some 3
  else if c &&& 0xF8 = 0xF0 then some 4
  else none

theorem charLen_eq (c : UInt8) : charLen c = announced c := by
  have h : ∀ n < 256, charLen (UInt8.ofNat n) = announced (UInt8.ofNat n) := by
    decide +kernel
  rw [← UInt8.ofNat_toNat (x := c)]
  exact h _ c.toNat_lt

theorem charLen_pos {c : UInt8} {n : ℕ} (h : charLen c = some n) : 0 < n := by
  rw [charLen_eq, announced_eq_some_iff] at h
  omega

/-- The loop of `utf8_length`, which stops wherever `i` has come to or past the end. -/
def utf8LengthLoop (strview : Bytes) (i len : ℕ) : Except String ℕ :=
  if h : i < strview.length then
    match hn : charLen strview[i] with
    | none => .error "Invalid UTF-8"
    | some n => utf8LengthLoop strview (i + n) (len + 1)
  else .ok len
termination_by strview.length - i
decreasing_by
  have := charLen_pos hn
  omega

def utf8Length (strview : Bytes) : Except String ℕ := utf8LengthLoop strview 0 0

section Loop

variable {s : Bytes} {i n : ℕ} (len : ℕ)

theorem utf8LengthLoop_end (h : s.length ≤ i) : utf8LengthLoop s i len = .ok len := by
  rw [utf8LengthLoop, dif_neg (not_lt.mpr h)]

theorem utf8LengthLoop_stray (h : i < s.length) (hn : charLen s[i] = none) :
    utf8LengthLoop s i len = .error "Invalid UTF-8" := by
  rw [utf8LengthLoop, dif_pos h]
  split <;> simp_all only [reduceCtorEq]

theorem utf8LengthLoop_step (h : i < s.length) (hn : charLen s[i] = some n) :
    utf8LengthLoop s i len = utf8LengthLoop s (i + n) (len + 1) := by
  rw [utf8LengthLoop, dif_pos h]
  split <;> simp_all only [reduceCtorEq, Option.some.injEq]

end Loop

/-- The loop counts the groups that are left. -/
theorem utf8LengthLoop_eq_ok_iff (s : Bytes) (i len n : ℕ) : utf8LengthLoop s i len = .ok n ↔
    ∃ gs, Groups (s.drop i) gs ∧ len + gs.length = n := by
  induction i, len using utf8LengthLoop.induct s with
  | case1 i len h hn =>
      rw [utf8LengthLoop_stray len h hn, List.drop_eq_getElem_cons h]
      rw [charLen_eq] at hn
      simp only [Groups.cons_iff, hn, reduceCtorEq, false_and, exists_false]
  | case2 i len h k hn ih =>
      rw [utf8LengthLoop_step len h hn, ih, List.drop_eq_getElem_cons h]
      obtain ⟨k, rfl⟩ := Nat.exists_eq_succ_of_ne_zero (charLen_pos hn).ne'
      rw [charLen_eq] at hn
      have rest : (s.drop (i + 1)).drop k = s.drop (i + k.succ) := by
        rw [List.drop_drop, Nat.succ_eq_add_one, Nat.add_right_comm, Nat.add_assoc]
      constructor
      · rintro ⟨gs, hgs, rfl⟩
        refine ⟨_, .cons hn (rest ▸ hgs), ?_⟩
        rw [List.length_cons]
        omega
      · rintro ⟨gs, hgs, rfl⟩
        obtain ⟨k', gs', lead, tail, rfl⟩ := (Groups.cons_iff _ _ _).mp hgs
        obtain rfl := Nat.succ.inj (Option.some.inj (hn.symm.trans lead))
        refine ⟨gs', rest ▸ tail, ?_⟩
        rw [List.length_cons]
        omega
  | case3 i len h =>
      rw [utf8LengthLoop_end len (not_lt.mp h), List.drop_eq_nil_of_le (not_lt.mp h)]
      simp only [Except.ok.injEq, Groups.nil_iff, exists_eq_left, List.length_nil, Nat.add_zero]

theorem utf8LengthLoop_ok_or_error (s : Bytes) (i len : ℕ) :
    (∃ n, utf8LengthLoop s i len = .ok n) ∨ utf8LengthLoop s i len = .error "Invalid UTF-8" := by
  induction i, len using utf8LengthLoop.induct s with
  | case1 i len h hn => exact .inr (utf8LengthLoop_stray len h hn)
  | case2 i len h k hn ih => rwa [utf8LengthLoop_step len h hn]
  | case3 i len h => exact .inl ⟨len, utf8LengthLoop_end len (not_lt.mp h)⟩

theorem utf8Length_eq_ok_iff (s : Bytes) (n : ℕ) : utf8Length s = .ok n ↔
    ∃ gs, Groups s gs ∧ gs.length = n := by
  rw [utf8Length, utf8LengthLoop_eq_ok_iff, List.drop_zero]
  simp only [Nat.zero_add]

theorem utf8Length_eq_error_iff (s : Bytes) : utf8Length s = .error "Invalid UTF-8" ↔
    ∀ gs, ¬Groups s gs := by
  constructor
  · intro h gs hgs
    have ok := (utf8Length_eq_ok_iff s _).mpr ⟨gs, hgs, rfl⟩
    rw [h] at ok
    cases ok
  · intro h
    refine (utf8LengthLoop_ok_or_error s 0 0).resolve_left ?_
    rintro ⟨n, hn⟩
    obtain ⟨gs, hgs, -⟩ := (utf8Length_eq_ok_iff s n).mp hn
    exact h gs hgs

/-- UTF-8 is never refused, and counted right. -/
theorem utf8Length_of_isUtf8 {s : Bytes} {n : ℕ} (h : IsUtf8 n s) : utf8Length s = .ok n := by
  obtain ⟨gs, hgs, hn, -⟩ := (isUtf8_iff n s).mp h
  exact (utf8Length_eq_ok_iff s n).mpr ⟨gs, hgs, hn⟩

/-- The answer tells UTF-8 from every other string exactly if no counted group has a defect. -/
theorem utf8Length_exact_iff (s : Bytes) :
    (∀ n, utf8Length s = .ok n ↔ IsUtf8 n s) ∧
        (utf8Length s = .error "Invalid UTF-8" ↔ ∀ n, ¬IsUtf8 n s) ↔
      ∀ gs, Groups s gs → ∀ g ∈ gs, ¬Malformed g := by
  constructor
  · rintro ⟨exact_ok, -⟩ gs hgs
    have ok := (utf8Length_eq_ok_iff s _).mpr ⟨gs, hgs, rfl⟩
    obtain ⟨gs', hgs', -, sound⟩ := (isUtf8_iff _ s).mp ((exact_ok _).mp ok)
    rwa [hgs.unique hgs']
  · intro sound
    have exact_ok : ∀ n, utf8Length s = .ok n ↔ IsUtf8 n s := by
      refine fun n => ⟨fun ok => ?_, utf8Length_of_isUtf8⟩
      obtain ⟨gs, hgs, hn⟩ := (utf8Length_eq_ok_iff s n).mp ok
      exact (isUtf8_iff n s).mpr ⟨gs, hgs, hn, sound gs hgs⟩
    refine ⟨exact_ok, fun err n utf8 => ?_, fun none => ?_⟩
    · rw [(exact_ok n).mpr utf8] at err
      cases err
    · refine (utf8Length_eq_error_iff s).mpr fun gs hgs => ?_
      exact none _ ((exact_ok _).mp ((utf8Length_eq_ok_iff s _).mpr ⟨gs, hgs, rfl⟩))

/-- A last character cut short is counted as if it were whole. -/
theorem utf8Length_accepts_truncated :
    utf8Length [0xC3] = .ok 1 ∧ ∀ n, ¬IsUtf8 n [0xC3] := by
  have lead : announced 0xC3 = some 2 := by decide
  have cut : Groups [0xC3] [[0xC3]] := .cons lead .nil
  refine ⟨(utf8Length_eq_ok_iff _ 1).mpr ⟨_, cut, rfl⟩, fun n utf8 => ?_⟩
  obtain ⟨gs, hgs, -, sound⟩ := (isUtf8_iff n _).mp utf8
  rw [← cut.unique hgs] at sound
  exact sound [0xC3] (List.mem_singleton_self _) (.truncated lead (by decide))

end IsolationServer.Utf8Length
