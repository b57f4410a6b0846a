import Mathlib.Data.Finmap
import Mathlib.Tactic.SimpRw

/-!
# A store of hashes

A key holds a hash, a finite map from fields to values. A hash with no field
left is removed together with its key, so a key exists exactly when it has at
least one field. Everything below is derived from two observations, `hashGet`
and `existsKey`, which also determine the store.
-/
namespace IsolationServer.HashStore

variable {K F V : Type} [DecidableEq K] [DecidableEq F] [DecidableEq V]

/-- The fields of one key. An empty hash cannot be stored. -/
structure Hash (F V : Type) where
  fields : Finmap (fun _ : F => V)
  nonempty : fields ≠ ∅

structure Store (K F V : Type) where
  hashes : Finmap (fun _ : K => Hash F V)

namespace Hash

/-- Write one field of a hash that may not exist yet. -/
def set (h : Option (Hash F V)) (field : F) (value : V) : Hash F V where
  fields := ((h.map Hash.fields).getD ∅).insert field value
  nonempty he := by
    have hl := Finmap.lookup_insert (a := field) (b := value) ((h.map Hash.fields).getD ∅)
    rw [he, Finmap.lookup_empty] at hl
    cases hl

/-- Remove one field; nothing is left when it was the last one. -/
def del (h : Hash F V) (field : F) : Option (Hash F V) :=
  if he : h.fields.erase field = ∅ then none else some ⟨h.fields.erase field, he⟩

omit [DecidableEq V] in
theorem exists_field (h : Hash F V) : ∃ f v, h.fields.lookup f = some v := by
  by_contra hn
  apply h.nonempty
  apply Finmap.ext_lookup
  intro f
  rw [Finmap.lookup_empty]
  by_contra hf
  obtain ⟨v, hv⟩ := Option.ne_none_iff_exists'.mp hf
  exact hn ⟨f, v, hv⟩

end Hash

namespace Store

def empty : Store K F V := ⟨∅⟩

/-- Whether the key holds a hash. -/
def existsKey (s : Store K F V) (key : K) : Bool := (s.hashes.lookup key).isSome

def hashGet (s : Store K F V) (key : K) (field : F) : Option V :=
  (s.hashes.lookup key).bind fun h => h.fields.lookup field

def hashSet (s : Store K F V) (key : K) (field : F) (value : V) : Store K F V :=
  ⟨s.hashes.insert key (Hash.set (s.hashes.lookup key) field value)⟩

def del (s : Store K F V) (key : K) : Store K F V := ⟨s.hashes.erase key⟩

def hashDel (s : Store K F V) (key : K) (field : F) : Store K F V :=
  match (s.hashes.lookup key).map fun h => h.del field with
  | none => s
  | some none => s.del key
  | some (some h) => ⟨s.hashes.insert key h⟩

omit [DecidableEq V]

@[simp] theorem hashGet_empty (k : K) (f : F) : (empty : Store K F V).hashGet k f = none := by
  simp [empty, hashGet]

theorem existsKey_iff (s : Store K F V) (k : K) :
    s.existsKey k = true ↔ ∃ f v, s.hashGet k f = some v := by
  unfold existsKey hashGet
  cases s.hashes.lookup k with
  | none => simp
  | some h => simpa using h.exists_field

theorem existsKey_false_iff (s : Store K F V) (k : K) :
    s.existsKey k = false ↔ ∀ f, s.hashGet k f = none := by
  rw [← Bool.not_eq_true, existsKey_iff]
  constructor
  · intro h f
    by_contra hf
    obtain ⟨v, hv⟩ := Option.ne_none_iff_exists'.mp hf
    exact h ⟨f, v, hv⟩
  · rintro h ⟨f, v, hv⟩
    rw [h f] at hv
    cases hv

theorem existsKey_of_hashGet {s : Store K F V} {k : K} {f : F} {v : V}
    (h : s.hashGet k f = some v) : s.existsKey k = true :=
  (s.existsKey_iff k).mpr ⟨f, v, h⟩

/-- The fields determine the store. -/
theorem ext_hashGet {s s' : Store K F V} (h : ∀ k f, s.hashGet k f = s'.hashGet k f) :
    s = s' := by
  cases s with
  | mk a =>
  cases s' with
  | mk b =>
  congr 1
  apply Finmap.ext_lookup
  intro k
  have hk := h k
  simp only [hashGet] at hk
  cases ha : a.lookup k with
  | none =>
    cases hb : b.lookup k with
    | none => rfl
    | some q =>
      obtain ⟨f, v, hv⟩ := q.exists_field
      have hf := hk f
      simp [ha, hb, hv] at hf
  | some p =>
    cases hb : b.lookup k with
    | none =>
      obtain ⟨f, v, hv⟩ := p.exists_field
      have hf := hk f
      simp [ha, hb, hv] at hf
    | some q =>
      have he : p.fields = q.fields := by
        apply Finmap.ext_lookup
        intro f
        simpa [ha, hb] using hk f
      cases p
      cases q
      cases he
      rfl

theorem hashGet_hashSet (s : Store K F V) (k k' : K) (f f' : F) (v : V) :
    (s.hashSet k f v).hashGet k' f' = if k' = k ∧ f' = f then some v else s.hashGet k' f' := by
  unfold hashSet hashGet
  by_cases hk : k' = k
  · subst hk
    simp only [Finmap.lookup_insert, Option.bind_some, Hash.set, true_and]
    by_cases hf : f' = f
    · subst hf
      simp
    · rw [if_neg hf, Finmap.lookup_insert_of_ne _ hf]
      cases s.hashes.lookup k' <;> simp
  · rw [if_neg (fun h => hk h.1), Finmap.lookup_insert_of_ne _ hk]

theorem hashGet_del (s : Store K F V) (k k' : K) (f : F) :
    (s.del k).hashGet k' f = if k' = k then none else s.hashGet k' f := by
  unfold del hashGet
  by_cases hk : k' = k
  · subst hk
    simp
  · rw [if_neg hk, Finmap.lookup_erase_ne hk]

theorem existsKey_hashSet (s : Store K F V) (k k' : K) (f : F) (v : V) :
    (s.hashSet k f v).existsKey k' = (decide (k' = k) || s.existsKey k') := by
  unfold hashSet existsKey
  by_cases hk : k' = k
  · subst hk
    simp
  · simp [hk, Finmap.lookup_insert_of_ne _ hk]

omit [DecidableEq F] in
theorem existsKey_del (s : Store K F V) (k k' : K) :
    (s.del k).existsKey k' = (!decide (k' = k) && s.existsKey k') := by
  unfold del existsKey
  by_cases hk : k' = k
  · subst hk
    simp
  · simp [hk, Finmap.lookup_erase_ne hk]

variable [DecidableEq V]

theorem hashGet_hashDel (s : Store K F V) (k k' : K) (f f' : F) :
    (s.hashDel k f).hashGet k' f' =
      if k' = k ∧ f' = f then none else s.hashGet k' f' := by
  unfold hashDel
  cases hl : s.hashes.lookup k with
  | none =>
    simp only [Option.map_none]
    by_cases hk : k' = k ∧ f' = f
    · obtain ⟨rfl, rfl⟩ := hk
      simp [hashGet, hl]
    · rw [if_neg hk]
  | some h =>
    simp only [Option.map_some, Hash.del]
    by_cases hk : k' = k
    · subst hk
      simp only [true_and]
      by_cases he : h.fields.erase f = ∅
      · -- the erased field was the only one
        rw [dif_pos he]
        simp only [hashGet_del, if_true]
        by_cases hf : f' = f
        · rw [if_pos hf]
        · have hx := Finmap.lookup_erase_ne (s := h.fields) hf
          rw [he, Finmap.lookup_empty] at hx
          rw [if_neg hf]
          simp [hashGet, hl, ← hx]
      · rw [dif_neg he]
        simp only [hashGet, Finmap.lookup_insert, Option.bind_some, hl]
        by_cases hf : f' = f
        · subst hf
          simp
        · rw [if_neg hf, Finmap.lookup_erase_ne hf]
    · rw [if_neg (fun h => hk h.1)]
      split
      · rfl
      · rw [hashGet_del, if_neg hk]
      · simp [hashGet, Finmap.lookup_insert_of_ne _ hk]

/-- Removing a field of one key keeps the other keys. -/
theorem existsKey_hashDel_of_ne (s : Store K F V) {k k' : K} (f : F) (h : k' ≠ k) :
    (s.hashDel k f).existsKey k' = s.existsKey k' := by
  rw [Bool.eq_iff_iff, existsKey_iff, existsKey_iff]
  simp only [hashGet_hashDel, h, false_and, if_false]

/-! ## Operations on different keys -/

section Commute

variable (s : Store K F V) {k k' : K} (f f' : F) (v v' : V)

omit [DecidableEq V] in
theorem hashSet_hashSet_comm (h : k ≠ k') :
    (s.hashSet k f v).hashSet k' f' v' = (s.hashSet k' f' v').hashSet k f v := by
  apply ext_hashGet
  intro j g
  simp only [hashGet_hashSet]
  by_cases hj : j = k
  · subst hj
    simp [h]
  · simp [hj]

omit [DecidableEq V] in
theorem del_hashSet_comm (h : k ≠ k') : (s.hashSet k f v).del k' = (s.del k').hashSet k f v := by
  apply ext_hashGet
  intro j g
  simp only [hashGet_hashSet, hashGet_del]
  by_cases hj : j = k
  · subst hj
    simp [h]
  · simp [hj]

theorem hashDel_hashSet_comm (h : k ≠ k') :
    (s.hashSet k f v).hashDel k' f' = (s.hashDel k' f').hashSet k f v := by
  apply ext_hashGet
  intro j g
  simp only [hashGet_hashSet, hashGet_hashDel]
  by_cases hj : j = k
  · subst hj
    simp [h]
  · simp [hj]

end Commute

end Store

end IsolationServer.HashStore
