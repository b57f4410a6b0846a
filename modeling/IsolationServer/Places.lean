import IsolationServer.Separation
import Mathlib.Data.Set.Basic

/-!
# Threads that hold places

The shared state is a table of places, and a command touches some of them. A thread
takes the places of an activity when it starts and leaves them when it returns. If no
place is held twice, the threads are always on their way to the state in which their
activities end when they run one after another, in the order in which they started.
-/
namespace IsolationServer.Places
open CommandPrograms Runs Separation

variable {ι τ C P : Type} {V : P → Type} {R : C → Type} {σ : Type}

/-- A command depends on the places that it touches, and leaves all others alone. -/
structure Local (exec : (c : C) → σ → Option (R c × σ)) (look : (x : P) → σ → V x)
    (touches : C → Set P) : Prop where
  same : ∀ {c s u r r' s' u'}, (∀ x ∈ touches c, look x s = look x u) →
    exec c s = some (r, s') → exec c u = some (r', u') →
    r = r' ∧ ∀ x ∈ touches c, look x s' = look x u'
  frame : ∀ {c s r s' x}, exec c s = some (r, s') → x ∉ touches c → look x s' = look x s

/-- The places of a thread, and those that no thread holds. -/
def part (holds : ι → Set P) : Option ι → Set P
  | some i => holds i
  | none => {x | ∀ i, x ∉ holds i}

def Agree (look : (x : P) → σ → V x) (holds : ι → Set P) (k : Option ι) (s u : σ) : Prop :=
  ∀ x ∈ part holds k, look x s = look x u

/-- No place is held twice. -/
def Exclusive (holds : ι → Set P) : Prop := ∀ i j x, x ∈ holds i → x ∈ holds j → i = j

section Footprints

variable {exec : (c : C) → σ → Option (R c × σ)} {look : (x : P) → σ → V x}
  {touches : C → Set P} {holds : ι → Set P} {i : ι}

/-- Threads that touch what they hold have separate footprints. -/
theorem Local.separate (h : Local exec look touches) (hex : Exclusive holds) :
    Separate exec (Agree look holds) fun i c => touches c ⊆ holds i where
  refl _ _ _ _ := rfl
  same := by
    intro i c s u r r' s' u' hown hagree hs hu
    obtain ⟨hr, hsame⟩ := h.same (fun x hx => hagree x (hown hx)) hs hu
    refine ⟨hr, fun x hx => ?_⟩
    by_cases ht : x ∈ touches c
    · exact hsame x ht
    · rw [h.frame hs ht, h.frame hu ht]
      exact hagree x hx
  frame := by
    intro i c s r s' k u hown hk hagree hs x hx
    have ht : x ∉ touches c := by
      intro ht
      cases k with
      | none => exact hx i (hown ht)
      | some j => exact hk (congrArg some (hex j i x hx (hown ht)))
    rw [h.frame hs ht]
    exact hagree x hx

variable [DecidableEq ι]

theorem part_update_of_ne {S : Set P} {j : ι} (h : j ≠ i) :
    part (Function.update holds i S) (some j) = part holds (some j) := by
  simp [part, h]

theorem part_update_self {S : Set P} : part (Function.update holds i S) (some i) = S := by
  simp [part]

/-- What nobody holds once thread `i`, which held nothing, holds `S`. -/
theorem mem_part_none {S : Set P} (hi : holds i = ∅) {x : P} :
    x ∈ part (Function.update holds i S) none ↔ x ∈ part holds none ∧ x ∉ S := by
  constructor
  · intro hx
    constructor
    · intro j hj
      by_cases hji : j = i
      · rw [hji, hi] at hj
        exact hj
      · exact hx j (by rwa [Function.update_of_ne hji])
    · intro hS
      exact hx i (by rwa [Function.update_self])
  · intro hx j hj
    by_cases hji : j = i
    · rw [hji, Function.update_self] at hj
      exact hx.2 hj
    · rw [Function.update_of_ne hji] at hj
      exact hx.1 j hj

/-- A thread takes places that nobody holds. -/
theorem Exclusive.update (h : Exclusive holds) {S : Set P} (hS : ∀ x ∈ S, ∀ j, x ∉ holds j) :
    Exclusive (Function.update holds i S) := by
  intro j k x hj hk
  rw [Function.update_apply] at hj hk
  split_ifs at hj hk with hji hki hki
  · rw [hji, hki]
  · exact absurd hk (hS x hj k)
  · exact absurd hj (hS x hk j)
  · exact h j k x hj hk

end Footprints

/-- The threads hold places, and are on their way to the state `v`. -/
structure Serial (exec : (c : C) → σ → Option (R c × σ)) (look : (x : P) → σ → V x)
    (touches : C → Set P) (holds : ι → Set P) (v : σ) (p : Pool ι τ C R σ) : Prop where
  exclusive : Exclusive holds
  idle : ∀ i, p.threads i = none → holds i = ∅
  bound : ∃ final, Bound exec (Agree look holds) (fun i c => touches c ⊆ holds i) final p ∧
    ∀ k, Agree look holds k (final k) v

section Runs

variable {exec : (c : C) → σ → Option (R c × σ)} {look : (x : P) → σ → V x}
  {touches : C → Set P} {holds : ι → Set P} {i : ι} {v v' : σ} {p p' : Pool ι τ C R σ}

/-- Idle threads hold nothing. -/
theorem serial_idle (h : ∀ i, p.threads i = none) :
    Serial exec look touches (fun _ => ∅) p.shared p where
  exclusive _ _ _ hi := hi.elim
  idle _ _ := rfl
  bound := by
    refine ⟨fun _ => p.shared, ⟨fun _ _ => rfl, fun _ _ _ _ => rfl, fun i a q hi => ?_⟩,
      fun _ _ _ => rfl⟩
    rw [h i] at hi
    cases hi

/-- A place that no thread holds is as it is in `v`. -/
theorem Serial.look_eq (h : Serial exec look touches holds v p) {x : P} (hx : ∀ i, x ∉ holds i) :
    look x p.shared = look x v := by
  obtain ⟨final, hbound, hfinal⟩ := h.bound
  exact (hbound.rest x hx).trans (hfinal none x hx)

variable [DecidableEq ι]

/-- A thread starts with places that nobody holds. Its activity is the last one in the
order, so it runs alone from `v`. -/
theorem Serial.start (hloc : Local exec look touches) (h : Serial exec look touches holds v p)
    {a : τ} {q : Program C R Unit} {S : Set P} (hi : p.threads i = none)
    (hS : ∀ x ∈ S, ∀ j, x ∉ holds j) (hpath : Path exec (fun c => touches c ⊆ S) q v)
    (hrun : Program.run exec q v = some ((), v')) :
    Serial exec look touches (Function.update holds i S) v'
      ⟨p.shared, Function.update p.threads i (some (a, q)), p.trace⟩ := by
  have hex : Exclusive (Function.update holds i S) := h.exclusive.update hS
  have hnone := h.idle i hi
  obtain ⟨final, hbound, hfinal⟩ := h.bound
  have hown : Path exec (fun c => touches c ⊆ Function.update holds i S i) q v := by
    rwa [Function.update_self]
  obtain ⟨-, hother⟩ := (hloc.separate hex).run hown hrun hrun fun _ _ => rfl
  refine ⟨hex, fun j hj => ?_, fun k => if k = some i then v' else final k, ⟨?_, ?_, ?_⟩, ?_⟩
  · have hji : j ≠ i := by
      rintro rfl
      simp at hj
    rw [Function.update_of_ne hji]
    exact h.idle j ((Function.update_of_ne hji ..).symm.trans hj)
  · intro x hx
    exact hbound.rest x ((mem_part_none hnone).mp hx).1
  · intro j hj x hx
    have hji : j ≠ i := by
      rintro rfl
      simp at hj
    rw [part_update_of_ne hji] at hx
    simpa [hji] using hbound.idle j ((Function.update_of_ne hji ..).symm.trans hj) x hx
  · intro j b q' hj
    by_cases hji : j = i
    · subst hji
      obtain ⟨rfl, rfl⟩ : a = b ∧ q = q' := by simpa using hj
      refine ⟨v, fun x hx => ?_, hown, by simpa using hrun⟩
      rw [part_update_self] at hx
      exact h.look_eq (hS x hx)
    · obtain ⟨u, hu, hpath', hrun'⟩ :=
        hbound.busy j b q' ((Function.update_of_ne hji ..).symm.trans hj)
      refine ⟨u, fun x hx => ?_, ?_, by simpa [hji] using hrun'⟩
      · rw [part_update_of_ne hji] at hx
        exact hu x hx
      · rwa [Function.update_of_ne hji]
  · intro k x hx
    dsimp only
    by_cases hk : k = some i
    · rw [if_pos hk]
    · rw [if_neg hk, hother k v hk (fun _ _ => rfl) x hx]
      cases k with
      | none => exact hfinal none x ((mem_part_none hnone).mp hx).1
      | some j =>
        have hji : j ≠ i := fun hji => hk (congrArg some hji)
        rw [part_update_of_ne hji] at hx
        exact hfinal (some j) x hx

/-- A thread that has returned leaves its places. -/
theorem Serial.release (hex : Exclusive holds) (hidle : ∀ j, p.threads j = none → j ≠ i →
      holds j = ∅) {final : Option ι → σ}
    (hbound : Bound exec (Agree look holds) (fun i c => touches c ⊆ holds i) final p)
    (hfinal : ∀ k, Agree look holds k (final k) v) (hi : p.threads i = none) :
    Serial exec look touches (Function.update holds i ∅) v p := by
  refine ⟨hex.update fun _ hx => hx.elim, fun j hj => ?_,
    fun k => if k = none then v else final k, ⟨?_, ?_, ?_⟩, ?_⟩
  · by_cases hji : j = i
    · rw [hji, Function.update_self]
    · rw [Function.update_of_ne hji]
      exact hidle j hj hji
  · intro x hx
    rw [if_pos rfl]
    by_cases hxi : x ∈ holds i
    · exact (hbound.idle i hi x hxi).trans (hfinal (some i) x hxi)
    · have hfree : x ∈ part holds none := by
        intro j hj
        by_cases hji : j = i
        · exact hxi (hji ▸ hj)
        · exact hx j (by rwa [Function.update_of_ne hji])
      exact (hbound.rest x hfree).trans (hfinal none x hfree)
  · intro j hj x hx
    by_cases hji : j = i
    · subst hji
      rw [part_update_self] at hx
      exact hx.elim
    · rw [part_update_of_ne hji] at hx
      simpa using hbound.idle j hj x hx
  · intro j b q hj
    have hji : j ≠ i := by
      rintro rfl
      rw [hi] at hj
      cases hj
    obtain ⟨u, hu, hpath, hrun⟩ := hbound.busy j b q hj
    refine ⟨u, fun x hx => ?_, ?_, by simpa using hrun⟩
    · rw [part_update_of_ne hji] at hx
      exact hu x hx
    · rwa [Function.update_of_ne hji]
  · intro k x hx
    cases k with
    | none => rfl
    | some j =>
      by_cases hji : j = i
      · subst hji
        rw [part_update_self] at hx
        exact hx.elim
      · rw [part_update_of_ne hji] at hx
        simpa using hfinal (some j) x hx

/-- A thread goes on, with the places that it holds, or returns. -/
theorem Serial.advance {M : System ι τ C R σ} (hloc : Local M.exec look touches)
    (h : Serial M.exec look touches holds v p) (hs : M.step p (.advance i) = some p') :
    Serial M.exec look touches
      (if p'.threads i = none then Function.update holds i ∅ else holds) v p' := by
  obtain ⟨final, hbound, hfinal⟩ := h.bound
  have hbound' := hbound.step (hloc.separate h.exclusive) hs
  have hidle : ∀ j, p'.threads j = none → j ≠ i → holds j = ∅ := by
    intro j hj hji
    exact h.idle j ((System.threads_of_advance hs hji).symm.trans hj)
  split_ifs with hi
  · exact Serial.release h.exclusive hidle hbound' hfinal hi
  · refine ⟨h.exclusive, fun j hj => hidle j hj ?_, final, hbound', hfinal⟩
    rintro rfl
    exact hi hj

end Runs

end IsolationServer.Places
