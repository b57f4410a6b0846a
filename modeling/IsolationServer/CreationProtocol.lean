import IsolationServer.Runs
import Mathlib.Data.List.Nodup
import Mathlib.Tactic.Cases

/-!
# Creating a record field by field

A client that wants to create a record tests that no field of it exists, writes
the fields one command at a time and answers. Other clients may want to create
the same record. The test and the first write are not one command; everything
below holds as long as no two clients are between the test and the first write
of the same record.
-/
namespace IsolationServer.CreationProtocol
open Runs

variable {T I F V Q : Type}

/-- The fields of every record. -/
abbrev Records (I F V : Type) := I → F → Option V

/-- `writing q n`: the client serves the request `q` and has written `n` fields. -/
inductive Stage (Q : Type) where
  | idle
  | writing (q : Q) (n : ℕ)

/-- What a request creates: the record, and its fields in the order of writing.
There is at least one field, and no field is written twice. -/
structure Plan (I F V Q : Type) where
  target : Q → I
  fields : Q → List (F × V)
  fields_ne : ∀ q, fields q ≠ []
  nodup : ∀ q, ((fields q).map Prod.fst).Nodup

/-- The record that the stage is creating. -/
def Stage.target (plan : Plan I F V Q) : Stage Q → Option I
  | idle => none
  | writing q _ => some (plan.target q)

variable [DecidableEq T] [DecidableEq I] [DecidableEq F]

/-- The record after the first `n` fields of `q`. -/
def Plan.written (plan : Plan I F V Q) (q : Q) (n : ℕ) (f : F) : Option V :=
  ((plan.fields q).take n).lookup f

/-- One command of a client. -/
inductive Step (plan : Plan I F V Q) :
    Stage Q → Records I F V → Stage Q → Records I F V → Prop where
  | stutter (x : Stage Q) (v : Records I F V) : Step plan x v x v
  | test (q : Q) (v : Records I F V) :
      (∀ f, v (plan.target q) f = none) → Step plan .idle v (.writing q 0) v
  | write (q : Q) (n : ℕ) (f : F) (x : V) (v : Records I F V) :
      (plan.fields q)[n]? = some (f, x) → Step plan (.writing q n) v (.writing q (n + 1))
        (Function.update v (plan.target q) (Function.update (v (plan.target q)) f (some x)))
  | answer (q : Q) (v : Records I F V) :
      Step plan (.writing q (plan.fields q).length) v .idle v

/-- What holds between any two commands. -/
structure Inv (plan : Plan I F V Q) (v : Records I F V) (stage : T → Stage Q) : Prop where
  record : ∀ t q n, stage t = .writing q n → ∀ f, v (plan.target q) f = plan.written q n f
  exclusive : ∀ t u i, (stage t).target plan = some i → (stage u).target plan = some i → t = u

/-- The record of `q` is complete and nobody is writing to it. -/
def Settled (plan : Plan I F V Q) (v : Records I F V) (stage : T → Stage Q) (q : Q) : Prop :=
  (∀ f, v (plan.target q) f = plan.written q (plan.fields q).length f) ∧
    ∀ t, (stage t).target plan ≠ some (plan.target q)

variable {plan : Plan I F V Q} {v v' : Records I F V} {stage : T → Stage Q}

omit [DecidableEq T] [DecidableEq I] [DecidableEq F] in
@[simp] theorem target_writing (q : Q) (n : ℕ) :
    (Stage.writing q n).target plan = some (plan.target q) := rfl

omit [DecidableEq T] [DecidableEq I] [DecidableEq F] in
@[simp] theorem target_idle : (Stage.idle : Stage Q).target plan = none := rfl

omit [DecidableEq T] [DecidableEq I] in
theorem inv_initial (plan : Plan I F V Q) (v : Records I F V) :
    Inv plan v (fun _ : T => .idle) where
  record t q n h := by cases h
  exclusive t u i h := by cases h

omit [DecidableEq T] [DecidableEq I] in
theorem written_succ {q : Q} {n : ℕ} {f : F} {x : V} (h : (plan.fields q)[n]? = some (f, x))
    (g : F) : plan.written q (n + 1) g = if g = f then some x else plan.written q n g := by
  have htake : (plan.fields q).take (n + 1) = (plan.fields q).take n ++ [(f, x)] := by
    rw [List.take_add_one, h]
    rfl
  have hfresh : f ∉ ((plan.fields q).take n).map Prod.fst := by
    have hnd := plan.nodup q
    rw [← List.take_append_drop (n + 1) (plan.fields q), htake] at hnd
    simp only [List.map_append, List.map_cons, List.map_nil] at hnd
    have hnd' := (List.nodup_append.mp (List.nodup_append.mp hnd).1).2.2
    intro hf
    exact hnd' f hf f (by simp) rfl
  have hnone : ((plan.fields q).take n).lookup f = none := by
    rw [List.lookup_eq_none_iff]
    rintro ⟨g, y⟩ hg
    simp only [bne_iff_ne, ne_eq]
    rintro rfl
    exact hfresh (List.mem_map.mpr ⟨_, hg, rfl⟩)
  unfold Plan.written
  rw [htake, List.lookup_append]
  by_cases hg : g = f
  · subst hg
    simp [hnone]
  · have hgf : (g == f) = false := by simpa using hg
    simp [List.lookup_cons, hg, hgf]

omit [DecidableEq T] [DecidableEq I] in
/-- A record with at least one field written is not empty. -/
theorem Plan.written_ne_none (plan : Plan I F V Q) (q : Q) (n : ℕ) (hn : n ≠ 0) :
    ∃ f, plan.written q n f ≠ none := by
  cases hq : plan.fields q with
  | nil => exact absurd hq (plan.fields_ne q)
  | cons a rest =>
    obtain ⟨m, rfl⟩ := Nat.exists_eq_succ_of_ne_zero hn
    refine ⟨a.1, ?_⟩
    simp [Plan.written, hq]

omit [DecidableEq T] in
/-- A command of a client that does not serve the record `i` leaves it alone. -/
theorem Step.record_other {x y : Stage Q} (h : Step plan x v y v') {i : I}
    (hi : x.target plan ≠ some i) (f : F) : v' i f = v i f := by
  cases h with
  | write q n g a v hg =>
    have hne : i ≠ plan.target q := by
      rintro rfl
      exact hi rfl
    simp [hne]
  | stutter | test | answer => rfl

omit [DecidableEq T] [DecidableEq I] in
/-- A stage with an empty record has written nothing yet. -/
theorem Inv.stage_of_empty (h : Inv plan v stage) {u : T} {q : Q}
    (he : ∀ f, v (plan.target q) f = none) (hu : (stage u).target plan = some (plan.target q)) :
    ∃ r, stage u = .writing r 0 ∧ plan.target r = plan.target q := by
  cases hs : stage u with
  | idle => simp [hs] at hu
  | writing r n =>
    have ht : plan.target r = plan.target q := by simpa [hs] using hu
    by_cases hn : n = 0
    · exact ⟨r, by rw [hn], ht⟩
    · obtain ⟨f, hf⟩ := plan.written_ne_none r n hn
      rw [← h.record u r n hs f, ht, he f] at hf
      exact absurd rfl hf

omit [DecidableEq T] in
/-- The record of the client that issues the command. -/
theorem Step.record_self {x y : Stage Q} (hs : Step plan x v y v')
    (hrec : ∀ q n, x = .writing q n → ∀ f, v (plan.target q) f = plan.written q n f) (q : Q)
    (n : ℕ) (hq : y = .writing q n) (f : F) : v' (plan.target q) f = plan.written q n f := by
  cases hs with
  | stutter y v => exact hrec q n hq f
  | test r v he =>
    cases hq
    simpa [Plan.written] using he f
  | write r m g a v hg =>
    cases hq
    rw [Function.update_self, written_succ hg, ← hrec q _ rfl f, Function.update_apply]
  | answer r v => cases hq

omit [DecidableEq T] in
/-- A client turns to a record by its test only, which has found the record empty. -/
theorem Step.target_before {x y : Stage Q} (hs : Step plan x v y v') {i : I}
    (hi : y.target plan = some i) : x.target plan = some i ∨
      ∃ q, y = .writing q 0 ∧ plan.target q = i ∧ ∀ f, v i f = none := by
  cases hs with
  | stutter y v => exact .inl hi
  | test q v he =>
    obtain rfl : plan.target q = i := by simpa using hi
    exact .inr ⟨q, rfl, rfl, he⟩
  | write q n g a v hg => exact .inl hi
  | answer q v => cases hi

/-- Every command keeps the invariant, provided that a client that finds a
record absent is the only one between the test and the first write. -/
theorem Inv.step (h : Inv plan v stage) {t : T} {x : Stage Q}
    (hs : Step plan (stage t) v x v')
    (hx : ∀ q, x = .writing q 0 → ∀ u, u ≠ t → ∀ r, stage u = .writing r 0 →
      plan.target r ≠ plan.target q) :
    Inv plan v' (Function.update stage t x) where
  record := by
    refine (Function.forall_update_iff stage fun _ y => ∀ q n, y = .writing q n →
      ∀ f, v' (plan.target q) f = plan.written q n f).mpr
        ⟨hs.record_self (h.record t), fun u hu q n hq f => ?_⟩
    have hne : (stage t).target plan ≠ some (plan.target q) := fun ht =>
      hu (h.exclusive u t _ (by rw [hq]; rfl) ht)
    rw [hs.record_other hne f]
    exact h.record u q n hq f
  exclusive := by
    refine exclusive_update (fun (y : Stage Q) i => y.target plan = some i) h.exclusive
      fun i hi u hu hui => ?_
    rcases hs.target_before hi with ht | ⟨q, rfl, rfl, he⟩
    · exact hu (h.exclusive u t i hui ht)
    · obtain ⟨r, hr, htr⟩ := h.stage_of_empty he hui
      exact hx q rfl u hu r hr htr

omit [DecidableEq I] in
/-- The client that answers leaves a complete record to which nobody writes. -/
theorem Inv.settled_of_answer (h : Inv plan v stage) {t : T} {q : Q}
    (ht : stage t = .writing q (plan.fields q).length) :
    Settled plan v (Function.update stage t .idle) q := by
  refine ⟨h.record t q _ ht, fun u hu => ?_⟩
  by_cases hut : u = t
  · subst hut
    simp at hu
  · rw [Function.update_of_ne hut] at hu
    exact hut (h.exclusive u t _ hu (by rw [ht]; rfl))

/-- A settled record stays as it is. -/
theorem Settled.step {q : Q} (h : Settled plan v stage q) {t : T} {x : Stage Q}
    (hs : Step plan (stage t) v x v') : Settled plan v' (Function.update stage t x) q := by
  constructor
  · intro f
    rw [hs.record_other (h.2 t) f]
    exact h.1 f
  · refine (Function.forall_update_iff stage fun _ y => y.target plan ≠ some (plan.target q)).mpr
      ⟨fun hx => ?_, fun u _ => h.2 u⟩
    rcases hs.target_before hx with ht | ⟨r, -, -, he⟩
    · exact h.2 t ht
    · obtain ⟨f, hf⟩ := plan.written_ne_none q (plan.fields q).length
        (by simpa using plan.fields_ne q)
      rw [← h.1 f, he f] at hf
      exact hf rfl

end IsolationServer.CreationProtocol
