import IsolationServer.Runs
import Mathlib.Tactic.Cases
import Mathlib.Tactic.Tauto

/-!
# Taking and releasing a lease by separate commands

A client takes a resource in four commands: it tests that the lease is absent,
records the resource in its own session, writes its tag into the lease and
stamps it. It releases a resource that it finds in its session in two commands:
it removes the lease, then its session entry. Commands of different clients
interleave.

The test and the write of the tag are not one command. `Stage.window` marks the
stages in between; everything below holds as long as no two clients are in the
window of the same resource.
-/
namespace IsolationServer.LeaseProtocol
open Runs

variable {T I K : Type}

/-- The sessions of the clients and the leases of the resources. -/
structure Lease (T I K : Type) where
  session : T → Option I
  token : I → Option K
  present : I → Prop

/-- How far a client has come. -/
inductive Stage (I : Type) where
  | idle
  | entering (i : I)
  | claimed (i : I)
  | stamping (i : I)
  | holding (i : I)
  | releasing (i : I)
  | released (i : I)

namespace Stage

/-- The resource whose lease the client has found absent and not yet taken. -/
def window : Stage I → Option I
  | entering i => some i
  | claimed i => some i
  | _ => none

/-- The resource that the client has recorded in its session. -/
def recorded : Stage I → Option I
  | claimed i => some i
  | stamping i => some i
  | holding i => some i
  | releasing i => some i
  | released i => some i
  | _ => none

/-- The resource that is in the client's session without its lease: not yet
taken, or already removed. -/
def pending : Stage I → Option I
  | claimed i => some i
  | released i => some i
  | _ => none

end Stage

variable [DecidableEq T] [DecidableEq I]

/-- One command of client `t`, from one stage and lease state to the next. -/
inductive Step (tag : T → K) (t : T) :
    Stage I → Lease T I K → Stage I → Lease T I K → Prop where
  | stutter (x : Stage I) (v : Lease T I K) : x.window = none → Step tag t x v x v
  | test (i : I) (v : Lease T I K) : ¬ v.present i → Step tag t .idle v (.entering i) v
  | enter (i : I) (v : Lease T I K) : Step tag t (.entering i) v (.claimed i)
      { v with session := Function.update v.session t (some i) }
  | claim (i : I) (v : Lease T I K) : Step tag t (.claimed i) v (.stamping i)
      { v with token := Function.update v.token i (some (tag t))
               present := Function.update v.present i True }
  | stamp (i : I) (v : Lease T I K) : Step tag t (.stamping i) v (.holding i)
      { v with present := Function.update v.present i True }
  | answer (i : I) (v : Lease T I K) : Step tag t (.holding i) v .idle v
  | read (i : I) (v : Lease T I K) :
      v.session t = some i → Step tag t .idle v (.releasing i) v
  | free (i : I) (v : Lease T I K) : Step tag t (.releasing i) v (.released i)
      { v with token := Function.update v.token i none
               present := Function.update v.present i False }
  | clear (i : I) (v : Lease T I K) : Step tag t (.released i) v .idle
      { v with session := Function.update v.session t none }
  | drop (v : Lease T I K) : Step tag t .idle v .idle
      { v with session := Function.update v.session t none }

/-- What holds for client `t` in the stage `x`. -/
structure Own (tag : T → K) (v : Lease T I K) (t : T) (x : Stage I) : Prop where
  token_of_session : ∀ i, v.session t = some i → x.pending ≠ some i → v.token i = some (tag t)
  session_of_recorded : ∀ i, x.recorded = some i → v.session t = some i
  absent_of_window : ∀ i, x.window = some i → ¬ v.present i

/-- What holds between any two commands. -/
structure Inv (tag : T → K) (v : Lease T I K) (stage : T → Stage I) : Prop where
  present_of_token : ∀ i k, v.token i = some k → v.present i
  own : ∀ t, Own tag v t (stage t)
  window_exclusive : ∀ t u i, (stage t).window = some i → (stage u).window = some i → t = u

variable {tag : T → K} {v v' : Lease T I K} {stage : T → Stage I}

omit [DecidableEq T] [DecidableEq I]

/-- With no session and no lease, and every client idle, the invariant holds. -/
theorem inv_initial (hs : ∀ t, v.session t = none) (ht : ∀ i, v.token i = none) :
    Inv tag v (fun _ => .idle) where
  present_of_token i k h := by simp [ht i] at h
  own t := ⟨fun i h => by simp [hs t] at h, fun i h => by simp [Stage.recorded] at h,
    fun i h => by simp [Stage.window] at h⟩
  window_exclusive t u i h := by simp [Stage.window] at h

/-- Two clients whose tags are in the lease of the same resource are the same. -/
theorem Inv.token_unique (htag : Function.Injective tag) {t u : T} {i : I}
    (ht : v.token i = some (tag t)) (hu : v.token i = some (tag u)) : t = u :=
  htag (Option.some.inj (ht.symm.trans hu))

/-- The facts of client `u` survive a command of another client that leaves the
session of `u` and the leases that `u` relies on alone. -/
theorem Own.frame {u : T} {x : Stage I} (h : Own tag v u x)
    (hs : v'.session u = v.session u)
    (ht : ∀ i, v.token i = some (tag u) → v'.token i = some (tag u))
    (hp : ∀ i, x.window = some i → v'.present i → v.present i) : Own tag v' u x where
  token_of_session i hi hx := ht i (h.token_of_session i (hs ▸ hi) hx)
  session_of_recorded i hi := hs ▸ h.session_of_recorded i hi
  absent_of_window i hi hn := h.absent_of_window i hi (hp i hi hn)

variable [DecidableEq T]

/-- One client moves to the stage `x` and the state becomes `v'`. -/
theorem Inv.move (h : Inv tag v stage) (t : T) (x : Stage I)
    (hp : ∀ i k, v'.token i = some k → v'.present i) (ht : Own tag v' t x)
    (hu : ∀ u, u ≠ t → Own tag v' u (stage u))
    (hx : ∀ i, x.window = some i → ∀ u, u ≠ t → (stage u).window ≠ some i) :
    Inv tag v' (Function.update stage t x) where
  present_of_token := hp
  own := (Function.forall_update_iff stage fun u y => Own tag v' u y).mpr ⟨ht, hu⟩
  window_exclusive :=
    exclusive_update (fun (y : Stage I) i => y.window = some i) h.window_exclusive hx

variable [DecidableEq I]

/-- A command keeps the tag of a client in a lease, unless it is that client's
own removal of the lease. -/
theorem Inv.token_kept (htag : Function.Injective tag) (h : Inv tag v stage) {t u : T}
    {x : Stage I} (hs : Step tag t (stage t) v x v') {i : I} (hi : v.token i = some (tag u)) :
    v'.token i = some (tag u) ∨ (u = t ∧ stage t = .releasing i ∧ x = .released i) := by
  have hown := h.own t
  generalize hy : stage t = y at hs hown
  cases hs with
  | claim j v =>
    have hij : i ≠ j := by
      rintro rfl
      exact hown.absent_of_window i rfl (h.present_of_token i _ hi)
    exact .inl (by simpa [Function.update_of_ne hij] using hi)
  | free j v =>
    by_cases hij : i = j
    · subst hij
      have hts := hown.token_of_session i (hown.session_of_recorded i rfl) (by simp [Stage.pending])
      exact .inr ⟨Inv.token_unique htag hi hts, rfl, rfl⟩
    · exact .inl (by simpa [Function.update_of_ne hij] using hi)
  | stutter | test | enter | stamp | answer | read | clear | drop => exact .inl hi

section Commands

variable {t u : T} {x y : Stage I} {i : I}

theorem Step.session_other (hs : Step tag t y v x v') (hu : u ≠ t) :
    v'.session u = v.session u := by
  cases hs <;> simp [hu]

/-- A lease that carries a tag is present after every command. -/
theorem Step.present_of_token (hs : Step tag t y v x v')
    (h : ∀ i k, v.token i = some k → v.present i) (i : I) (k : K)
    (hi : v'.token i = some k) : v'.present i := by
  cases hs with
  | claim j v =>
    by_cases hij : i = j
    · subst hij
      simp
    · simp only [Function.update_of_ne hij] at hi ⊢
      exact h i k hi
  | stamp j v =>
    by_cases hij : i = j
    · subst hij
      simp
    · simp only [Function.update_of_ne hij]
      exact h i k hi
  | free j v =>
    by_cases hij : i = j
    · subst hij
      simp at hi
    · simp only [Function.update_of_ne hij] at hi ⊢
      exact h i k hi
  | stutter | test | enter | answer | read | clear | drop => exact h i k hi

/-- A lease becomes present by the write of a tag only. -/
theorem Step.present_before (hs : Step tag t y v x v') (hown : Own tag v t y)
    (h : ∀ i k, v.token i = some k → v.present i) (hi : v'.present i) :
    v.present i ∨ y.window = some i := by
  cases hs with
  | claim j v =>
    by_cases hij : i = j
    · exact .inr (congrArg some hij.symm)
    · exact .inl (by simpa only [Function.update_of_ne hij] using hi)
  | stamp j v =>
    by_cases hij : i = j
    · subst hij
      have htok := hown.token_of_session i (hown.session_of_recorded i rfl)
        (by simp [Stage.pending])
      exact .inl (h i _ htok)
    · exact .inl (by simpa only [Function.update_of_ne hij] using hi)
  | free j v =>
    by_cases hij : i = j
    · subst hij
      simp at hi
    · exact .inl (by simpa only [Function.update_of_ne hij] using hi)
  | stutter | test | enter | answer | read | clear | drop => exact .inl hi

/-- A client comes into the window of a resource by its test only. -/
theorem Step.window_before (hs : Step tag t y v x v') (hi : x.window = some i) :
    y.window = some i ∨ x = .entering i := by
  cases hs with
  | stutter => exact .inl hi
  | test j v => exact .inr (by simpa [Stage.window] using hi)
  | enter j v => exact .inl hi
  | claim | stamp | answer | read | free | clear | drop => simp [Stage.window] at hi

/-- The facts of the client that issues the command. -/
theorem Own.step (h : Own tag v t y) (hs : Step tag t y v x v') : Own tag v' t x := by
  cases hs with
  | stutter => exact h
  | test i v hn =>
    refine ⟨fun j hj _ => ?_, by simp [Stage.recorded], fun j hj => ?_⟩
    · exact h.token_of_session j hj (by simp [Stage.pending])
    · obtain rfl : i = j := by simpa [Stage.window] using hj
      exact hn
  | enter i v =>
    refine ⟨fun j hj hn => ?_, by simp [Stage.recorded], h.absent_of_window⟩
    simp only [Function.update_self, Option.some.injEq] at hj
    exact absurd (by simp [Stage.pending, hj]) hn
  | claim i v =>
    refine ⟨fun j hj _ => ?_, h.session_of_recorded, by simp [Stage.window]⟩
    obtain rfl : i = j := Option.some.inj ((h.session_of_recorded i rfl).symm.trans hj)
    simp
  | stamp i v =>
    refine ⟨fun j hj _ => ?_, h.session_of_recorded, by simp [Stage.window]⟩
    exact h.token_of_session j hj (by simp [Stage.pending])
  | answer i v =>
    refine ⟨fun j hj _ => ?_, by simp [Stage.recorded], by simp [Stage.window]⟩
    exact h.token_of_session j hj (by simp [Stage.pending])
  | read i v hr =>
    refine ⟨fun j hj _ => ?_, by simpa [Stage.recorded] using hr, by simp [Stage.window]⟩
    exact h.token_of_session j hj (by simp [Stage.pending])
  | free i v =>
    refine ⟨fun j hj hn => ?_, h.session_of_recorded, by simp [Stage.window]⟩
    obtain rfl : i = j := Option.some.inj ((h.session_of_recorded i rfl).symm.trans hj)
    exact absurd rfl hn
  | clear | drop => exact ⟨by simp, by simp [Stage.recorded], by simp [Stage.window]⟩

end Commands

/-- Every command keeps the invariant, provided that a client that finds a
lease absent is the only one in the window of that resource. -/
theorem Inv.step (htag : Function.Injective tag) (h : Inv tag v stage) {t : T}
    {x : Stage I} (hs : Step tag t (stage t) v x v')
    (hx : ∀ i, x = .entering i → ∀ u, u ≠ t → (stage u).window ≠ some i) :
    Inv tag v' (Function.update stage t x) := by
  have hown := h.own t
  have hexcl := h.window_exclusive t
  refine h.move t x (hs.present_of_token h.present_of_token) (hown.step hs) (fun u hu => ?_)
    fun i hi u hu hw => ?_
  · refine (h.own u).frame (hs.session_other hu) (fun i hi => ?_) fun i hw hi => ?_
    · rcases h.token_kept htag hs hi with hk | ⟨rfl, -, -⟩
      · exact hk
      · exact absurd rfl hu
    · refine (hs.present_before hown h.present_of_token hi).resolve_right fun hy => ?_
      exact hu (hexcl u i hy hw).symm
  · rcases hs.window_before hi with hy | rfl
    · exact hu (hexcl u i hy hw).symm
    · exact hx i rfl u hu hw

end IsolationServer.LeaseProtocol
