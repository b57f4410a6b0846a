import IsolationServer.CommandPrograms
import Mathlib.Data.DFinsupp.WellFounded
import Mathlib.SetTheory.Cardinal.Order

/-!
# Schedules that come to an end

Every branch of a program is finite, so a pool of finitely many threads that take up
nothing new comes to an end, whatever the schedule and the replies. Where in no state
of an invariant all busy threads are blocked, it ends with every thread idle or
undefined.
-/
namespace IsolationServer.CommandPrograms
open Runs

variable {ι τ C : Type} {R : C → Type} {σ : Type}

/-- What is left of a program after a command, or of a thread after its return. -/
inductive Remains : Option (τ × Program C R Unit) → Option (τ × Program C R Unit) → Prop where
  | reply (a : τ) (c : C) (k : R c → Program C R Unit) (r : R c) :
      Remains (some (a, k r)) (some (a, .issue c k))
  | returned (a : τ) (u : Unit) : Remains none (some (a, .done u))

theorem remains_wellFounded : WellFounded
    (Remains : Option (τ × Program C R Unit) → Option (τ × Program C R Unit) → Prop) := by
  have hnone : Acc (Remains (τ := τ) (C := C) (R := R)) none := ⟨_, fun _ h => by cases h⟩
  refine ⟨fun th => ?_⟩
  cases th with
  | none => exact hnone
  | some q =>
    obtain ⟨a, p⟩ := q
    induction p with
    | done u => exact ⟨_, fun _ h => by cases h; exact hnone⟩
    | undefined => exact ⟨_, fun _ h => by cases h⟩
    | issue c k ih => exact ⟨_, fun _ h => by cases h with | reply _ _ _ r => exact ih r⟩

section Pools

variable [DecidableEq ι] {M : System ι τ C R σ}

/-- Some thread goes on. -/
def System.Advances (M : System ι τ C R σ) (p' p : Pool ι τ C R σ) : Prop :=
  ∃ i, M.step p (.advance i) = some p'

/-- A thread that goes on has less left to do, and the others have as much as before. -/
theorem System.remains_of_advance {p p' : Pool ι τ C R σ} {i : ι}
    (h : M.step p (.advance i) = some p') :
    Remains (p'.threads i) (p.threads i) ∧ ∀ j, j ≠ i → p'.threads j = p.threads j := by
  rcases System.step_cases h with ⟨j, a, hact, -⟩ | ⟨j, a, u, hact, hj, rfl⟩ |
    ⟨j, a, c, k, r, s, hact, hj, -, rfl⟩
  · cases hact
  · obtain rfl := Action.advance.inj hact
    simp only [hj, Function.update_self]
    exact ⟨.returned a u, fun l hl => Function.update_of_ne hl ..⟩
  · obtain rfl := Action.advance.inj hact
    simp only [hj, Function.update_self]
    exact ⟨.reply a c k r, fun l hl => Function.update_of_ne hl ..⟩

/-- There is no infinite schedule without new activities. -/
theorem System.advances_wellFounded [Finite ι] (M : System ι τ C R σ) :
    WellFounded M.Advances := by
  have hlex : WellFounded (Pi.Lex (WellOrderingRel (α := ι)) fun {_} =>
      (Remains : Option (τ × Program C R Unit) → Option (τ × Program C R Unit) → Prop)) :=
    Pi.Lex.wellFounded _ fun _ => remains_wellFounded
  refine Subrelation.wf ?_ (InvImage.wf Pool.threads hlex)
  rintro p' p ⟨i, h⟩
  obtain ⟨hi, hothers⟩ := System.remains_of_advance h
  exact ⟨i, fun j hj => hothers j fun hji => irrefl i (hji ▸ hj), hi⟩

/-- No thread can go on. -/
def System.Stopped (M : System ι τ C R σ) (p : Pool ι τ C R σ) : Prop :=
  ∀ i, M.step p (.advance i) = none

/-- Every schedule can be continued until all threads have stopped. -/
theorem System.exists_stopped [Finite ι] (M : System ι τ C R σ) (p : Pool ι τ C R σ) :
    ∃ (schedule : List ι) (q : Pool ι τ C R σ),
      runs M.step p (schedule.map .advance) = some q ∧ M.Stopped q := by
  induction p using (M.advances_wellFounded).induction with
  | _ p ih =>
    by_cases hstop : M.Stopped p
    · exact ⟨[], p, rfl, hstop⟩
    · obtain ⟨i, hi⟩ := not_forall.mp hstop
      obtain ⟨p', hp'⟩ := Option.ne_none_iff_exists'.mp hi
      obtain ⟨schedule, q, hrun, hq⟩ := ih p' ⟨i, hp'⟩
      exact ⟨i :: schedule, q, runs_cons.mpr ⟨p', hp', hrun⟩, hq⟩

/-- A thread that cannot go on is idle or undefined, or its next command blocks. -/
theorem System.stopped_cases {p : Pool ι τ C R σ} {i : ι} (h : M.step p (.advance i) = none) :
    p.threads i = none ∨ p.undefinedAt i = true ∨
      ∃ a c k, p.threads i = some (a, .issue c k) ∧ M.exec c p.shared = none := by
  cases hi : p.threads i with
  | none => exact .inl rfl
  | some q =>
    obtain ⟨a, prog⟩ := q
    cases prog with
    | done u => simp [System.step, hi] at h
    | undefined => exact .inr (.inl (by rw [Pool.undefinedAt, hi]))
    | issue c k =>
      refine .inr (.inr ⟨a, c, k, rfl, ?_⟩)
      simpa [System.step, hi] using h

end Pools

end IsolationServer.CommandPrograms
