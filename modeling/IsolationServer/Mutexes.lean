import IsolationServer.CommandPrograms
import Mathlib.Data.Set.Basic
import Mathlib.Order.WellFounded

/-!
# Mutexes and deadlocks

Some commands of a pool acquire a mutex and some release one. A mutex is owned
by the thread that acquired it last, until it is released. A deadlock is a set of
threads each of which is about to acquire a mutex owned by one of the set, and
there is none where every thread waits for threads of a smaller rank only.
-/
namespace IsolationServer.Mutexes
open CommandPrograms

/-- The mutexes that the commands acquire and release. -/
structure Locking (C μ : Type) where
  acquires : C → Option μ
  releases : C → Option μ

namespace Locking

variable {ι τ C μ X : Type} {R : C → Type} {σ : Type} [DecidableEq μ] (L : Locking C μ)

/-- The thread that owns `m` after the commands of the trace. -/
def owner (m : μ) (trace : List (Event ι τ C)) : Option ι :=
  trace.foldl (fun o e =>
    if L.acquires e.command = some m then some e.thread
    else if L.releases e.command = some m then none else o) none

@[simp] theorem owner_nil (m : μ) : L.owner m ([] : List (Event ι τ C)) = none := rfl

theorem owner_concat (m : μ) (trace : List (Event ι τ C)) (e : Event ι τ C) :
    L.owner m (trace ++ [e]) =
      if L.acquires e.command = some m then some e.thread
      else if L.releases e.command = some m then none else L.owner m trace := by
  simp only [owner, List.foldl_append, List.foldl_cons, List.foldl_nil]

/-- Thread `i` is about to acquire a mutex that thread `j` owns. -/
def WaitsFor (p : Pool ι τ C R σ) (i j : ι) : Prop :=
  ∃ c m, p.next i = some c ∧ L.acquires c = some m ∧ L.owner m p.trace = some j

/-- Threads that all wait for one another. -/
def Deadlocked (p : Pool ι τ C R σ) : Prop :=
  ∃ threads : Set ι, threads.Nonempty ∧ ∀ i ∈ threads, ∃ j ∈ threads, L.WaitsFor p i j

/-- Where every thread that waits for another one has the larger rank, a thread of the
least rank waits for nobody. -/
theorem not_deadlocked_of_rank {p : Pool ι τ C R σ} (rank : ι → ℕ)
    (h : ∀ i j k, L.WaitsFor p i j → L.WaitsFor p j k → rank j < rank i) : ¬L.Deadlocked p := by
  rintro ⟨threads, hne, hwait⟩
  obtain ⟨i, hi, hmin⟩ := (InvImage.wf rank Nat.lt_wfRel.wf).has_min threads hne
  obtain ⟨j, hj, hij⟩ := hwait i hi
  obtain ⟨k, -, hjk⟩ := hwait j hj
  exact hmin j hj (h i j k hij hjk)

/-- In the stages `stage`, which hold the mutexes `locks`, the threads hold what they
own. -/
def Owned (locks : X → List μ) (trace : List (Event ι τ C)) (stage : ι → X) : Prop :=
  ∀ m i, L.owner m trace = some i ↔ m ∈ locks (stage i)

variable {L} {locks : X → List μ} {trace : List (Event ι τ C)} {stage : ι → X} {i : ι} {y : X}

theorem owned_nil (h : ∀ i, locks (stage i) = []) :
    L.Owned locks ([] : List (Event ι τ C)) stage := by
  intro m i
  simp [h i]

variable [DecidableEq ι]

/-- A thread that holds nothing goes to a stage that holds nothing. -/
theorem Owned.move (h : L.Owned locks trace stage) (hx : locks (stage i) = [])
    (hy : locks y = []) : L.Owned locks trace (Function.update stage i y) := by
  intro m j
  rw [h m j]
  by_cases hj : j = i
  · subst hj
    simp [hx, hy]
  · rw [Function.update_of_ne hj]

/-- A thread issues a command, which acquires only mutexes without an owner and
releases only its own. -/
theorem Owned.command (h : L.Owned locks trace stage) {a : τ} {c : C}
    (hfree : ∀ m, L.acquires c = some m → L.owner m trace = none)
    (hown : ∀ m, L.releases c = some m → m ∈ locks (stage i))
    (hlocks : ∀ m, m ∈ locks y ↔
      L.acquires c = some m ∨ (m ∈ locks (stage i) ∧ L.releases c ≠ some m)) :
    L.Owned locks (trace ++ [⟨i, a, c⟩]) (Function.update stage i y) := by
  intro m j
  rw [owner_concat]
  by_cases hj : j = i
  · subst hj
    rw [Function.update_self, hlocks m]
    by_cases hacq : L.acquires c = some m
    · simp [hacq]
    · by_cases hrel : L.releases c = some m
      · simp [hacq, hrel]
      · simpa [hacq, hrel] using h m j
  · rw [Function.update_of_ne hj, ← h m j]
    by_cases hacq : L.acquires c = some m
    · simp [hacq, hfree m hacq, Ne.symm hj]
    · by_cases hrel : L.releases c = some m
      · have howner : L.owner m trace = some i := (h m i).mpr (hown m hrel)
        simp [hacq, hrel, howner, Ne.symm hj]
      · simp [hacq, hrel]

end Locking

end IsolationServer.Mutexes
