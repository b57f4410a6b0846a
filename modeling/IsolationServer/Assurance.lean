import IsolationServer.CommandPrograms

/-!
# Programs that rely on the replies they get

A program may owe what it does to what it was told: it issues a command because of
an earlier reply. Here the replies are assumed to be honest, and every command that
the program can then issue has to be justified. Where an invariant of the shared
state makes the replies honest and is kept by every justified command, it holds in
every run of threads with such programs.
-/
namespace IsolationServer.CommandPrograms
open Runs

variable {C : Type} {R : C → Type} {ι τ σ : Type}

/-- While the replies are honest, every command of the program is justified, and it
returns a value with `fin`. -/
def Assured (justified : C → Prop) (honest : (c : C) → R c → Prop) {α : Type} (fin : α → Prop) :
    Program C R α → Prop
  | .done a => fin a
  | .undefined => True
  | .issue c k => justified c ∧ ∀ r, honest c r → Assured justified honest fin (k r)

section Programs

variable {justified : C → Prop} {honest : (c : C) → R c → Prop} {α β : Type} {fin : α → Prop}

theorem Assured.issue {c : C} {k : R c → Program C R α} (hc : justified c)
    (hk : ∀ r, honest c r → Assured justified honest fin (k r)) :
    Assured justified honest fin (.issue c k) := ⟨hc, hk⟩

theorem Assured.bind {fin' : β → Prop} {p : Program C R α} {f : α → Program C R β}
    (hp : Assured justified honest fin p) (hf : ∀ a, fin a → Assured justified honest fin' (f a)) :
    Assured justified honest fin' (p >>= f) := by
  induction p with
  | done a => exact hf a hp
  | undefined => trivial
  | issue c k ih => exact ⟨hp.1, fun r hr => ih r (hp.2 r hr)⟩

/-- A program all of whose commands are justified need not rely on anything. -/
theorem Issues.assured {p : Program C R α} (hp : Issues justified p) :
    Assured justified honest (fun _ => True) p := by
  induction p with
  | done a => trivial
  | undefined => trivial
  | issue c k ih => exact ⟨hp.1, fun r _ => ih r (hp.2 r)⟩

end Programs

section Pools

variable (justified : ι → τ → C → Prop) (honest : ι → τ → (c : C) → R c → Prop) (I : σ → Prop)

/-- The invariant holds, and every thread goes on with a program that is assured for what
it is doing. -/
structure Sound (p : Pool ι τ C R σ) : Prop where
  shared : I p.shared
  threads : ∀ i a q, p.threads i = some (a, q) →
    Assured (justified i a) (honest i a) (fun _ => True) q

variable {justified honest I}

theorem sound_idle {s : σ} (h : I s) : Sound justified honest I (Pool.idle s : Pool ι τ C R σ) where
  shared := h
  threads i a q hi := by cases hi

/-- What an idle thread may do and rely on can be chosen anew. -/
theorem Sound.replace {justified' : ι → τ → C → Prop} {honest' : ι → τ → (c : C) → R c → Prop}
    {I' : σ → Prop} {p : Pool ι τ C R σ} (h : Sound justified honest I p) (hI : I' p.shared)
    (hsame : ∀ i, p.threads i ≠ none → justified' i = justified i ∧ honest' i = honest i) :
    Sound justified' honest' I' p where
  shared := hI
  threads i a q hi := by
    obtain ⟨hj, hh⟩ := hsame i (by rw [hi]; simp)
    rw [hj, hh]
    exact h.threads i a q hi

variable [DecidableEq ι] {M : System ι τ C R σ}

/-- The replies are honest, and a justified command keeps the invariant. -/
def Keeps (M : System ι τ C R σ) (justified : ι → τ → C → Prop)
    (honest : ι → τ → (c : C) → R c → Prop) (I : σ → Prop) : Prop :=
  ∀ i a c s r s', justified i a c → I s → M.exec c s = some (r, s') → honest i a c r ∧ I s'

theorem Sound.step (hkeeps : Keeps M justified honest I) {p p' : Pool ι τ C R σ} {act : Action ι τ}
    (hbody : ∀ i a, act = .start i a →
      Assured (justified i a) (honest i a) (fun _ => True) (M.body i a))
    (h : Sound justified honest I p) (hs : M.step p act = some p') :
    Sound justified honest I p' := by
  have hupdate : ∀ i x, (∀ a q, x = some (a, q) →
      Assured (justified i a) (honest i a) (fun _ => True) q) →
      ∀ j a q, Function.update p.threads i x j = some (a, q) →
        Assured (justified j a) (honest j a) (fun _ => True) q := by
    intro i x hx j a q hj
    by_cases hji : j = i
    · subst hji
      rw [Function.update_self] at hj
      exact hx a q hj
    · rw [Function.update_of_ne hji] at hj
      exact h.threads j a q hj
  rcases System.step_cases hs with ⟨i, a, hact, -, -, rfl⟩ | ⟨i, a, u, -, -, rfl⟩ |
    ⟨i, a, c, k, r, s, -, hi, he, rfl⟩
  · refine ⟨h.shared, hupdate i _ fun b q hq => ?_⟩
    obtain ⟨rfl, rfl⟩ := Prod.mk.inj (Option.some.inj hq)
    exact hbody i a hact
  · exact ⟨h.shared, hupdate i _ fun b q hq => by cases hq⟩
  · obtain ⟨hc, hk⟩ := h.threads i a _ hi
    obtain ⟨hhonest, hI⟩ := hkeeps i a c p.shared r s hc h.shared he
    refine ⟨hI, hupdate i _ fun b q hq => ?_⟩
    obtain ⟨rfl, rfl⟩ := Prod.mk.inj (Option.some.inj hq)
    exact hk r hhonest

/-- The rule for runs. The programs of the activities that the run takes up have to
be assured, and no others. -/
theorem sound_run (hkeeps : Keeps M justified honest I) {acts : List (Action ι τ)}
    (hbody : ∀ i a, .start i a ∈ acts →
      Assured (justified i a) (honest i a) (fun _ => True) (M.body i a))
    {p p' : Pool ι τ C R σ} (h : Sound justified honest I p) (hr : runs M.step p acts = some p') :
    Sound justified honest I p' :=
  invariant_of_mem (fun _ hact _ _ hp hs => hp.step hkeeps (fun i a he => hbody i a (he ▸ hact)) hs)
    h hr

end Pools

end IsolationServer.CommandPrograms
