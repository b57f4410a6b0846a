import IsolationServer.Runs
import Mathlib.Data.List.Induction
import Mathlib.Logic.Function.Basic
import Mathlib.Tactic.Cases

/-!
# Programs of atomic commands and their interleavings

A program issues commands one at a time and continues with their replies. It
can be run to completion, or be one of many threads whose commands interleave
in any order. A blocked command (a mutex that is held) has no reply until some
other thread changes the shared state. `undefined` is the end of a program that
has run into undefined behaviour.

A protocol is a set of stages with a transition relation on commands and
replies. A program conforms to it when each of its commands is a transition;
the stages then describe every point of every thread, and an invariant has to
be checked once per transition instead of once per program point.
-/
namespace IsolationServer.CommandPrograms
open Runs

/-- A program over the commands `C`, where `c` is answered by a value of `R c`. -/
inductive Program (C : Type) (R : C → Type) (α : Type) where
  | done (a : α)
  | undefined
  | issue (c : C) (k : R c → Program C R α)

namespace Program

variable {C : Type} {R : C → Type} {α β : Type}

def bind : Program C R α → (α → Program C R β) → Program C R β
  | done a, f => f a
  | undefined, _ => undefined
  | issue c k, f => issue c fun r => (k r).bind f

instance : Monad (Program C R) where
  pure := done
  bind := bind

/-- Issue one command and return its reply. -/
def call (c : C) : Program C R (R c) := issue c done

@[simp] theorem pure_eq_done (a : α) : (pure a : Program C R α) = done a := rfl

@[simp] theorem done_bind (a : α) (f : α → Program C R β) : (done a >>= f) = f a := rfl

@[simp] theorem undefined_bind (f : α → Program C R β) :
    ((undefined : Program C R α) >>= f) = undefined := rfl

@[simp] theorem issue_bind (c : C) (k : R c → Program C R α) (f : α → Program C R β) :
    (issue c k >>= f) = issue c fun r => k r >>= f := rfl

@[simp] theorem call_bind (c : C) (f : R c → Program C R β) :
    (call c >>= f) = issue c f := rfl

variable {σ : Type} (exec : (c : C) → σ → Option (R c × σ))

/-- Run to completion with nobody else running. -/
def run : Program C R α → σ → Option (α × σ)
  | done a, s => some (a, s)
  | undefined, _ => none
  | issue c k, s => (exec c s).bind fun q => (k q.1).run q.2

@[simp] theorem run_done (a : α) (s : σ) : run exec (done a) s = some (a, s) := rfl

@[simp] theorem run_undefined (s : σ) :
    run exec (undefined : Program C R α) s = none := rfl

@[simp] theorem run_issue (c : C) (k : R c → Program C R α) (s : σ) :
    run exec (issue c k) s = (exec c s).bind fun q => (k q.1).run exec q.2 := rfl

/-- A sequence of programs runs them one after the other. -/
theorem run_bind (p : Program C R α) (f : α → Program C R β) (s : σ) :
    run exec (p >>= f) s = (run exec p s).bind fun q => run exec (f q.1) q.2 := by
  induction p generalizing s with
  | done a => rfl
  | undefined => rfl
  | issue c k ih =>
    simp only [issue_bind, run_issue, Option.bind_assoc]
    congr 1
    funext q
    exact ih q.1 q.2

/-- Run alone until the `n`-th of the commands that can fail throws: it has no
effect, and nothing after it runs. -/
def runFailing (fails : C → Bool) : ℕ → Program C R α → σ → Option σ
  | _, done _, s => some s
  | _, undefined, _ => none
  | n, issue c k, s =>
    if fails c = true then
      match n with
      | 0 => some s
      | n + 1 => (exec c s).bind fun q => (k q.1).runFailing fails n q.2
    else (exec c s).bind fun q => (k q.1).runFailing fails n q.2

section Failing

variable {fails : C → Bool} {n : ℕ} {c : C} {k : R c → Program C R α} {s : σ}

@[simp] theorem runFailing_done (a : α) :
    runFailing exec fails n (done a : Program C R α) s = some s := by
  cases n <;> rfl

/-- The command that throws. -/
theorem runFailing_throw (h : fails c = true) :
    runFailing exec fails 0 (issue c k) s = some s := by
  simp [runFailing, h]

/-- A command that could have thrown. -/
theorem runFailing_pass (h : fails c = true) : runFailing exec fails (n + 1) (issue c k) s =
    (exec c s).bind fun q => (k q.1).runFailing exec fails n q.2 := by
  simp [runFailing, h]

/-- A command that cannot throw. -/
theorem runFailing_safe (h : fails c = false) : runFailing exec fails n (issue c k) s =
    (exec c s).bind fun q => (k q.1).runFailing exec fails n q.2 := by
  cases n <;> simp [runFailing, h]

end Failing

/-- The program over a larger set of commands, whose replies hold those of its own. -/
def embed {C' : Type} {R' : C' → Type} (f : C → C') (g : ∀ c, R' (f c) → R c) :
    Program C R α → Program C' R' α
  | done a => done a
  | undefined => undefined
  | issue c k => issue (f c) fun r => (k (g c r)).embed f g

/-- The command that the program issues next. -/
def next : Program C R α → Option C
  | issue c _ => some c
  | _ => none

end Program

/-- A thread, what it is doing and the command it has just issued. -/
structure Event (ι τ C : Type) where
  thread : ι
  activity : τ
  command : C
  deriving DecidableEq

/-- Threads over one shared state, with the commands issued so far, oldest first. -/
structure Pool (ι τ C : Type) (R : C → Type) (σ : Type) where
  shared : σ
  threads : ι → Option (τ × Program C R Unit)
  trace : List (Event ι τ C)

/-- How the shared state answers commands, what each activity does, and when a
thread may take an activity up. -/
structure System (ι τ C : Type) (R : C → Type) (σ : Type) where
  exec : (c : C) → σ → Option (R c × σ)
  body : ι → τ → Program C R Unit
  allows : σ → ι → τ → Bool

inductive Action (ι τ : Type) where
  | start (i : ι) (a : τ)
  | advance (i : ι)
  deriving DecidableEq

variable {ι τ C : Type} {R : C → Type} {σ : Type}

/-- A pool in which no thread is doing anything. -/
def Pool.idle (s : σ) : Pool ι τ C R σ := ⟨s, fun _ => none, []⟩

/-- The command thread `i` issues next, if it is busy. -/
def Pool.next (p : Pool ι τ C R σ) (i : ι) : Option C :=
  (p.threads i).bind fun q => q.2.next

/-- What thread `i` is doing. -/
def Pool.activity (p : Pool ι τ C R σ) (i : ι) : Option τ :=
  (p.threads i).map Prod.fst

theorem Pool.activity_update [DecidableEq ι] (p : Pool ι τ C R σ) (i : ι) (s : σ)
    (th : Option (τ × Program C R Unit)) (tr : List (Event ι τ C)) :
    (⟨s, Function.update p.threads i th, tr⟩ : Pool ι τ C R σ).activity =
      Function.update p.activity i (th.map Prod.fst) := by
  funext j
  by_cases hj : j = i
  · subst hj
    simp [Pool.activity]
  · simp [Pool.activity, hj]

/-- Thread `i` has run into undefined behaviour. -/
def Pool.undefinedAt (p : Pool ι τ C R σ) (i : ι) : Bool :=
  match p.threads i with
  | some (_, .undefined) => true
  | _ => false

namespace System

variable [DecidableEq ι] (M : System ι τ C R σ)

/-- One scheduling step: an idle thread takes up an activity, or a busy thread
issues its next command, or returns. -/
def step (p : Pool ι τ C R σ) : Action ι τ → Option (Pool ι τ C R σ)
  | .start i a =>
    if (p.threads i).isNone && M.allows p.shared i a then
      some { p with threads := Function.update p.threads i (some (a, M.body i a)) }
    else none
  | .advance i =>
    match p.threads i with
    | none => none
    | some (_, .done _) => some { p with threads := Function.update p.threads i none }
    | some (_, .undefined) => none
    | some (a, .issue c k) =>
      (M.exec c p.shared).map fun q =>
        ⟨q.2, Function.update p.threads i (some (a, k q.1)), p.trace ++ [⟨i, a, c⟩]⟩

/-- Everything a scheduling step can do. -/
theorem step_cases {M : System ι τ C R σ} {p p' : Pool ι τ C R σ} {act : Action ι τ}
    (h : M.step p act = some p') :
    (∃ i a, act = .start i a ∧ p.threads i = none ∧ M.allows p.shared i a = true ∧
      p' = ⟨p.shared, Function.update p.threads i (some (a, M.body i a)), p.trace⟩) ∨
    (∃ i a u, act = .advance i ∧ p.threads i = some (a, .done u) ∧
      p' = ⟨p.shared, Function.update p.threads i none, p.trace⟩) ∨
    (∃ i a c k r s, act = .advance i ∧ p.threads i = some (a, .issue c k) ∧
      M.exec c p.shared = some (r, s) ∧
      p' = ⟨s, Function.update p.threads i (some (a, k r)), p.trace ++ [⟨i, a, c⟩]⟩) := by
  cases act with
  | start i a =>
    simp only [step, Bool.and_eq_true, Option.isNone_iff_eq_none] at h
    split at h
    · rename_i hc
      exact .inl ⟨i, a, rfl, hc.1, hc.2, (Option.some.inj h).symm⟩
    · cases h
  | advance i =>
    simp only [step] at h
    split at h
    · cases h
    · rename_i a u ht
      exact .inr (.inl ⟨i, a, u, rfl, ht, (Option.some.inj h).symm⟩)
    · cases h
    · rename_i a c k ht
      obtain ⟨⟨r, s⟩, hq, hp⟩ := Option.map_eq_some_iff.mp h
      exact .inr (.inr ⟨i, a, c, k, r, s, rfl, ht, hq, hp.symm⟩)

/-- What the threads are doing after a step. -/
theorem activity_cases {M : System ι τ C R σ} {p p' : Pool ι τ C R σ} {act : Action ι τ}
    (h : M.step p act = some p') {i : ι} {a : τ} (hi : p'.activity i = some a) :
    p.activity i = some a ∨ act = .start i a := by
  have hupd : ∀ (j : ι) (s : σ) (th : Option (τ × Program C R Unit)) (tr : List (Event ι τ C)),
      (⟨s, Function.update p.threads j th, tr⟩ : Pool ι τ C R σ).activity i = some a →
      p.activity i = some a ∨ (i = j ∧ th.map Prod.fst = some a) := by
    intro j s th tr hj
    by_cases hij : i = j
    · subst hij
      exact .inr ⟨rfl, by simpa [Pool.activity] using hj⟩
    · exact .inl (by simpa [Pool.activity, Function.update_of_ne hij] using hj)
  rcases step_cases h with ⟨j, b, rfl, -, -, rfl⟩ | ⟨j, b, u, -, -, rfl⟩ |
    ⟨j, b, c, k, r, s, -, hj, -, rfl⟩
  · rcases hupd j _ _ _ hi with hp | ⟨rfl, hb⟩
    · exact .inl hp
    · exact .inr (by rw [← Option.some.inj hb])
  · rcases hupd j _ _ _ hi with hp | ⟨-, hb⟩
    · exact .inl hp
    · cases hb
  · rcases hupd j _ _ _ hi with hp | ⟨rfl, hb⟩
    · exact .inl hp
    · exact .inl (by simpa [Pool.activity, hj] using hb)

/-- No thread becomes busy by going on. -/
theorem idle_of_advance {M : System ι τ C R σ} {p p' : Pool ι τ C R σ} {i j : ι}
    (h : M.step p (.advance i) = some p') (hj : p.threads j = none) : p'.threads j = none := by
  rcases step_cases h with ⟨k, a, hact, -⟩ | ⟨k, a, u, -, -, rfl⟩ |
    ⟨k, a, c, q, r, s, -, hk, -, rfl⟩
  · cases hact
  · simp only [Function.update_apply]
    split_ifs
    · rfl
    · exact hj
  · have hjk : j ≠ k := by
      rintro rfl
      rw [hj] at hk
      cases hk
    exact (Function.update_of_ne hjk ..).trans hj

/-- The other threads stay where they are. -/
theorem threads_of_advance {M : System ι τ C R σ} {p p' : Pool ι τ C R σ} {i j : ι}
    (h : M.step p (.advance i) = some p') (hj : j ≠ i) : p'.threads j = p.threads j := by
  rcases step_cases h with ⟨k, a, hact, -⟩ | ⟨k, a, u, hact, -, rfl⟩ |
    ⟨k, a, c, q, r, s, hact, -, -, rfl⟩
  · cases hact
  · obtain rfl := Action.advance.inj hact
    exact Function.update_of_ne hj ..
  · obtain rfl := Action.advance.inj hact
    exact Function.update_of_ne hj ..

/-- Assertions on the remaining programs of the threads: one that holds when an
activity is taken up, that a thread keeps for itself and that the commands of
the other threads do not break, holds of every thread. -/
theorem assertion_step {M : System ι τ C R σ} {P : σ → ι → Program C R Unit → Prop}
    (hstart : ∀ s i a, M.allows s i a = true → P s i (M.body i a))
    (hown : ∀ s s' i c k r, P s i (.issue c k) → M.exec c s = some (r, s') → P s' i (k r))
    (hother : ∀ s s' i j c k r q, j ≠ i → P s i (.issue c k) → M.exec c s = some (r, s') →
      P s j q → P s' j q)
    {p p' : Pool ι τ C R σ} {act : Action ι τ}
    (hp : ∀ i a q, p.threads i = some (a, q) → P p.shared i q) (h : M.step p act = some p')
    (j : ι) (b : τ) (q : Program C R Unit) (hj : p'.threads j = some (b, q)) :
    P p'.shared j q := by
  rcases step_cases h with ⟨i, a, -, -, ha, rfl⟩ | ⟨i, a, u, -, hi, rfl⟩ |
    ⟨i, a, c, k, r, s, -, hi, he, rfl⟩
  · by_cases hji : j = i
    · subst hji
      simp only [Function.update_self, Option.some.injEq, Prod.mk.injEq] at hj
      rw [← hj.2]
      exact hstart p.shared j a ha
    · simp only [Function.update_of_ne hji] at hj
      exact hp j b q hj
  · by_cases hji : j = i
    · subst hji
      simp at hj
    · simp only [Function.update_of_ne hji] at hj
      exact hp j b q hj
  · have hc := hp i a _ hi
    by_cases hji : j = i
    · subst hji
      simp only [Function.update_self, Option.some.injEq, Prod.mk.injEq] at hj
      rw [← hj.2]
      exact hown p.shared s j c k r hc he
    · simp only [Function.update_of_ne hji] at hj
      exact hother p.shared s i j c k r q hji hc he (hp j b q hj)

end System

section Overlap

variable [DecidableEq ι] {κ : Type} {M : System ι τ C R σ} {p p' : Pool ι τ C R σ}
  {act : Action ι τ}

/-- The side condition that no activity is taken up while another thread is
busy with one for the same `key`. -/
def Disjoint (key : τ → Option κ) (p : Pool ι τ C R σ) : Action ι τ → Prop
  | .start i a => ∀ k, key a = some k → ∀ j b, j ≠ i → p.activity j = some b → key b ≠ some k
  | .advance _ => True

/-- At most one thread is busy with an activity for each key. -/
def OnePer (key : τ → Option κ) (p : Pool ι τ C R σ) : Prop :=
  ∀ i j a b k, p.activity i = some a → p.activity j = some b → key a = some k →
    key b = some k → i = j

omit [DecidableEq ι] in
theorem onePer_idle (key : τ → Option κ) (s : σ) :
    OnePer key (Pool.idle s : Pool ι τ C R σ) := by
  intro i j a b k ha
  simp [Pool.activity, Pool.idle] at ha

theorem OnePer.step {key : τ → Option κ} (h : OnePer key p) (hok : Disjoint key p act)
    (hs : M.step p act = some p') : OnePer key p' := by
  intro i j a b k ha hb hka hkb
  by_contra hij
  rcases System.activity_cases hs ha with ha' | rfl
  · rcases System.activity_cases hs hb with hb' | rfl
    · exact hij (h i j a b k ha' hb' hka hkb)
    · exact hok k hkb i a hij ha' hka
  · rcases System.activity_cases hs hb with hb' | hact
    · exact hok k hka j b (Ne.symm hij) hb' hkb
    · exact hij (Action.start.inj hact).1

/-- The action takes up nothing with a key on a thread other than `i`. -/
def onlyBy (key : τ → Option κ) (i : ι) : Action ι τ → Bool
  | .start j a => (key a).isNone || j == i
  | .advance _ => true

/-- Where only one thread takes up activities with a key, they do not overlap,
whatever the other threads do meanwhile. -/
theorem along_disjoint (key : τ → Option κ) (i : ι) (acts : List (Action ι τ))
    (p : Pool ι τ C R σ) (hp : ∀ j b, j ≠ i → p.activity j = some b → key b = none)
    (hacts : ∀ act ∈ acts, onlyBy key i act = true) :
    Along M.step (Disjoint key) p acts := by
  have hstart : ∀ {j b}, onlyBy key i (.start j b) = true → j ≠ i → key b = none := by
    intro j b hby hj
    simpa [onlyBy, hj] using hby
  refine Along.of_invariant (I := fun q => ∀ j b, j ≠ i → q.activity j = some b → key b = none)
    (P := fun act => onlyBy key i act = true) ?_ ?_ acts p hp hacts
  · intro q act q' hq hby hs j b hj hb
    rcases System.activity_cases hs hb with hb' | rfl
    · exact hq j b hj hb'
    · exact hstart hby hj
  · intro q act hq hby
    cases act with
    | start j a =>
      intro k hk l b hl hb hkb
      by_cases hj : j = i
      · subst hj
        rw [hq l b hl hb] at hkb
        cases hkb
      · rw [hstart hby hj] at hk
        cases hk
    | advance j => trivial

/-- The thread that the action moves. -/
def Action.thread : Action ι τ → ι
  | .start i _ => i
  | .advance i => i

/-- No thread other than those in `is` is doing anything. -/
def Within (is : List ι) (p : Pool ι τ C R σ) : Prop := ∀ j, j ∉ is → p.threads j = none

omit [DecidableEq ι] in
theorem Within.next {is : List ι} (h : Within is p) {j : ι} (hj : j ∉ is) : p.next j = none := by
  simp [Pool.next, h j hj]

theorem Within.step {is : List ι} (h : Within is p) (hact : act.thread ∈ is)
    (hs : M.step p act = some p') : Within is p' := by
  intro j hj
  have hne : ∀ k, k ∈ is → j ≠ k := by
    rintro k hk rfl
    exact hj hk
  rcases System.step_cases hs with ⟨k, a, rfl, -, -, rfl⟩ | ⟨k, a, u, rfl, -, rfl⟩ |
    ⟨k, a, c, q, r, s, rfl, -, -, rfl⟩
  · exact (Function.update_of_ne (hne k hact) _ _).trans (h j hj)
  · exact (Function.update_of_ne (hne k hact) _ _).trans (h j hj)
  · exact (Function.update_of_ne (hne k hact) _ _).trans (h j hj)

/-- Where finitely many threads do anything, a side condition that concerns all threads can
be replaced by one that looks at these. -/
theorem along_within {ok ok' : Pool ι τ C R σ → Action ι τ → Prop} (is : List ι)
    (himp : ∀ p act, Within is p → ok p act → ok' p act) {acts : List (Action ι τ)}
    (hacts : ∀ act ∈ acts, act.thread ∈ is) {p : Pool ι τ C R σ} (hp : Within is p)
    (h : Along M.step ok p acts) : Along M.step ok' p acts := by
  induction acts generalizing p with
  | nil => trivial
  | cons act acts ih =>
    refine ⟨himp p act hp h.1, fun p' hs => ?_⟩
    exact ih (fun b hb => hacts b (List.mem_cons_of_mem _ hb))
      (hp.step (hacts act List.mem_cons_self) hs) (h.2 p' hs)

omit [DecidableEq ι] in
theorem Within.disjoint {i : ι} (h : Within [i] p) (key : τ → Option κ) (hact : act.thread = i) :
    Disjoint key p act := by
  cases act with
  | start j a =>
    obtain rfl : j = i := hact
    intro k _ l b hl hb
    simp [Pool.activity, h l (by simpa using hl)] at hb
  | advance j => trivial

end Overlap

section Protocols

variable {X : Type}

/-- Each command of the program is a transition of the protocol, whatever the
reply. The program ends in a stage that meets `fin` together with the value it
returns, or with `none` where it is undefined. -/
def Conforms (δ : X → (c : C) → R c → X → Prop) {α : Type} (fin : Option α → X → Prop) :
    X → Program C R α → Prop
  | x, .done a => fin (some a) x
  | x, .undefined => fin none x
  | x, .issue c k => ∀ r, ∃ y, δ x c r y ∧ Conforms δ fin y (k r)

/-- Every command that the program can issue satisfies `Q`. -/
def Issues (Q : C → Prop) {α : Type} : Program C R α → Prop
  | .done _ => True
  | .undefined => True
  | .issue c k => Q c ∧ ∀ r, Issues Q (k r)

theorem Conforms.bind {δ : X → (c : C) → R c → X → Prop} {α β : Type}
    {mid : Option α → X → Prop} {fin : Option β → X → Prop} {p : Program C R α}
    {f : α → Program C R β} {x : X} (hp : Conforms δ mid x p)
    (hu : ∀ y, mid none y → fin none y)
    (hf : ∀ a y, mid (some a) y → Conforms δ fin y (f a)) : Conforms δ fin x (p >>= f) := by
  induction p generalizing x with
  | done a => exact hf a x hp
  | undefined => exact hu x hp
  | issue c k ih =>
    intro r
    obtain ⟨y, hy, hk⟩ := hp r
    exact ⟨y, hy, ih r hk⟩

theorem Issues.issue {Q : C → Prop} {α : Type} {c : C} {k : R c → Program C R α} (hc : Q c)
    (hk : ∀ r, Issues Q (k r)) : Issues Q (.issue c k) := ⟨hc, hk⟩

theorem Issues.mono {Q Q' : C → Prop} {α : Type} (h : ∀ c, Q c → Q' c) {p : Program C R α}
    (hp : Issues Q p) : Issues Q' p := by
  induction p with
  | done a => trivial
  | undefined => trivial
  | issue c k ih => exact ⟨h c hp.1, fun r => ih r (hp.2 r)⟩

theorem Issues.bind {Q : C → Prop} {α β : Type} {p : Program C R α} {f : α → Program C R β}
    (hp : Issues Q p) (hf : ∀ a, Issues Q (f a)) : Issues Q (p >>= f) := by
  induction p with
  | done a => exact hf a
  | undefined => trivial
  | issue c k ih => exact ⟨hp.1, fun r => ih r (hp.2 r)⟩

/-- Commands that leave a stage alone keep a program in it. -/
theorem Issues.conforms {δ : X → (c : C) → R c → X → Prop} {Q : C → Prop} {α : Type}
    {fin : Option α → X → Prop} {x : X} (hQ : ∀ c r, Q c → δ x c r x) (hfin : ∀ a, fin a x)
    {p : Program C R α} (hp : Issues Q p) : Conforms δ fin x p := by
  induction p with
  | done a => exact hfin (some a)
  | undefined => exact hfin none
  | issue c k ih => exact fun r => ⟨x, hQ c r hp.1, ih r (hp.2 r)⟩

theorem Conforms.embed {C' : Type} {R' : C' → Type} {f : C → C'} {g : ∀ c, R' (f c) → R c}
    {δ : X → (c : C) → R c → X → Prop} {δ' : X → (c : C') → R' c → X → Prop}
    (hδ : ∀ x c r y, δ x c (g c r) y → δ' x (f c) r y) {α : Type} {fin : Option α → X → Prop}
    {p : Program C R α} {x : X} (hp : Conforms δ fin x p) :
    Conforms δ' fin x (p.embed f g) := by
  induction p generalizing x with
  | done a => exact hp
  | undefined => exact hp
  | issue c k ih =>
    intro r
    obtain ⟨y, hy, hk⟩ := hp (g c r)
    exact ⟨y, hδ x c r y hy, ih (g c r) hk⟩

/-- The program never ends in undefined behaviour. -/
def Defined {α : Type} : Program C R α → Prop
  | .done _ => True
  | .undefined => False
  | .issue _ k => ∀ r, Defined (k r)

theorem Defined.bind {α β : Type} {p : Program C R α} {f : α → Program C R β} (hp : Defined p)
    (hf : ∀ a, Defined (f a)) : Defined (p >>= f) := by
  induction p with
  | done a => exact hf a
  | undefined => exact hp.elim
  | issue c k ih => exact fun r => ih r (hp r)

/-- The same for a program that is never undefined. -/
theorem Issues.conforms_of_defined {δ : X → (c : C) → R c → X → Prop} {Q : C → Prop} {α : Type}
    {fin : Option α → X → Prop} {x : X} (hQ : ∀ c r, Q c → δ x c r x)
    (hfin : ∀ a, fin (some a) x) {p : Program C R α} (hp : Issues Q p) (hd : Defined p) :
    Conforms δ fin x p := by
  induction p with
  | done a => exact hfin a
  | undefined => exact hd.elim
  | issue c k ih => exact fun r => ⟨x, hQ c r hp.1, ih r (hp.2 r) (hd r)⟩

/-- `stage` is a stage of each thread: idle threads rest, and the remaining
program of a busy thread conforms to the protocol from its stage and ends as
`fin` says. -/
def Staged (δ : ι → τ → X → (c : C) → R c → X → Prop) (fin : Option Unit → X → Prop) (rest : X)
    (p : Pool ι τ C R σ) (stage : ι → X) : Prop :=
  ∀ i, match p.threads i with
    | none => stage i = rest
    | some (a, q) => Conforms (δ i a) fin (stage i) q

/-- A program that ends at rest, also where it is undefined. -/
abbrev Resting (rest : X) : Option Unit → X → Prop := fun _ y => y = rest

variable {δ : ι → τ → X → (c : C) → R c → X → Prop} {fin : Option Unit → X → Prop} {rest : X}

theorem staged_idle (s : σ) :
    Staged δ fin rest (Pool.idle s : Pool ι τ C R σ) (fun _ => rest) := by
  intro i
  rfl

theorem Staged.rest_of_idle {p : Pool ι τ C R σ} {stage : ι → X}
    (h : Staged δ fin rest p stage) {i : ι} (hi : p.threads i = none) : stage i = rest := by
  have hs := h i
  rw [hi] at hs
  exact hs

/-- A thread in a stage other than `rest` is about to issue a command that the
protocol allows there. -/
theorem Staged.next_command {p : Pool ι τ C R σ} {stage : ι → X}
    (h : Staged δ (Resting rest) rest p stage) {i : ι} (hi : stage i ≠ rest) :
    ∃ a c k, p.threads i = some (a, .issue c k) ∧
      ∀ r, ∃ y, δ i a (stage i) c r y ∧ Conforms (δ i a) (Resting rest) y (k r) := by
  have hs := h i
  split at hs
  · exact absurd hs hi
  · rename_i a q hq
    cases q with
    | done u => exact absurd hs hi
    | undefined => exact absurd hs hi
    | issue c k => exact ⟨a, c, k, hq, hs⟩

theorem Staged.conforms {p : Pool ι τ C R σ} {stage : ι → X}
    (h : Staged δ fin rest p stage) {i : ι} {a : τ} {q : Program C R Unit}
    (hi : p.threads i = some (a, q)) : Conforms (δ i a) fin (stage i) q := by
  have hs := h i
  rw [hi] at hs
  exact hs

/-- A thread with no command left to issue rests. -/
theorem Staged.rest_of_next_none {p : Pool ι τ C R σ} {stage : ι → X}
    (h : Staged δ (Resting rest) rest p stage) {i : ι} (hi : p.next i = none) :
    stage i = rest := by
  by_contra hne
  obtain ⟨a, c, k, ht, -⟩ := h.next_command hne
  simp [Pool.next, ht, Program.next] at hi

variable [DecidableEq ι]

/-- Changing one thread and its stage together keeps the pool staged. -/
theorem Staged.update {p : Pool ι τ C R σ} {stage : ι → X} (h : Staged δ fin rest p stage)
    (i : ι) (s : σ) (tr : List (Event ι τ C)) (th : Option (τ × Program C R Unit)) (x : X)
    (hx : match (motive := Option (τ × Program C R Unit) → Prop) th with
      | none => x = rest
      | some (a, q) => Conforms (δ i a) fin x q) :
    Staged δ fin rest (⟨s, Function.update p.threads i th, tr⟩ : Pool ι τ C R σ)
      (Function.update stage i x) := by
  intro j
  by_cases hj : j = i
  · subst hj
    simpa only [Function.update_self] using hx
  · simpa only [Function.update_of_ne hj] using h j

/-- A scheduling step of a staged pool whose threads take up their activities in
the stage `start` and may end in any stage that `fin` allows. -/
theorem Staged.step_from {M : System ι τ C R σ} (start : ι → τ → X) {act : Action ι τ}
    (hbody : ∀ i a, act = .start i a → Conforms (δ i a) fin (start i a) (M.body i a))
    {p p' : Pool ι τ C R σ} {stage : ι → X} (h : Staged δ fin rest p stage)
    (hs : M.step p act = some p') :
    (∃ i a, act = .start i a ∧ p.threads i = none ∧ M.allows p.shared i a = true ∧
      p'.shared = p.shared ∧ p'.trace = p.trace ∧
      p'.activity = Function.update p.activity i (some a) ∧
      Staged δ fin rest p' (Function.update stage i (start i a))) ∨
    (∃ i, act = .advance i ∧ fin (some ()) (stage i) ∧
      p'.shared = p.shared ∧ p'.trace = p.trace ∧
      p'.activity = Function.update p.activity i none ∧
      Staged δ fin rest p' (Function.update stage i rest)) ∨
    (∃ i a c k r x, act = .advance i ∧ p.threads i = some (a, .issue c k) ∧
      M.exec c p.shared = some (r, p'.shared) ∧ δ i a (stage i) c r x ∧
      p'.trace = p.trace ++ [⟨i, a, c⟩] ∧ p'.activity = p.activity ∧
      Staged δ fin rest p' (Function.update stage i x)) := by
  rcases System.step_cases hs with ⟨i, a, hact, hi, ha, rfl⟩ | ⟨i, a, u, hact, hi, rfl⟩ |
    ⟨i, a, c, k, r, s, hact, hi, he, rfl⟩
  · exact .inl ⟨i, a, hact, hi, ha, rfl, rfl, p.activity_update i _ _ _,
      h.update i p.shared p.trace (some (a, M.body i a)) (start i a) (hbody i a hact)⟩
  · exact .inr (.inl ⟨i, hact, h.conforms hi, rfl, rfl, p.activity_update i _ _ _,
      h.update i p.shared p.trace none rest rfl⟩)
  · obtain ⟨x, hδ, hk⟩ := h.conforms hi r
    have ha : p.activity i = some a := by simp [Pool.activity, hi]
    have hsame : Function.update p.activity i (some a) = p.activity := by
      rw [← ha, Function.update_eq_self]
    exact .inr (.inr ⟨i, a, c, k, r, x, hact, hi, he, hδ, rfl,
      (p.activity_update i _ _ _).trans hsame, h.update i s _ (some (a, k r)) x hk⟩)

/-- A scheduling step of a staged pool either leaves the shared state, the
trace and the stages alone, or is one transition of one thread. -/
theorem Staged.step {M : System ι τ C R σ}
    (hbody : ∀ i a, Conforms (δ i a) fin rest (M.body i a)) (hfin : ∀ y, fin (some ()) y → y = rest)
    {p p' : Pool ι τ C R σ} {stage : ι → X} (h : Staged δ fin rest p stage)
    {act : Action ι τ} (hs : M.step p act = some p') :
    (Staged δ fin rest p' stage ∧ p'.shared = p.shared ∧ p'.trace = p.trace) ∨
    (∃ i a c k r x, act = .advance i ∧ p.threads i = some (a, .issue c k) ∧
      M.exec c p.shared = some (r, p'.shared) ∧ δ i a (stage i) c r x ∧
      p'.trace = p.trace ++ [⟨i, a, c⟩] ∧
      Staged δ fin rest p' (Function.update stage i x)) := by
  have hsame : ∀ i, stage i = rest → Function.update stage i rest = stage := by
    intro i hi
    rw [← hi, Function.update_eq_self]
  rcases h.step_from (fun _ _ => rest) (fun i a _ => hbody i a) hs with
    ⟨i, a, -, hi, -, hw, ht, -, hp'⟩ | ⟨i, -, hi, hw, ht, -, hp'⟩ |
    ⟨i, a, c, k, r, x, hact, hi, he, hδ, ht, -, hp'⟩
  · exact .inl ⟨hsame i (h.rest_of_idle hi) ▸ hp', hw, ht⟩
  · exact .inl ⟨hsame i (hfin _ hi) ▸ hp', hw, ht⟩
  · exact .inr ⟨i, a, c, k, r, x, hact, hi, he, hδ, ht, hp'⟩

/-- Every thread follows the protocol, and at most one is busy with an activity for each
key. -/
def OneEach {κ : Type} (δ : ι → τ → X → (c : C) → R c → X → Prop) (rest : X) (key : τ → Option κ)
    (p : Pool ι τ C R σ) : Prop :=
  (∃ stage, Staged δ (Resting rest) rest p stage) ∧ OnePer key p

omit [DecidableEq ι] in
theorem oneEach_idle {κ : Type} (key : τ → Option κ) (s : σ) :
    OneEach δ rest key (Pool.idle s : Pool ι τ C R σ) :=
  ⟨⟨_, staged_idle s⟩, onePer_idle key s⟩

theorem OneEach.step {κ : Type} {key : τ → Option κ} {M : System ι τ C R σ}
    (hbody : ∀ i a, Conforms (δ i a) (Resting rest) rest (M.body i a)) {p p' : Pool ι τ C R σ}
    {act : Action ι τ} (h : OneEach δ rest key p) (hok : Disjoint key p act)
    (hs : M.step p act = some p') : OneEach δ rest key p' := by
  obtain ⟨⟨stage, hst⟩, hone⟩ := h
  refine ⟨?_, hone.step hok hs⟩
  rcases hst.step hbody (fun _ h => h) hs with ⟨hst', -, -⟩ |
    ⟨i, a, c, k, r, x, -, -, -, -, -, hst'⟩
  · exact ⟨stage, hst'⟩
  · exact ⟨_, hst'⟩

/-- Where the activities for each key do not overlap, a side condition that follows from
this holds along the run. -/
theorem OneEach.along {κ : Type} {key : τ → Option κ} {M : System ι τ C R σ}
    (hbody : ∀ i a, Conforms (δ i a) (Resting rest) rest (M.body i a))
    {ok : Pool ι τ C R σ → Action ι τ → Prop} (hok : ∀ p act, OneEach δ rest key p → ok p act)
    {s : σ} {acts : List (Action ι τ)} (hd : Along M.step (Disjoint key) (Pool.idle s) acts) :
    Along M.step ok (Pool.idle s) acts :=
  Along.mono (I := OneEach δ rest key) (fun _ _ _ h hdis hs => h.step hbody hdis hs)
    (fun p act h _ => hok p act h) (oneEach_idle key s) hd

end Protocols

end IsolationServer.CommandPrograms
