import IsolationServer.CommandPrograms

/-!
# Threads with separate footprints

Every thread owns a part of the shared state. When the commands of a thread read
and write its own part only, what it does in an interleaving is what it does when
it runs alone from the beginning, so every interleaving ends in the same state.
-/
namespace IsolationServer.Separation
open CommandPrograms Runs

variable {ι τ C : Type} {R : C → Type} {σ : Type} {α β : Type}

section Paths

variable (exec : (c : C) → σ → Option (R c × σ)) (Q : C → Prop)

/-- Every command that the program issues satisfies `Q` when it runs alone. -/
def Path : Program C R α → σ → Prop
  | .done _, _ => True
  | .undefined, _ => True
  | .issue c k, s => Q c ∧ ∀ r s', exec c s = some (r, s') → Path (k r) s'

variable {exec Q} {p : Program C R α} {s : σ}

theorem path_of_issues (h : Issues Q p) : Path exec Q p s := by
  induction p generalizing s with
  | done a => trivial
  | undefined => trivial
  | issue c k ih => exact ⟨h.1, fun r s' _ => ih r (h.2 r)⟩

theorem Path.mono {Q' : C → Prop} (hQ : ∀ c, Q c → Q' c) (h : Path exec Q p s) :
    Path exec Q' p s := by
  induction p generalizing s with
  | done a => trivial
  | undefined => trivial
  | issue c k ih => exact ⟨hQ c h.1, fun r s' he => ih r (h.2 r s' he)⟩

theorem Path.bind (h : Path exec Q p s) {f : α → Program C R β} (hf : ∀ a, Issues Q (f a)) :
    Path exec Q (p >>= f) s := by
  induction p generalizing s with
  | done a => exact path_of_issues (hf a)
  | undefined => trivial
  | issue c k ih => exact ⟨h.1, fun r s' he => ih r (h.2 r s' he)⟩

/-- A command that does not change the state. -/
theorem Path.read {c : C} {k : R c → Program C R α} {r : R c} (hc : Q c)
    (he : exec c s = some (r, s)) (hk : Path exec Q (k r) s) :
    Path exec Q (.issue c k) s := by
  refine ⟨hc, fun r' s' he' => ?_⟩
  rw [he, Option.some.injEq, Prod.mk.injEq] at he'
  obtain ⟨rfl, rfl⟩ := he'
  exact hk

end Paths

/-- `agree (some i) s u` says that `s` and `u` agree on the part of thread `i`, and
`agree none` on what no thread owns. The commands that thread `i` owns depend on
its part, and change nothing else. -/
structure Separate (exec : (c : C) → σ → Option (R c × σ)) (agree : Option ι → σ → σ → Prop)
    (own : ι → C → Prop) : Prop where
  refl : ∀ k s, agree k s s
  same : ∀ {i c s u r r' s' u'}, own i c → agree (some i) s u → exec c s = some (r, s') →
    exec c u = some (r', u') → r = r' ∧ agree (some i) s' u'
  frame : ∀ {i c s r s'} k u, own i c → k ≠ some i → agree k s u → exec c s = some (r, s') →
    agree k s' u

section Runs

variable {exec : (c : C) → σ → Option (R c × σ)} {agree : Option ι → σ → σ → Prop}
  {own : ι → C → Prop}

/-- A program that runs alone from `u` to `v` does the same from a state that agrees with `u`
on its own part. -/
theorem Separate.run (h : Separate exec agree own) {i : ι} {p : Program C R α} {s s' u v : σ}
    {a b : α} (hp : Path exec (own i) p u) (hu : Program.run exec p u = some (a, v))
    (hs : Program.run exec p s = some (b, s')) (hagree : agree (some i) s u) :
    agree (some i) s' v ∧ ∀ k w, k ≠ some i → agree k s w → agree k s' w := by
  induction p generalizing s u with
  | done x =>
    obtain ⟨-, rfl⟩ := Prod.mk.inj (Option.some.inj hu)
    obtain ⟨-, rfl⟩ := Prod.mk.inj (Option.some.inj hs)
    exact ⟨hagree, fun k w _ hk => hk⟩
  | undefined => cases hu
  | issue c k ih =>
    obtain ⟨⟨r, u₁⟩, hcu, hku⟩ := Option.bind_eq_some_iff.mp hu
    obtain ⟨⟨r', s₁⟩, hcs, hks⟩ := Option.bind_eq_some_iff.mp hs
    obtain ⟨rfl, hagree₁⟩ := h.same hp.1 hagree hcs hcu
    obtain ⟨hend, hother⟩ := ih r' (hp.2 r' u₁ hcu) hku hks hagree₁
    exact ⟨hend, fun j w hj hjw => hother j w hj (h.frame j w hp.1 hj hjw hcs)⟩

/-- Every thread is on its way to the part of the state in which it ends when it runs
alone: `final i` has the part of thread `i`, and `final none` what no thread owns. -/
structure Bound (exec : (c : C) → σ → Option (R c × σ)) (agree : Option ι → σ → σ → Prop)
    (own : ι → C → Prop) (final : Option ι → σ) (p : Pool ι τ C R σ) : Prop where
  rest : agree none p.shared (final none)
  idle : ∀ i, p.threads i = none → agree (some i) p.shared (final (some i))
  busy : ∀ i a q, p.threads i = some (a, q) → ∃ u, agree (some i) p.shared u ∧
    Path exec (own i) q u ∧ Program.run exec q u = some ((), final (some i))

variable [DecidableEq ι] {M : System ι τ C R σ} {final : Option ι → σ}
  {p p' : Pool ι τ C R σ}

/-- Thread `i` changes the state and goes on with `th`. -/
theorem Bound.update (hp : Bound exec agree own final p) {i : ι} {s : σ}
    {th : Option (τ × Program C R Unit)} (tr : List (Event ι τ C))
    (hother : ∀ k u, k ≠ some i → agree k p.shared u → agree k s u)
    (hidle : th = none → agree (some i) s (final (some i)))
    (hbusy : ∀ a q, th = some (a, q) → ∃ u, agree (some i) s u ∧
      Path exec (own i) q u ∧ Program.run exec q u = some ((), final (some i))) :
    Bound exec agree own final ⟨s, Function.update p.threads i th, tr⟩ := by
  refine ⟨hother none _ (by simp) hp.rest, fun j hj => ?_, fun j a q hj => ?_⟩
  · by_cases hji : j = i
    · subst hji
      exact hidle (by simpa using hj)
    · have hj' : p.threads j = none := (Function.update_of_ne hji ..).symm.trans hj
      exact hother _ _ (by simpa using hji) (hp.idle j hj')
  · by_cases hji : j = i
    · subst hji
      exact hbusy a q (by simpa using hj)
    · obtain ⟨u, hu, hrest⟩ := hp.busy j a q ((Function.update_of_ne hji ..).symm.trans hj)
      exact ⟨u, hother _ _ (by simpa using hji) hu, hrest⟩

theorem Bound.step (h : Separate M.exec agree own) (hp : Bound M.exec agree own final p) {i : ι}
    (hs : M.step p (.advance i) = some p') : Bound M.exec agree own final p' := by
  rcases System.step_cases hs with ⟨j, a, hact, -⟩ | ⟨j, a, x, -, hj, rfl⟩ |
    ⟨j, a, c, k, r, s, -, hj, he, rfl⟩
  · cases hact
  · obtain ⟨u, hagree, -, hrun⟩ := hp.busy j a _ hj
    obtain ⟨-, rfl⟩ := Prod.mk.inj (Option.some.inj hrun)
    exact hp.update _ (fun _ _ _ hk => hk) (fun _ => hagree) fun b q hb => by cases hb
  · obtain ⟨u, hagree, hpath, hrun⟩ := hp.busy j a _ hj
    obtain ⟨⟨r', u'⟩, heu, hrun'⟩ := Option.bind_eq_some_iff.mp hrun
    obtain ⟨rfl, hagree'⟩ := h.same hpath.1 hagree he heu
    refine hp.update _ (fun l v hl hv => h.frame l v hpath.1 hl hv he) (fun hn => by cases hn) ?_
    rintro b q hb
    obtain ⟨-, rfl⟩ := Prod.mk.inj (Option.some.inj hb)
    exact ⟨u', hagree', hpath.2 r u' heu, hrun'⟩

/-- Threads that only go on with what they are busy with. -/
theorem Bound.runs (h : Separate M.exec agree own) (hp : Bound M.exec agree own final p)
    {order : List ι} (hr : runs M.step p (order.map .advance) = some p') :
    Bound M.exec agree own final p' :=
  invariant_map Action.advance (fun _ _ _ hq hs => hq.step h hs) hp hr

omit [DecidableEq ι] in
/-- Where all threads have returned, the state is determined part by part. -/
theorem Bound.ended (hp : Bound exec agree own final p) (hidle : ∀ i, p.threads i = none)
    (k : Option ι) : agree k p.shared (final k) := by
  cases k with
  | none => exact hp.rest
  | some i => exact hp.idle i (hidle i)

/-- A busy thread runs to completion at once. -/
theorem Bound.complete (h : Separate exec agree own) (hp : Bound exec agree own final p)
    {i : ι} {a : τ} {q : Program C R Unit} {s : σ} (hi : p.threads i = some (a, q))
    (hs : Program.run exec q p.shared = some ((), s)) :
    Bound exec agree own final ⟨s, Function.update p.threads i none, p.trace⟩ := by
  obtain ⟨u, hagree, hpath, hrun⟩ := hp.busy i a q hi
  obtain ⟨hend, hother⟩ := h.run hpath hrun hs hagree
  exact hp.update _ (fun k w hk hkw => hother k w hk hkw) (fun _ => hend) fun b q' hb => by cases hb

end Runs

end IsolationServer.Separation
