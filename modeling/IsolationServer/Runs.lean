import Mathlib.Data.List.Basic
import Mathlib.Logic.Function.Basic

/-!
# Runs of a partial step function

A transition system is given by a step function that fails on actions that are
not enabled. A run takes a list of actions in order. A side condition on the
steps of a run is stated on the state before each step, so that it can mention
what every other party is about to do. Where each party is in a stage of its
own, a step moves one of them.
-/
namespace IsolationServer.Runs

variable {S A : Type*} (step : S → A → Option S)

/-- Take the actions in order, failing at the first one that is not enabled. -/
def runs : S → List A → Option S
  | s, [] => some s
  | s, a :: as => (step s a).bind fun s' => runs s' as

/-- Every action of the run meets `ok` in the state in which it is taken. -/
def Along (ok : S → A → Prop) : S → List A → Prop
  | _, [] => True
  | s, a :: as => ok s a ∧ ∀ s', step s a = some s' → Along ok s' as

variable {step}

/-- A decidable side condition can be checked along a concrete run. -/
instance decidableAlong {ok : S → A → Prop} [∀ s a, Decidable (ok s a)] :
    ∀ (s : S) (as : List A), Decidable (Along step ok s as)
  | _, [] => .isTrue trivial
  | s, a :: as =>
    match hs : step s a with
    | none => decidable_of_iff (ok s a) ⟨fun h => ⟨h, fun s' h' => by simp [hs] at h'⟩, And.left⟩
    | some s' =>
      have : Decidable (Along step ok s' as) := decidableAlong s' as
      decidable_of_iff (ok s a ∧ Along step ok s' as)
        (and_congr_right fun _ => ⟨fun h t ht => Option.some.inj (hs.symm.trans ht) ▸ h,
          fun h => h s' hs⟩)

@[simp] theorem runs_nil (s : S) : runs step s [] = some s := rfl

theorem runs_cons {s s'' : S} {a : A} {as : List A} :
    runs step s (a :: as) = some s'' ↔
      ∃ s', step s a = some s' ∧ runs step s' as = some s'' := by
  simp [runs, Option.bind_eq_some_iff]

/-- A run that ends with the action `a` is a run followed by one step. -/
theorem runs_concat {s s'' : S} {a : A} {as : List A} :
    runs step s (as ++ [a]) = some s'' ↔
      ∃ s', runs step s as = some s' ∧ step s' a = some s'' := by
  induction as generalizing s with
  | nil => simp [runs]
  | cons b as ih =>
    simp only [List.cons_append, runs_cons, ih]
    constructor
    · rintro ⟨t, hb, u, hu, ha⟩
      exact ⟨u, ⟨t, hb, hu⟩, ha⟩
    · rintro ⟨u, ⟨t, hb, hu⟩, ha⟩
      exact ⟨t, hb, u, hu, ha⟩

/-- An invariant kept by every step that meets the side condition holds at the
end of every run whose steps all meet it. -/
theorem invariant_along {ok : S → A → Prop} {I : S → Prop}
    (hstep : ∀ s a s', I s → ok s a → step s a = some s' → I s') :
    ∀ {as : List A} {s s' : S}, I s → Along step ok s as → runs step s as = some s' → I s'
  | [], s, s', hI, _, hr => by
    simp only [runs_nil, Option.some.injEq] at hr
    exact hr ▸ hI
  | a :: as, s, s', hI, hok, hr => by
    obtain ⟨t, ht, hr'⟩ := runs_cons.mp hr
    exact invariant_along hstep (hstep s a t hI hok.1 ht) (hok.2 t ht) hr'

/-- Where the actions are all of the form `f b`, only these have to keep the
invariant. -/
theorem invariant_map {B : Type*} (f : B → A) {I : S → Prop}
    (hstep : ∀ s b s', I s → step s (f b) = some s' → I s') {bs : List B} {s s' : S} (hI : I s)
    (hr : runs step s (bs.map f) = some s') : I s' := by
  induction bs generalizing s with
  | nil =>
    simp only [List.map_nil, runs_nil, Option.some.injEq] at hr
    exact hr ▸ hI
  | cons b bs ih =>
    obtain ⟨t, ht, hr'⟩ := runs_cons.mp hr
    exact ih (hstep s b t hI ht) hr'

/-- The unconditional form of `invariant_along`. -/
theorem invariant {I : S → Prop} (hstep : ∀ s a s', I s → step s a = some s' → I s')
    {as : List A} {s s' : S} (hI : I s) (hr : runs step s as = some s') : I s' :=
  invariant_map id hstep hI (by rwa [List.map_id])

/-- Only the actions of the run have to keep the invariant. -/
theorem invariant_of_mem {I : S → Prop} {as : List A}
    (hstep : ∀ a ∈ as, ∀ s s', I s → step s a = some s' → I s') {s s' : S} (hI : I s)
    (hr : runs step s as = some s') : I s' := by
  induction as generalizing s with
  | nil =>
    simp only [runs_nil, Option.some.injEq] at hr
    exact hr ▸ hI
  | cons a as ih =>
    obtain ⟨t, ht, hr'⟩ := runs_cons.mp hr
    exact ih (fun b hb => hstep b (List.mem_cons_of_mem _ hb))
      (hstep a List.mem_cons_self s t hI ht) hr'

/-- An invariant that speaks of the actions taken so far. -/
theorem history_along {ok : S → A → Prop} {I : List A → S → Prop}
    (hstep : ∀ as s a s', I as s → ok s a → step s a = some s' → I (as ++ [a]) s')
    {as bs : List A} {s s' : S} (hI : I bs s) (hok : Along step ok s as)
    (hr : runs step s as = some s') : I (bs ++ as) s' := by
  induction as generalizing bs s with
  | nil =>
    simp only [runs_nil, Option.some.injEq] at hr
    rw [List.append_nil, ← hr]
    exact hI
  | cons a as ih =>
    obtain ⟨t, ht, hr'⟩ := runs_cons.mp hr
    rw [List.append_cons]
    exact ih (hstep bs s a t hI hok.1 ht) (hok.2 t ht) hr'

/-- A run of two lists of actions is one run after the other. -/
theorem runs_append (as bs : List A) (s : S) :
    runs step s (as ++ bs) = (runs step s as).bind fun s' => runs step s' bs := by
  induction as generalizing s with
  | nil => rfl
  | cons a as ih =>
    simp only [List.cons_append, runs, Option.bind_assoc]
    congr 1
    funext s'
    exact ih s'

/-- Simulation: two systems that take the actions of a run from related states to
related states do so along the whole run. -/
theorem runs_rel_of_mem {S' : Type*} {step' : S' → A → Option S'} {R : S → S' → Prop} (as : List A)
    (h : ∀ a ∈ as, ∀ s s', R s s' → Option.Rel R (step s a) (step' s' a)) {s : S} {s' : S'}
    (hR : R s s') : Option.Rel R (runs step s as) (runs step' s' as) := by
  induction as generalizing s s' with
  | nil => exact .some hR
  | cons a as ih =>
    have ha := h a List.mem_cons_self s s' hR
    unfold runs
    generalize step s a = x at ha
    generalize step' s' a = y at ha
    cases ha with
    | none => exact .none
    | some hR' => exact ih (fun b hb => h b (List.mem_cons_of_mem _ hb)) hR'

/-- The same for systems that agree on all actions. -/
theorem runs_rel {S' : Type*} {step' : S' → A → Option S'} {R : S → S' → Prop}
    (h : ∀ s s' a, R s s' → Option.Rel R (step s a) (step' s' a)) (as : List A) {s : S} {s' : S'}
    (hR : R s s') : Option.Rel R (runs step s as) (runs step' s' as) :=
  runs_rel_of_mem as (fun a _ s s' => h s s' a) hR

/-- A side condition that an invariant implies holds along every run, where the
invariant may be kept by the actions with `P` only. -/
theorem Along.of_invariant {ok : S → A → Prop} {I : S → Prop} {P : A → Prop}
    (hstep : ∀ s a s', I s → P a → step s a = some s' → I s')
    (himp : ∀ s a, I s → P a → ok s a) (as : List A) (s : S) (hI : I s) (hP : ∀ a ∈ as, P a) :
    Along step ok s as := by
  induction as generalizing s with
  | nil => trivial
  | cons a as ih =>
    have ha : P a := hP a List.mem_cons_self
    exact ⟨himp s a hI ha, fun t ht => ih t (hstep s a t hI ha ht) fun b hb =>
      hP b (List.mem_cons_of_mem _ hb)⟩

/-- A weaker side condition holds along every run along which a stronger one
does, given an invariant that links the two. -/
theorem Along.mono {ok ok' : S → A → Prop} {I : S → Prop}
    (hstep : ∀ s a s', I s → ok s a → step s a = some s' → I s')
    (himp : ∀ s a, I s → ok s a → ok' s a) :
    ∀ {as : List A} {s : S}, I s → Along step ok s as → Along step ok' s as
  | [], _, _, _ => trivial
  | a :: _, s, hI, h => ⟨himp s a hI h.1, fun t ht =>
      Along.mono hstep himp (hstep s a t hI h.1 ht) (h.2 t ht)⟩

/-! ## Stages of several parties -/

/-- What one party at a time has stays so when the party `t` moves to the stage `x`,
provided that nobody else has what it then has. -/
theorem exclusive_update {T X K : Type*} [DecidableEq T] (has : X → K → Prop) {stage : T → X}
    {t : T} {x : X} (h : ∀ a b k, has (stage a) k → has (stage b) k → a = b)
    (hx : ∀ k, has x k → ∀ b, b ≠ t → ¬has (stage b) k) (a b : T) (k : K)
    (ha : has (Function.update stage t x a) k) (hb : has (Function.update stage t x b) k) :
    a = b := by
  by_cases hat : a = t
  · by_cases hbt : b = t
    · rw [hat, hbt]
    · rw [hat, Function.update_self] at ha
      rw [Function.update_of_ne hbt] at hb
      exact absurd hb (hx k ha b hbt)
  · rw [Function.update_of_ne hat] at ha
    by_cases hbt : b = t
    · rw [hbt, Function.update_self] at hb
      exact absurd ha (hx k hb a hat)
    · rw [Function.update_of_ne hbt] at hb
      exact h a b k ha hb

/-- A party that does not move keeps its stage. -/
theorem exists_update {T X : Type*} [DecidableEq T] (P : X → Prop) {stage : T → X} {t : T} {x : X}
    (h : ∃ u, P (stage u)) (ht : ¬P (stage t)) : ∃ u, P (Function.update stage t x u) := by
  obtain ⟨u, hu⟩ := h
  have hut : u ≠ t := by
    rintro rfl
    exact ht hu
  exact ⟨u, by rwa [Function.update_of_ne hut]⟩

end IsolationServer.Runs
