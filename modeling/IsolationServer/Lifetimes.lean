import IsolationServer.Linearization
import IsolationServer.Restarts

/-!
# The server from one restart to the next

A restart drops all connections and threads wherever they are and deletes what the two
scans report. If the scans report everything and no registration is cut off, the next
server does what a fresh machine with the same accounts does, whatever other handlers
were cut off.
-/
namespace IsolationServer.Lifetimes
open Authentication CommandPrograms CreationProtocol HashStore LeaseProtocol Linearization
open Places Registration Restarts Runs Serialisability

/-! ## The machine across restarts -/

inductive Happening where
  | event (t : Token) (a : Activity)
  | restart

/-- A restart leaves the machine with its accounts. -/
def live (gen : Generated) (M : Machine) : Happening → Option Machine
  | .event t a => M.step gen (t, a)
  | .restart => some (Machine.withAccounts M.accounts)

/-- The events in the order in which their handlers start, and the restarts. -/
def happenings : List Turn → List Happening
  | [] => []
  | .serve (.start t a) :: turns => .event t a :: happenings turns
  | .serve (.advance _) :: turns => happenings turns
  | .restart _ _ :: turns => .restart :: happenings turns

/-! ## Runs over several servers -/

def trackTurn (gen : Generated) (s : Tracked) : Turn → Option Tracked
  | .serve act => track gen s act
  | .restart scanResult scanResult2 =>
    (turn gen s.pool (.restart scanResult scanResult2)).map fun p => ⟨p, ∅, fun _ => none⟩

/-- The side condition on a run: no handler starts for an account that another one is
busy with, no restart cuts off a registration, and the scans of a restart report all
keys that are to be deleted. -/
def TurnsApart (gen : Generated) (s : Tracked) : Turn → Prop
  | .serve act => AccountsApart gen s act
  | .restart scanResult scanResult2 =>
    (∀ t ∈ s.busy, (s.pool.activity t).bind (registerRequest gen) = none) ∧
      CleanStore ((scanResult ++ scanResult2).foldl Store.del s.pool.shared.redis)

/-- Nobody is registering the account `id`. -/
def Unregistering (gen : Generated) (p : ServerPool) (id : Bytes) : Prop :=
  ∀ t a m, p.activity t = some a → registerRequest gen a = some m → m.id ≠ id

/-- The server on its way to a state that represents `M`, whose accounts are those of the
store, apart from the ones that are being registered. -/
structure Enduring (gen : Generated) (s : Tracked) (v : World) (M : Machine) : Prop where
  ordered : Ordered s v M
  staged : ∃ stage, Staged (RegisterMove gen) (Resting .idle) .idle s.pool stage
  target : ∀ t a m, s.pool.activity t = some a → registerRequest gen a = some m →
    s.accounts t = some m.id
  accounts : ∀ id, Unregistering gen s.pool id → ∀ f,
    s.pool.shared.redis.hashGet (idKey id) f = v.redis.hashGet (idKey id) f

section Steps

variable {gen : Generated} {s s' : Tracked} {p : ServerPool} {v w w' : World} {M M' : Machine}
  {t : Token} {a : Activity} {id : Bytes} {scanResult scanResult2 : List Bytes}

theorem react_of_step (h : M.step gen (t, a) = some M') : M' = M.react gen t a := by
  cases a <;> (simp only [Machine.step] at h; split at h) <;>
    first | exact (Option.some.inj h).symm | cases h

/-- Only a registration changes the accounts, and only its own. -/
theorem accounts_react (h : ∀ m, registerRequest gen a = some m → m.id ≠ id) :
    (M.react gen t a).accounts id = M.accounts id := by
  have hlogout : (M.logout t).accounts = M.accounts := by
    unfold Machine.logout
    split <;> rfl
  cases a with
  | accept now => rfl
  | register data =>
    simp only [Machine.react]
    cases hm : gen.parseRegisterAccount data with
    | none => rfl
    | some m =>
      have hid : id ≠ m.id := (h m hm).symm
      dsimp only
      unfold Machine.register
      split_ifs
      · simp [Machine.answer, hid]
      · rfl
  | login data now =>
    simp only [Machine.react]
    cases gen.parseLogin data with
    | none => rfl
    | some m =>
      dsimp only
      unfold Machine.login
      split_ifs <;> rfl
  | playerData data =>
    simp only [Machine.react]
    split_ifs
    · unfold Machine.playerData
      split <;> rfl
    · rfl
  | logout data =>
    simp only [Machine.react]
    split_ifs
    · rw [hlogout]
    · rfl
  | disconnect =>
    simp only [Machine.react]
    rw [hlogout]

/-- A move of a registration leaves the other accounts alone. -/
theorem accounts_of_move {x y : CreationProtocol.Stage PMRequestRegisterAccount} {c : Command}
    {r : Reply c} (h : RegisterMove gen t a x c r y) (he : exec c w = some (r, w'))
    (hid : ∀ m, registerRequest gen a = some m → m.id ≠ id) (f : Bytes) :
    w'.redis.hashGet (idKey id) f = w.redis.hashGet (idKey id) f := by
  cases h with
  | quiet c r hc => exact congrFun (congrFun (accountsOf_quiet hc he) id) f
  | test m hm =>
    simp only [exec, Option.some.injEq, Prod.mk.injEq] at he
    obtain ⟨-, rfl⟩ := he
    rfl
  | write m n g y hm hf =>
    cases executed_of_exec he
    have hne : id ≠ m.id := (hid m hm).symm
    simp [Store.hashGet_hashSet, hne]
  | answer m r hm =>
    cases executed_of_exec he
    rfl

theorem track_pool {act : Action Token Activity} (hs : track gen s act = some s') :
    (server gen).step s.pool act = some s'.pool := by
  obtain ⟨p, hp, rfl⟩ := Option.map_eq_some_iff.mp hs
  cases act <;> exact hp

/-- A server at which no handler is busy. -/
theorem enduring_fresh (hidle : ∀ t, p.threads t = none) (hrep : Represents p.shared M) :
    Enduring gen ⟨p, ∅, fun _ => none⟩ p.shared M where
  ordered := ordered_fresh hidle hrep
  staged := by
    refine ⟨fun _ => .idle, fun t => ?_⟩
    rw [hidle t]
  target t a m ht := by simp [Pool.activity, hidle t] at ht
  accounts _ _ _ := rfl

theorem Enduring.staged_step (h : Enduring gen s v M) {act : Action Token Activity}
    (hs : track gen s act = some s') :
    ∃ stage, Staged (RegisterMove gen) (Resting .idle) .idle s'.pool stage := by
  obtain ⟨stage, hst⟩ := h.staged
  rcases hst.step (body_conforms gen) (fun _ h => h) (track_pool hs) with ⟨hst', -⟩ |
    ⟨i, a, c, k, r, x, -, -, -, -, -, hst'⟩
  · exact ⟨stage, hst'⟩
  · exact ⟨_, hst'⟩

theorem Enduring.start (h : Enduring gen s v M) (hok : AccountsApart gen s (.start t a))
    (hs : track gen s (.start t a) = some s') :
    ∃ v' M', M.step gen (t, a) = some M' ∧ Enduring gen s' v' M' := by
  obtain ⟨v', M', -, hM, hord⟩ := h.ordered.start hok hs
  have hstaged := h.staged_step hs
  obtain ⟨hidle, -, rfl⟩ := track_start hs
  refine ⟨v', M', hM, hord, hstaged, fun u b m hu hm => ?_, fun id hid f => ?_⟩
  · rw [Pool.activity_update] at hu
    by_cases hut : u = t
    · subst hut
      obtain rfl : a = b := by simpa using hu
      cases a with
      | register data =>
        have hreq : gen.parseRegisterAccount data = some m := hm
        simp [account, hreq]
      | _ => cases hm
    · simp only [Function.update_of_ne hut] at hu ⊢
      exact h.target u b m hu hm
  · have hother : Unregistering gen s.pool id := by
      intro u b m hu
      have hut : u ≠ t := by
        rintro rfl
        simp [Pool.activity, hidle] at hu
      refine hid u b m ?_
      rwa [Pool.activity_update, Function.update_of_ne hut]
    have hself : ∀ m, registerRequest gen a = some m → m.id ≠ id := by
      refine fun m => hid t a m ?_
      rw [Pool.activity_update, Function.update_self]
      rfl
    have hsame : M'.accounts id = M.accounts id := by
      rw [react_of_step hM, accounts_react hself]
    rw [h.accounts id hother f, hord.represents.accounts, h.ordered.represents.accounts, hsame]

/-- A registration that has returned has left its account. -/
theorem Enduring.unheld (h : Enduring gen s v M) (hord : Ordered s' v M)
    (haccounts : s'.accounts = s.accounts)
    (hactive : ∀ u b, s'.pool.activity u = some b → s.pool.activity u = some b)
    {m : PMRequestRegisterAccount} (ht : s.pool.activity t = some a)
    (hm : registerRequest gen a = some m) (hidle : s'.pool.threads t = none) (u : Token) :
    Place.key (idKey m.id) ∉ holding s' u := by
  intro hu
  have hbusy : u ∈ s'.busy := by
    by_contra hn
    rw [holding, if_neg hn] at hu
    exact hu
  have hu' : Place.key (idKey m.id) ∈ holding s u := by
    obtain ⟨⟨b, q⟩, hb⟩ := Option.ne_none_iff_exists'.mp ((hord.busy u).mp hbusy)
    have hactivity := hactive u b (by rw [Pool.activity, hb, Option.map_some])
    have hbusy' : u ∈ s.busy := by
      rw [h.ordered.busy u]
      intro hnone
      simp [Pool.activity, hnone] at hactivity
    rw [holding, if_pos hbusy, haccounts] at hu
    rwa [holding, if_pos hbusy']
  have ht' : Place.key (idKey m.id) ∈ holding s t := by
    have hbusy' : t ∈ s.busy := by
      rw [h.ordered.busy t]
      intro hnone
      simp [Pool.activity, hnone] at ht
    rw [holding, if_pos hbusy', h.target t a m ht hm]
    exact .inr ⟨m.id, rfl, .inl rfl⟩
  obtain rfl := h.ordered.serial.exclusive u t _ hu' ht'
  exact (hord.busy u).mp hbusy hidle

/-- While a handler goes on, only the account that it registers changes, and that is as in
the order when the handler has returned. -/
theorem Enduring.advance (h : Enduring gen s v M) (hs : track gen s (.advance t) = some s') :
    Enduring gen s' v M := by
  have hord := h.ordered.advance hs
  have hstaged := h.staged_step hs
  have hp := track_pool hs
  obtain ⟨stage, hst⟩ := h.staged
  have haccounts : s'.accounts = s.accounts := by
    obtain ⟨p, -, rfl⟩ := Option.map_eq_some_iff.mp hs
    rfl
  have hactive : ∀ u b, s'.pool.activity u = some b → s.pool.activity u = some b := by
    intro u b hu
    rcases System.activity_cases hp hu with hu | hact
    · exact hu
    · cases hact
  refine ⟨hord, hstaged, fun u b m hu hm => ?_, fun id hid f => ?_⟩
  · rw [haccounts]
    exact h.target u b m (hactive u b hu) hm
  · by_cases hreg : Unregistering gen s.pool id
    · rw [← h.accounts id hreg f]
      rcases hst.step (body_conforms gen) (fun _ h => h) hp with ⟨-, hsame, -⟩ |
        ⟨u, b, c, k, r, x, -, hu, he, hmove, -, -⟩
      · rw [hsame]
      · refine accounts_of_move hmove he (fun m => hreg u b m ?_) f
        rw [Pool.activity, hu, Option.map_some]
    · -- the registration of `id` is the handler that has returned
      unfold Unregistering at hreg
      push Not at hreg
      obtain ⟨u, b, m, hu, hm, rfl⟩ := hreg
      have hidle : s'.pool.threads u = none := by
        by_contra hn
        obtain ⟨⟨x, q⟩, hx⟩ := Option.ne_none_iff_exists'.mp hn
        have hx' : s'.pool.activity u = some x := by rw [Pool.activity, hx, Option.map_some]
        obtain rfl := Option.some.inj ((hactive u x hx').symm.trans hu)
        exact hid u x m hx' hm rfl
      have hfree := h.unheld hord haccounts hactive hu hm hidle
      exact congrFun (hord.serial.look_eq hfree) f

/-- After a complete cleanup the store holds the accounts and nothing else. -/
theorem recorded_restart (h : Enduring gen s v M)
    (hok : TurnsApart gen s (.restart scanResult scanResult2))
    (hscan : scansMatch scanResult scanResult2 = true) :
    Recorded ((scanResult ++ scanResult2).foldl Store.del s.pool.shared.redis) M.accounts where
  clean := hok.2
  accounts id f := by
    have hnobody : Unregistering gen s.pool id := by
      intro t a m ht hm
      have hbusy : t ∈ s.busy := by
        rw [h.ordered.busy t]
        intro hnone
        simp [Pool.activity, hnone] at ht
      have hnone := hok.1 t hbusy
      rw [ht, Option.bind_some, hm] at hnone
      cases hnone
    have hsame := accountsOf_restarted (p := s.pool) hscan
    rw [← h.ordered.represents.accounts, ← h.accounts id hnobody f]
    exact congrFun (congrFun hsame id) f

theorem Enduring.restart (h : Enduring gen s v M)
    (hok : TurnsApart gen s (.restart scanResult scanResult2))
    (hs : trackTurn gen s (.restart scanResult scanResult2) = some s') :
    ∃ v', Enduring gen s' v' (Machine.withAccounts M.accounts) := by
  obtain ⟨p, hp, rfl⟩ := Option.map_eq_some_iff.mp hs
  simp only [turn] at hp
  split at hp
  · rename_i hscan
    obtain rfl := Option.some.inj hp
    exact ⟨_, enduring_fresh (fun _ => rfl) (recorded_restart h hok hscan).represents⟩
  · cases hp

end Steps

/-! ## Whole runs -/

section Runs

variable {gen : Generated} {s s' : Tracked} {v : World} {M : Machine}

theorem Enduring.run {turns : List Turn} (h : Enduring gen s v M)
    (hok : Along (trackTurn gen) (TurnsApart gen) s turns)
    (hr : runs (trackTurn gen) s turns = some s') :
    ∃ v' M', runs (live gen) M (happenings turns) = some M' ∧ Enduring gen s' v' M' := by
  induction turns generalizing s v M with
  | nil =>
    obtain rfl := Option.some.inj hr
    exact ⟨v, M, rfl, h⟩
  | cons a turns ih =>
    obtain ⟨s₁, hs, hrest⟩ := runs_cons.mp hr
    have hok₁ := hok.2 s₁ hs
    cases a with
    | serve act =>
      cases act with
      | start t a =>
        obtain ⟨v₁, M₁, hM, h₁⟩ := h.start hok.1 hs
        obtain ⟨v', M', hM', h'⟩ := ih h₁ hok₁ hrest
        exact ⟨v', M', runs_cons.mpr ⟨M₁, hM, hM'⟩, h'⟩
      | advance t => exact ih (h.advance hs) hok₁ hrest
    | restart scanResult scanResult2 =>
      obtain ⟨v₁, h₁⟩ := h.restart hok.1 hs
      obtain ⟨v', M', hM', h'⟩ := ih h₁ hok₁ hrest
      exact ⟨v', M', runs_cons.mpr ⟨_, rfl, hM'⟩, h'⟩

/-- Every run over several servers can be tracked. -/
theorem exists_trackTurn {turns : List Turn} {p : ServerPool}
    (hr : runs (turn gen) s.pool turns = some p) :
    ∃ s', runs (trackTurn gen) s turns = some s' ∧ s'.pool = p := by
  induction turns generalizing s with
  | nil => exact ⟨s, rfl, Option.some.inj hr⟩
  | cons a turns ih =>
    obtain ⟨p₁, hp, hrest⟩ := runs_cons.mp hr
    obtain ⟨s₁, hs, rfl⟩ : ∃ s₁, trackTurn gen s a = some s₁ ∧ s₁.pool = p₁ := by
      cases a with
      | serve act =>
        have hstep : (server gen).step s.pool act = some p₁ := hp
        rw [trackTurn, track, hstep, Option.map_some]
        cases act <;> exact ⟨_, rfl, rfl⟩
      | restart scanResult scanResult2 =>
        rw [trackTurn, hp, Option.map_some]
        exact ⟨_, rfl, rfl⟩
    obtain ⟨s', hs', hpool⟩ := ih hrest
    exact ⟨s', runs_cons.mpr ⟨s₁, hs, hs'⟩, hpool⟩

/-- Over any number of servers, with handlers of different accounts overlapping and
restarts that cut off everything but registrations, the machine that keeps its accounts
goes through the same events and restarts: idle clients have what they have there, and so
have all accounts that are not being registered. -/
theorem lifetimes_refine_machine (gen : Generated) (redis : Redis)
    (accounts : Bytes → Option Account) (hredis : Recorded redis accounts) (turns : List Turn)
    (p : ServerPool) (hr : runs (turn gen) (Pool.idle (World.initial redis)) turns = some p)
    (hok : Along (trackTurn gen) (TurnsApart gen) (Tracked.idle redis) turns) :
    ∃ v M, runs (live gen) (Machine.withAccounts accounts) (happenings turns) = some M ∧
      Represents v M ∧
      (∀ t, p.threads t = none → SameClient p.shared v t) ∧
      (∀ id, Unregistering gen p id → ∀ f, p.shared.redis.hashGet (idKey id) f =
        (M.accounts id).bind fun account => account.field f) ∧
      ((∀ t, p.threads t = none) → SameOutcome p.shared v) := by
  obtain ⟨s, hs, rfl⟩ := exists_trackTurn (s := Tracked.idle redis) hr
  have hfresh : Enduring gen (Tracked.idle redis) (World.initial redis)
      (Machine.withAccounts accounts) := enduring_fresh (fun _ => rfl) hredis.represents
  obtain ⟨v, M, hM, h⟩ := hfresh.run hok hs
  have hrep := h.ordered.represents
  refine ⟨v, M, hM, hrep, fun t ht => h.ordered.sameClient ht, fun id hid f => ?_,
    h.ordered.sameOutcome⟩
  rw [h.accounts id hid f, hrep.accounts]

theorem cleanStore_iff (redis : Redis) : CleanStore redis ↔ ∀ key ∈ redis.hashes.keys,
    ¬str "client:" <+: key ∧ ¬str "logined:" <+: key := by
  have hmem : ∀ key, key ∈ redis.hashes.keys ↔ redis.existsKey key = true := by
    intro key
    rw [Finmap.mem_keys, ← Finmap.lookup_isSome]
    rfl
  constructor
  · intro h key hkey
    rw [hmem] at hkey
    constructor
    · rintro ⟨rest, rfl⟩
      rw [(h rest).1] at hkey
      cases hkey
    · rintro ⟨rest, rfl⟩
      rw [(h rest).2] at hkey
      cases hkey
  · intro h rest
    constructor
    · by_contra hn
      exact (h _ ((hmem _).mpr (by simpa using hn))).1 (List.prefix_append _ _)
    · by_contra hn
      exact (h _ ((hmem _).mpr (by simpa using hn))).2 (List.prefix_append _ _)

instance (redis : Redis) : Decidable (CleanStore redis) :=
  have : Decidable (∀ key ∈ redis.hashes.keys,
      ¬str "client:" <+: key ∧ ¬str "logined:" <+: key) := Finset.decidableDforallFinset
  decidable_of_iff' _ (cleanStore_iff redis)

instance (gen : Generated) (s : Tracked) : ∀ a, Decidable (TurnsApart gen s a)
  | .serve act => inferInstanceAs (Decidable (AccountsApart gen s act))
  | .restart a b =>
    have : Decidable (∀ t ∈ s.busy, (s.pool.activity t).bind (registerRequest gen) = none) :=
      Finset.decidableDforallFinset
    inferInstanceAs (Decidable (_ ∧ CleanStore ((a ++ b).foldl Store.del s.pool.shared.redis)))

/-- A restart cuts off a login after four commands; the next client 1 cannot register the
account again. -/
theorem lifetimes_refine_machine_cut_login : ∃ p v,
    runs (turn wireGenerated) (Pool.idle (World.initial Store.empty)) registerAfterRestart =
      some p ∧
    SameClient p.shared v 1 ∧
    responses p.shared 1 = [.registerAccount ⟨false, str "idAleadyInUse"⟩] := by
  have hrun : (runs (turn wireGenerated) (Pool.idle (World.initial Store.empty))
      registerAfterRestart).map (fun p => ((p.threads 1).isNone, responses p.shared 1)) =
      some (true, [.registerAccount ⟨false, str "idAleadyInUse"⟩]) := by decide +kernel
  have hok : Along (trackTurn wireGenerated) (TurnsApart wireGenerated)
      (Tracked.idle Store.empty) registerAfterRestart := by decide +kernel
  obtain ⟨p, hp, hobs⟩ := Option.map_eq_some_iff.mp hrun
  simp only [Prod.mk.injEq, Option.isNone_iff_eq_none] at hobs
  obtain ⟨v, M, -, -, hclients, -⟩ :=
    lifetimes_refine_machine wireGenerated Store.empty _ recorded_empty registerAfterRestart
      p hp hok
  exact ⟨p, v, hp, hclients 1 hobs.1, hobs.2⟩

end Runs

end IsolationServer.Lifetimes
