import IsolationServer.LoginLock
import IsolationServer.Sequential

/-!
# Who holds the login locks when handlers run to completion

A login writes the session and the lock, and a logout or disconnect releases
the lock that the session names. A client that logs in to a second account
overwrites its session and leaves the first lock behind, so every lock has a
connected owner as long as no client that is logged in is granted another
login.
-/
namespace IsolationServer.LockOwnership
open HashStore Runs LoginLock LeaseProtocol

section Effects

variable (gen : Generated) (w : World) (t : Token)

/-! ## Sessions and locks after each event -/

theorem leaseOf_connect (now : ℕ) : leaseOf (w.connect gen t now).redis = leaseOf w.redis := by
  have hf : str "loginId" ≠ str "ConnectedTime" := by decide
  simp [leaseOf, World.connect, Store.hashGet_hashSet, Store.existsKey_hashSet, hf]

theorem leaseOf_createAccount (m : PMRequestRegisterAccount) :
    leaseOf (w.createAccount gen m).redis = leaseOf w.redis := by
  simp [leaseOf, World.createAccount, Store.hashGet_hashSet, Store.existsKey_hashSet]

theorem leaseOf_enter (id : Bytes) (now : ℕ) : leaseOf (w.enter t id now).redis =
    { session := Function.update (leaseOf w.redis).session t (some id)
      token := Function.update (leaseOf w.redis).token id (some (tokenStr t))
      present := Function.update (leaseOf w.redis).present id True } := by
  unfold World.enter
  rw [leaseOf_hashSet_loginTime, leaseOf_hashSet_token, leaseOf_hashSet_loginId]
  simp

theorem leaseOf_leave_none (h : (leaseOf w.redis).session t = none) : w.leave t = w := by
  have h' : w.redis.hashGet (clientKey t) (str "loginId") = none := h
  simp [World.leave, h']

theorem leaseOf_leave_some {id : Bytes} (h : (leaseOf w.redis).session t = some id) :
    leaseOf (w.leave t).redis =
      { session := Function.update (leaseOf w.redis).session t none
        token := Function.update (leaseOf w.redis).token id none
        present := Function.update (leaseOf w.redis).present id False } := by
  have h' : w.redis.hashGet (clientKey t) (str "loginId") = some id := h
  have hleave : (w.leave t).redis =
      (w.redis.del (loginedKey id)).hashDel (clientKey t) (str "loginId") := by
    simp [World.leave, h']
  rw [hleave, leaseOf_hashDel_loginId, leaseOf_del_loginedKey]

theorem leaseOf_disconnect : leaseOf (w.disconnect t).redis =
    { leaseOf w.redis with session := Function.update (leaseOf w.redis).session t none } :=
  leaseOf_del_clientKey w.redis t

end Effects

/-! ## Every lock has a connected owner -/

/-- Every lock carries the token of a connected client that is logged in to
that account. -/
def LocksOwned (w : World) : Prop :=
  ∀ id, w.redis.existsKey (loginedKey id) = true → ∃ t ∈ w.connectedClients,
    w.redis.hashGet (loginedKey id) (str "token") = some (tokenStr t) ∧
      w.redis.hashGet (clientKey t) (str "loginId") = some id

/-- The side condition on a run: a client that is logged in does not send the
right password of an account whose lock is free. -/
def NoSecondLogin (gen : Generated) (w : World) : Token × Activity → Prop
  | (t, .login data _) => ∀ m ∈ gen.parseLogin data,
      w.redis.hashGet (idKey m.id) (str "password") = some (gen.sha256 m.password) →
      w.redis.existsKey (loginedKey m.id) = false →
      w.redis.hashGet (clientKey t) (str "loginId") = none
  | _ => True

instance (gen : Generated) (w : World) : ∀ e, Decidable (NoSecondLogin gen w e)
  | (t, .login data _) => inferInstanceAs (Decidable (∀ m ∈ gen.parseLogin data,
      w.redis.hashGet (idKey m.id) (str "password") = some (gen.sha256 m.password) →
      w.redis.existsKey (loginedKey m.id) = false →
      w.redis.hashGet (clientKey t) (str "loginId") = none))
  | (_, .accept _) => .isTrue trivial
  | (_, .register _) => .isTrue trivial
  | (_, .playerData _) => .isTrue trivial
  | (_, .logout _) => .isTrue trivial
  | (_, .disconnect) => .isTrue trivial

variable {gen : Generated} {w w' : World} {t : Token} {a : Activity}

/-- The same in terms of sessions and leases. -/
def Owned (clients : Finset Token) (v : Lease Token Bytes Bytes) : Prop :=
  ∀ id, v.present id → ∃ t ∈ clients, v.token id = some (tokenStr t) ∧ v.session t = some id

theorem Owned.leave {clients : Finset Token} (h : Owned clients (leaseOf w.redis)) (t : Token) :
    Owned clients (leaseOf (w.leave t).redis) ∧ (leaseOf (w.leave t).redis).session t = none := by
  cases hs : (leaseOf w.redis).session t with
  | none => exact ⟨by rwa [leaseOf_leave_none w t hs], by rwa [leaseOf_leave_none w t hs]⟩
  | some id =>
    rw [leaseOf_leave_some w t hs]
    refine ⟨fun j hj => ?_, by simp⟩
    have hji : j ≠ id := by
      rintro rfl
      simp at hj
    simp only [Function.update_of_ne hji] at hj ⊢
    obtain ⟨u, hu, htok, hsess⟩ := h j hj
    have hut : u ≠ t := by
      rintro rfl
      exact hji (Option.some.inj (hsess.symm.trans hs))
    exact ⟨u, hu, htok, by simpa [Function.update_of_ne hut] using hsess⟩

/-- One event keeps every lock owned. -/
theorem LocksOwned.effect (h : LocksOwned w) (ha : a.allows w t = true)
    (heff : Effect gen w t a w') (hok : NoSecondLogin gen w (t, a)) : LocksOwned w' := by
  have howned : Owned w.connectedClients (leaseOf w.redis) := h
  change Owned w'.connectedClients (leaseOf w'.redis)
  cases heff with
  | connect now =>
    rw [leaseOf_connect]
    intro id hid
    obtain ⟨u, hu, hrest⟩ := howned id hid
    exact ⟨u, Finset.mem_insert_of_mem hu, hrest⟩
  | create data m hv =>
    change Owned w.connectedClients (leaseOf (w.createAccount gen m).redis)
    rwa [leaseOf_createAccount]
  | enter data now m hv =>
    obtain ⟨hm, hpw, hfree⟩ := loginVerdict_eq_granted.mp hv
    have hnone : (leaseOf w.redis).session t = none := hok m hm hpw hfree
    change Owned w.connectedClients (leaseOf (w.enter t m.id now).redis)
    rw [leaseOf_enter]
    intro id hid
    by_cases hid' : id = m.id
    · subst hid'
      exact ⟨t, of_decide_eq_true ha, by simp, by simp⟩
    · simp only [Function.update_of_ne hid'] at hid ⊢
      obtain ⟨u, hu, htok, hsess⟩ := howned id hid
      have hut : u ≠ t := by
        rintro rfl
        rw [hnone] at hsess
        cases hsess
      exact ⟨u, hu, htok, by simpa [Function.update_of_ne hut] using hsess⟩
  | answer => exact howned
  | refuse => exact howned
  | leave data hp =>
    rw [leave_connectedClients]
    exact (howned.leave t).1
  | ignore => exact howned
  | disconnect =>
    obtain ⟨hleave, hsess⟩ := howned.leave t
    intro id hid
    rw [leaseOf_disconnect] at hid ⊢
    obtain ⟨u, hu, htok, hsu⟩ := hleave id hid
    have hut : u ≠ t := by
      rintro rfl
      rw [hsess] at hsu
      cases hsu
    refine ⟨u, ?_, htok, by simpa [Function.update_of_ne hut] using hsu⟩
    simp [World.disconnect, hut, hu]

theorem locksOwned_initial {redis : Redis} (h : CleanStore redis) :
    LocksOwned (World.initial redis) := by
  intro id hid
  have habs : redis.existsKey (loginedKey id) = false := h.loginedKey id
  rw [show (World.initial redis).redis = redis from rfl, habs] at hid
  cases hid

theorem LocksOwned.serve (h : Unlocked w ∧ LocksOwned w) {e : Token × Activity}
    (hok : NoSecondLogin gen w e) (hs : serve gen w e = some w') :
    Unlocked w' ∧ LocksOwned w' := by
  obtain ⟨ha, heff, hw'⟩ := serve_cases h.1 hs
  exact ⟨hw', h.2.effect ha heff hok⟩

theorem disconnected_of_serve (hw : Unlocked w) (hs : serve gen w (t, .disconnect) = some w') :
    t ∉ w'.connectedClients := by
  obtain ⟨-, heff, -⟩ := serve_cases hw hs
  cases heff with
  | disconnect => simp [World.disconnect]
  | refuse _ _ ha => cases ha

/-- No orphaned login lock: in every run in which no client that is logged in is
granted another login, every lock carries the token of a connected client that
is logged in to that account; and after the disconnect of a client no lock
carries its token. -/
theorem locks_owned (gen : Generated) (redis : Redis) (hclean : CleanStore redis)
    (events : List (Token × Activity)) (w : World)
    (hr : runs (serve gen) (World.initial redis) events = some w)
    (hok : Along (serve gen) (NoSecondLogin gen) (World.initial redis) events) :
    LocksOwned w ∧ ∀ t w', serve gen w (t, .disconnect) = some w' →
      ∀ id, w'.redis.hashGet (loginedKey id) (str "token") ≠ some (tokenStr t) := by
  have hinv := invariant_along (I := fun w => Unlocked w ∧ LocksOwned w)
    (fun w e w' h he hs => LocksOwned.serve h he hs)
    ⟨unlocked_initial redis, locksOwned_initial hclean⟩ hok hr
  refine ⟨hinv.2, fun t w' hs id hid => ?_⟩
  have hnext := LocksOwned.serve (e := (t, .disconnect)) hinv trivial hs
  obtain ⟨u, hu, htok, -⟩ := hnext.2 id (Store.existsKey_of_hashGet hid)
  obtain rfl : u = t := by simpa using htok.symm.trans hid
  exact disconnected_of_serve hinv.1 hs hu

/-- A registration of the account `cd`. -/
def registerOther : Bytes :=
  wireField 1 (str "cd") ++ wireField 2 (str "pw") ++ wireField 3 (str "nick") ++
    wireField 4 (str "red")

def loginOther : Bytes := wireField 1 (str "cd") ++ wireField 2 (str "pw")

/-- Client 1 registers two accounts and logs in to the first one. -/
def twoAccounts : List (Token × Activity) :=
  [(1, .accept 0), (1, .register sampleRegister), (1, .register registerOther),
    (1, .login sampleLogin 5)]

/-- Client 1 logs out of the first account before it logs in to the second one. -/
def loginTwice : List (Token × Activity) :=
  twoAccounts ++ [(1, .logout []), (1, .login loginOther 6)]

theorem locks_owned_after_logout : ∃ w,
    runs (serve wireGenerated) (World.initial Store.empty) loginTwice = some w ∧
    w.redis.existsKey (loginedKey (str "cd")) = true ∧ LocksOwned w := by
  have hrun : (runs (serve wireGenerated) (World.initial Store.empty) loginTwice).map
      (fun w => w.redis.existsKey (loginedKey (str "cd"))) = some true := by decide +kernel
  obtain ⟨w, hw, hlock⟩ := Option.map_eq_some_iff.mp hrun
  have hok : Along (serve wireGenerated) (NoSecondLogin wireGenerated)
      (World.initial Store.empty) loginTwice := by decide +kernel
  exact ⟨w, hw, hlock, (locks_owned wireGenerated Store.empty cleanStore_empty _ w hw hok).1⟩

/-- A second login leaves the lock of the first account behind: it is still
there when the client is gone. -/
theorem second_login_orphans_lock :
    ¬ ∀ (gen : Generated) (redis : Redis), CleanStore redis →
      ∀ (events : List (Token × Activity)) (w : World),
        runs (serve gen) (World.initial redis) events = some w →
        LocksOwned w ∧ ∀ t w', serve gen w (t, .disconnect) = some w' →
          ∀ id, w'.redis.hashGet (loginedKey id) (str "token") ≠ some (tokenStr t) := by
  intro hall
  have hrun : (runs (serve wireGenerated) (World.initial Store.empty)
      (twoAccounts ++ [(1, .login loginOther 6), (1, .disconnect)])).map
      (fun w => (w.redis.existsKey (loginedKey (str "ab")), w.connectedClients)) =
      some (true, ∅) := by decide +kernel
  obtain ⟨w, hw, hobs⟩ := Option.map_eq_some_iff.mp hrun
  simp only [Prod.mk.injEq] at hobs
  obtain ⟨t, ht, -⟩ := (hall wireGenerated Store.empty cleanStore_empty _ w hw).1 _ hobs.1
  rw [hobs.2] at ht
  simp at ht

end IsolationServer.LockOwnership
