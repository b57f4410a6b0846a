import IsolationServer.ClientViews

/-!
# A logout undoes its login

The login of a client writes to two keys that the events of other clients do not
touch, unless they name the same account. So these events do the same with and
without it, and the logout takes back exactly what the login has written.
-/
namespace IsolationServer.LogoutUndoesLogin
open ClientViews HashStore LockOwnership LoginLock Runs

/-! ## What a login writes -/

section Writes

variable (t : Token) (id : Bytes) (now : ℕ) (s : Redis)

/-- The three fields that a login of client `t` to `id` writes. -/
def loginWrites : Redis :=
  ((s.hashSet (clientKey t) (str "loginId") id).hashSet (loginedKey id) (str "token")
    (tokenStr t)).hashSet (loginedKey id) (str "loginTime") (decimal now)

/-- A key that the login does not write to. -/
structure Apart (key : Bytes) : Prop where
  client : clientKey t ≠ key
  lock : loginedKey id ≠ key

variable {t id s} {key : Bytes}

theorem apart_clientKey {u : Token} (hu : u ≠ t) : Apart t id (clientKey u) :=
  ⟨by simpa using hu.symm, by simp⟩

theorem apart_idKey (j : Bytes) : Apart t id (idKey j) := ⟨by simp, by simp⟩

theorem apart_loginedKey {j : Bytes} (hj : j ≠ id) : Apart t id (loginedKey j) :=
  ⟨by simp, by simpa using hj.symm⟩

namespace Apart

theorem hashGet (h : Apart t id key) (f : Bytes) :
    (loginWrites t id now s).hashGet key f = s.hashGet key f := by
  simp [loginWrites, Store.hashGet_hashSet, h.client.symm, h.lock.symm]

theorem existsKey (h : Apart t id key) :
    (loginWrites t id now s).existsKey key = s.existsKey key := by
  simp [loginWrites, Store.existsKey_hashSet, h.client.symm, h.lock.symm]

theorem hashSet (h : Apart t id key) (f v : Bytes) :
    (loginWrites t id now s).hashSet key f v = loginWrites t id now (s.hashSet key f v) := by
  simp only [loginWrites, Store.hashSet_hashSet_comm _ _ _ _ _ h.lock,
    Store.hashSet_hashSet_comm _ _ _ _ _ h.client]

theorem del (h : Apart t id key) :
    (loginWrites t id now s).del key = loginWrites t id now (s.del key) := by
  simp only [loginWrites, Store.del_hashSet_comm _ _ _ h.lock,
    Store.del_hashSet_comm _ _ _ h.client]

theorem hashDel (h : Apart t id key) (f : Bytes) :
    (loginWrites t id now s).hashDel key f = loginWrites t id now (s.hashDel key f) := by
  simp only [loginWrites, Store.hashDel_hashSet_comm _ _ _ _ h.lock,
    Store.hashDel_hashSet_comm _ _ _ _ h.client]

end Apart

end Writes

/-- Client `t` is logged out, nobody is logged in to `id`, and its lock is free. -/
structure Vacant (t : Token) (id : Bytes) (s : Redis) : Prop where
  free : s.existsKey (loginedKey id) = false
  out : s.hashGet (clientKey t) (str "loginId") = none
  alone : ∀ u, s.hashGet (clientKey u) (str "loginId") ≠ some id

section Vacancy

variable {t : Token} {id : Bytes} {s : Redis} {key : Bytes}

/-- The writes of others, which log nobody in to `id`. -/
theorem Vacant.hashSet (h : Vacant t id s) (hk : Apart t id key) {f v : Bytes}
    (hv : f ≠ str "loginId" ∨ v ≠ id) : Vacant t id (s.hashSet key f v) where
  free := by simp [Store.existsKey_hashSet, hk.lock, h.free]
  out := by simp [Store.hashGet_hashSet, hk.client, h.out]
  alone u := by
    rw [Store.hashGet_hashSet]
    split
    · rename_i hf
      simpa using hv.resolve_left (not_not.mpr hf.2.symm)
    · exact h.alone u

theorem Vacant.del (h : Vacant t id s) (key : Bytes) : Vacant t id (s.del key) where
  free := by simp [Store.existsKey_del, h.free]
  out := by simp [Store.hashGet_del, h.out]
  alone u := by
    rw [Store.hashGet_del]
    split
    · simp
    · exact h.alone u

theorem Vacant.hashDel (h : Vacant t id s) (hk : Apart t id key) (f : Bytes) :
    Vacant t id (s.hashDel key f) where
  free := (Store.existsKey_hashDel_of_ne s f hk.lock).trans h.free
  out := by simp [Store.hashGet_hashDel, h.out]
  alone u := by
    rw [Store.hashGet_hashDel]
    split
    · simp
    · exact h.alone u

/-- What a logout takes back. -/
theorem logout_loginWrites (h : Vacant t id s) (now : ℕ) :
    ((loginWrites t id now s).del (loginedKey id)).hashDel (clientKey t) (str "loginId") = s := by
  have hlock := (Store.existsKey_false_iff _ _).mp h.free
  apply Store.ext_hashGet
  intro k f
  simp only [loginWrites, Store.hashGet_hashDel, Store.hashGet_del, Store.hashGet_hashSet]
  by_cases hk : k = loginedKey id
  · subst hk
    simp [hlock]
  · by_cases hf : k = clientKey t ∧ f = str "loginId"
    · obtain ⟨rfl, rfl⟩ := hf
      simp [h.out]
    · simp [hk, hf]

end Vacancy

/-! ## Two runs side by side -/

/-- The message names the account `id`. -/
def Names (gen : Generated) (id : Bytes) : Activity → Prop
  | .register data => ∃ m, gen.parseRegisterAccount data = some m ∧ m.id = id
  | .login data _ => ∃ m, gen.parseLogin data = some m ∧ m.id = id
  | _ => False

/-- The worlds `w` with and `v` without a login of the connected client `t` to `id`. -/
structure WithLogin (t : Token) (id : Bytes) (now : ℕ) (w v : World) : Prop where
  redis : w.redis = loginWrites t id now v.redis
  vacant : Vacant t id v.redis
  connectedClients : w.connectedClients = v.connectedClients
  connected : t ∈ v.connectedClients
  unlocked : Unlocked w ∧ Unlocked v

namespace WithLogin

variable {gen : Generated} {t u : Token} {id : Bytes} {now : ℕ} {w v : World}

theorem post (h : WithLogin t id now w v) (response : Response) :
    WithLogin t id now (w.post u response) (v.post u response) :=
  ⟨h.redis, h.vacant, h.connectedClients, h.connected, h.unlocked⟩

theorem connect (h : WithLogin t id now w v) (hu : u ≠ t) (n : ℕ) :
    WithLogin t id now (w.connect gen u n) (v.connect gen u n) := by
  have hk : Apart t id (clientKey u) := apart_clientKey hu
  have hf : str "ConnectedTime" ≠ str "loginId" := by decide
  refine ⟨?_, h.vacant.hashSet hk (.inl hf), ?_, Finset.mem_insert_of_mem h.connected, h.unlocked⟩
  · show w.redis.hashSet _ _ _ = _
    rw [h.redis, hk.hashSet]
    rfl
  · show insert u w.connectedClients = _
    rw [h.connectedClients]
    rfl

theorem createAccount (h : WithLogin t id now w v) (m : PMRequestRegisterAccount) :
    WithLogin t id now (w.createAccount gen m) (v.createAccount gen m) := by
  have hk : Apart t id (idKey m.id) := apart_idKey m.id
  have hpassword : str "password" ≠ str "loginId" := by decide
  have hnickname : str "nickname" ≠ str "loginId" := by decide
  have hcolor : str "personalColor" ≠ str "loginId" := by decide
  refine ⟨?_, ((h.vacant.hashSet hk (.inl hpassword)).hashSet hk (.inl hnickname)).hashSet hk
    (.inl hcolor), h.connectedClients, h.connected, h.unlocked⟩
  show ((w.redis.hashSet _ _ _).hashSet _ _ _).hashSet _ _ _ = _
  rw [h.redis, hk.hashSet, hk.hashSet, hk.hashSet]
  rfl

theorem enter (h : WithLogin t id now w v) (hu : u ≠ t) {j : Bytes} (hj : j ≠ id) (n : ℕ) :
    WithLogin t id now (w.enter u j n) (v.enter u j n) := by
  have hk : Apart t id (clientKey u) := apart_clientKey hu
  have hl : Apart t id (loginedKey j) := apart_loginedKey hj
  have htoken : str "token" ≠ str "loginId" := by decide
  have htime : str "loginTime" ≠ str "loginId" := by decide
  refine ⟨?_, ((h.vacant.hashSet hk (.inr hj)).hashSet hl (.inl htoken)).hashSet hl (.inl htime),
    h.connectedClients, h.connected, h.unlocked⟩
  show ((w.redis.hashSet _ _ _).hashSet _ _ _).hashSet _ _ _ = _
  rw [h.redis, hk.hashSet, hl.hashSet, hl.hashSet]
  rfl

theorem leave (h : WithLogin t id now w v) (hu : u ≠ t) :
    WithLogin t id now (w.leave u) (v.leave u) := by
  have hk : Apart t id (clientKey u) := apart_clientKey hu
  have hsession : w.redis.hashGet (clientKey u) (str "loginId") =
      v.redis.hashGet (clientKey u) (str "loginId") := by rw [h.redis, hk.hashGet]
  cases hs : v.redis.hashGet (clientKey u) (str "loginId") with
  | none =>
    rw [hs] at hsession
    have hw : w.leave u = w := by rw [World.leave, hsession]
    have hv : v.leave u = v := by rw [World.leave, hs]
    rwa [hw, hv]
  | some j =>
    rw [hs] at hsession
    have hj : j ≠ id := by
      rintro rfl
      exact h.vacant.alone u hs
    have hl : Apart t id (loginedKey j) := apart_loginedKey hj
    have hw : (w.leave u).redis =
        (w.redis.del (loginedKey j)).hashDel (clientKey u) (str "loginId") := by
      rw [World.leave, hsession]
    have hv : (v.leave u).redis =
        (v.redis.del (loginedKey j)).hashDel (clientKey u) (str "loginId") := by
      rw [World.leave, hs]
    refine ⟨?_, ?_, ?_, ?_, ?_⟩
    · rw [hw, hv, h.redis, hl.del, hk.hashDel]
    · rw [hv]
      exact (h.vacant.del _).hashDel hk _
    · rw [leave_connectedClients, leave_connectedClients, h.connectedClients]
    · rw [leave_connectedClients]
      exact h.connected
    · exact ⟨(leave_held w u).trans h.unlocked.1, (leave_held v u).trans h.unlocked.2⟩

theorem disconnect (h : WithLogin t id now w v) (hu : u ≠ t) :
    WithLogin t id now (w.disconnect u) (v.disconnect u) := by
  have hk : Apart t id (clientKey u) := apart_clientKey hu
  refine ⟨?_, h.vacant.del _, ?_, Finset.mem_erase.mpr ⟨hu.symm, h.connected⟩, h.unlocked⟩
  · show w.redis.del _ = _
    rw [h.redis, hk.del]
    rfl
  · show w.connectedClients.erase u = _
    rw [h.connectedClients]
    rfl

/-! The checks of the handlers do not see the login. -/

theorem registerVerdict_eq (h : WithLogin t id now w v) (data : Bytes) :
    registerVerdict gen w.redis data = registerVerdict gen v.redis data := by
  unfold registerVerdict
  cases gen.parseRegisterAccount data with
  | none => rfl
  | some m =>
    dsimp only
    rw [h.redis, (apart_idKey m.id).existsKey]

theorem loginVerdict_eq (h : WithLogin t id now w v) {data : Bytes}
    (hdata : ∀ m, gen.parseLogin data = some m → m.id ≠ id) :
    loginVerdict gen w.redis data = loginVerdict gen v.redis data := by
  unfold loginVerdict
  cases hp : gen.parseLogin data with
  | none => rfl
  | some m =>
    dsimp only
    rw [h.redis, (apart_idKey m.id).existsKey, (apart_idKey m.id).hashGet,
      (apart_loginedKey (hdata m hp)).existsKey]

theorem playerDataVerdict_eq (h : WithLogin t id now w v) (hu : u ≠ t) (data : Bytes) :
    playerDataVerdict gen w.redis u data = playerDataVerdict gen v.redis u data := by
  have hk : Apart t id (clientKey u) := apart_clientKey hu
  unfold playerDataVerdict
  rw [h.redis, hk.existsKey, hk.hashGet]
  cases v.redis.hashGet (clientKey u) (str "loginId") with
  | none => rfl
  | some j =>
    dsimp only
    rw [(apart_idKey j).existsKey, (apart_idKey j).hashGet, (apart_idKey j).hashGet]

/-- An event of another client that does not name the account. -/
theorem handle (h : WithLogin t id now w v) (hu : u ≠ t) {a : Activity} (ha : ¬Names gen id a) :
    Option.Rel (WithLogin t id now) (w.handle gen u a) (v.handle gen u a) := by
  cases a with
  | accept n => exact .some (h.connect hu n)
  | register data =>
    simp only [World.handle, h.registerVerdict_eq]
    cases registerVerdict gen v.redis data with
    | granted m => exact .some ((h.createAccount m).post _)
    | refused message => exact .some (h.post _)
    | undefined => exact .none
  | login data n =>
    have hdata : ∀ m, gen.parseLogin data = some m → m.id ≠ id := fun m hm hid => ha ⟨m, hm, hid⟩
    simp only [World.handle, h.loginVerdict_eq hdata]
    cases hv : loginVerdict gen v.redis data with
    | granted m =>
      exact .some ((h.enter hu (hdata m (loginVerdict_eq_granted.mp hv).1) n).post _)
    | refused message => exact .some (h.post _)
    | undefined => exact .none
  | playerData data =>
    simp only [World.handle, h.playerDataVerdict_eq hu]
    cases playerDataVerdict gen v.redis u data with
    | granted q => exact .some (h.post _)
    | refused message => exact .some (h.post _)
    | undefined => exact .none
  | logout data =>
    simp only [World.handle]
    split_ifs
    · exact .some (h.leave hu)
    · exact .some h
  | disconnect => exact .some ((h.leave hu).disconnect hu)

theorem serve (h : WithLogin t id now w v) (hu : u ≠ t) {a : Activity} (ha : ¬Names gen id a) :
    Option.Rel (WithLogin t id now) (serve gen w (u, a)) (serve gen v (u, a)) := by
  have hallows : a.allows w u = a.allows v u := by
    cases a <;> simp [Activity.allows, h.connectedClients]
  cases hv : a.allows v u with
  | true =>
    rw [serve_eq_handle gen u w h.unlocked.1 (hallows.trans hv),
      serve_eq_handle gen u v h.unlocked.2 hv]
    exact h.handle hu ha
  | false =>
    rw [hv] at hallows
    simp only [IsolationServer.serve, hallows, hv, Bool.false_eq_true, if_false]
    exact .none

/-- The logout takes the world with the login to the store of the world without. -/
theorem logout (h : WithLogin t id now w v) {data : Bytes} (hd : gen.parseLogout data = true) :
    ∃ w', IsolationServer.serve gen w (t, .logout data) = some w' ∧ w'.redis = v.redis := by
  have hallows : Activity.allows w t (.logout data) = true := by
    simpa [Activity.allows, h.connectedClients] using h.connected
  have hsession : w.redis.hashGet (clientKey t) (str "loginId") = some id := by
    rw [h.redis]
    simp [loginWrites, Store.hashGet_hashSet]
  refine ⟨w.leave t, ?_, ?_⟩
  · rw [serve_eq_handle gen t w h.unlocked.1 hallows, World.handle, if_pos hd]
  · rw [World.leave, hsession]
    show (w.redis.del _).hashDel _ _ = _
    rw [h.redis, logout_loginWrites h.vacant]

end WithLogin

/-! ## Logout against login and disconnect -/

section Logout

variable {gen : Generated} {t : Token} {w w₁ : World}

/-- No mutex is held and every session is locked in every reachable state. -/
theorem sessionsLocked_reachable {redis : Redis} (hclean : CleanStore redis)
    {history : List (Token × Activity)}
    (hr : runs (serve gen) (World.initial redis) history = some w) :
    Unlocked w ∧ SessionsLocked (leaseOf w.redis) := by
  have hinitial : SessionsLocked (leaseOf redis) :=
    (@sound_initial gen redis hclean.clientKey).locked
  refine invariant (I := fun w : World => Unlocked w ∧ SessionsLocked (leaseOf w.redis)) ?_
    ⟨unlocked_initial redis, hinitial⟩ hr
  intro v e v' hv hs
  obtain ⟨-, heff, hunlocked⟩ := serve_cases hv.1 hs
  exact ⟨hunlocked, sessionsLocked_effect hv.2 heff⟩

/-- A login that is answered with ok. -/
theorem withLogin_of_login (hunlocked : Unlocked w) (hlocked : SessionsLocked (leaseOf w.redis))
    {data : Bytes} {now : ℕ} {m : PMRequestLogin}
    (hout : w.redis.hashGet (clientKey t) (str "loginId") = none)
    (hparse : gen.parseLogin data = some m) (hs : serve gen w (t, .login data now) = some w₁)
    (hok : w₁.posted = w.posted ++ [(t, .login ⟨true, str "ok"⟩)]) :
    WithLogin t m.id now w₁ w := by
  obtain ⟨hallows, heff, hunlocked₁⟩ := serve_cases hunlocked hs
  have hconnected : t ∈ w.connectedClients := by simpa [Activity.allows] using hallows
  cases heff with
  | enter _ _ m' hv =>
    obtain ⟨hparse', -, hfree⟩ := loginVerdict_eq_granted.mp hv
    obtain rfl : m = m' := Option.some.inj (hparse.symm.trans hparse')
    refine ⟨rfl, ⟨hfree, hout, fun u hu => ?_⟩, rfl, hconnected, hunlocked₁, hunlocked⟩
    -- the lock of a session exists
    have htoken := hlocked u m.id hu
    have hnone := (Store.existsKey_false_iff _ _).mp hfree (str "token")
    exact absurd (hnone.symm.trans htoken) (by simp)
  | refuse _ response _ hfalse =>
    have hresponse : response = .login ⟨true, str "ok"⟩ := by simpa [World.post] using hok
    rw [hresponse] at hfalse
    cases hfalse

theorem leave_idem (w : World) (t : Token) : (w.leave t).leave t = w.leave t := by
  cases hs : w.redis.hashGet (clientKey t) (str "loginId") with
  | none =>
    have hsame : w.leave t = w := by rw [World.leave, hs]
    rw [hsame, hsame]
  | some id =>
    have hnone : (w.leave t).redis.hashGet (clientKey t) (str "loginId") = none := by
      simp [hashGet_leave hs]
    rw [World.leave, hnone]

/-- A request of a client that is not connected is not served. -/
theorem serve_eq_none {a : Activity} (ha : a.allows w t = false) : serve gen w (t, a) = none := by
  simp [serve, ha]

theorem unlocked_leave (h : Unlocked w) (t : Token) : Unlocked (w.leave t) :=
  (leave_held w t).trans h

/-- After a logout, the client can do nothing but what it could do before. -/
theorem allows_leave (a : Activity) : a.allows (w.leave t) t = a.allows w t := by
  cases a <;> simp [Activity.allows]

/-- An event that begins with a logout is not changed by a logout before it. -/
theorem serve_after_logout (h : Unlocked w) (d : Bytes) {a : Activity}
    (ha : a.allows w t = decide (t ∈ w.connectedClients))
    (hleave : (w.leave t).handle gen t a = w.handle gen t a) :
    runs (serve gen) w [(t, .logout d), (t, a)] = runs (serve gen) w [(t, a)] := by
  by_cases ht : t ∈ w.connectedClients
  · have hlogout : Activity.allows w t (.logout d) = true := by simpa [Activity.allows] using ht
    have hallows : a.allows w t = true := by rw [ha, decide_eq_true ht]
    have hout : serve gen w (t, .logout d) =
        some (if gen.parseLogout d = true then w.leave t else w) :=
      serve_eq_handle gen t w h hlogout
    simp only [runs, hout, Option.bind_some]
    split
    · rw [serve_eq_handle gen t _ (unlocked_leave h t) ((allows_leave a).trans hallows), hleave,
        serve_eq_handle gen t w h hallows]
    · rfl
  · have hlogout : Activity.allows w t (.logout d) = false := by simpa [Activity.allows] using ht
    have hallows : a.allows w t = false := by rw [ha, decide_eq_false ht]
    simp only [runs, serve_eq_none hlogout, serve_eq_none hallows, Option.bind_none]

end Logout

/-- A logout undoes exactly the login: whatever other clients do in between, short of naming
the account, the store ends as if there had been neither. A second logout does nothing,
and neither does a logout before a disconnect. -/
theorem logout_undoes_login (gen : Generated) (redis : Redis) (hclean : CleanStore redis)
    (history : List (Token × Activity)) (w : World)
    (hr : runs (serve gen) (World.initial redis) history = some w) (t : Token) :
    (∀ (data : Bytes) (now : ℕ) (m : PMRequestLogin) (w₁ : World),
      w.redis.hashGet (clientKey t) (str "loginId") = none → gen.parseLogin data = some m →
      serve gen w (t, .login data now) = some w₁ →
      w₁.posted = w.posted ++ [(t, .login ⟨true, str "ok"⟩)] →
      ∀ others : List (Token × Activity), (∀ e ∈ others, e.1 ≠ t ∧ ¬Names gen m.id e.2) →
      ∀ d, gen.parseLogout d = true →
      (runs (serve gen) w₁ (others ++ [(t, .logout d)])).map World.redis =
        (runs (serve gen) w others).map World.redis) ∧
    (∀ d d', gen.parseLogout d = true → gen.parseLogout d' = true →
      runs (serve gen) w [(t, .logout d), (t, .logout d')] =
        runs (serve gen) w [(t, .logout d)]) ∧
    (∀ d, runs (serve gen) w [(t, .logout d), (t, .disconnect)] =
      runs (serve gen) w [(t, .disconnect)]) := by
  obtain ⟨hunlocked, hlocked⟩ := sessionsLocked_reachable hclean hr
  refine ⟨?_, ?_, ?_⟩
  · intro data now m w₁ hout hparse hs hok others hothers d hd
    have hlogin := withLogin_of_login hunlocked hlocked hout hparse hs hok
    have hrel : Option.Rel (WithLogin t m.id now) (runs (serve gen) w₁ others)
        (runs (serve gen) w others) :=
      runs_rel_of_mem others (fun e he _ _ h => h.serve (hothers e he).1 (hothers e he).2) hlogin
    rw [runs_append]
    generalize runs (serve gen) w₁ others = x at hrel
    generalize runs (serve gen) w others = y at hrel
    cases hrel with
    | none => rfl
    | some h =>
      obtain ⟨w', hw', hredis⟩ := h.logout hd
      simp only [Option.bind_some, runs, hw', Option.map_some, hredis]
  · intro d d' hd hd'
    rw [serve_after_logout hunlocked d rfl]
    · simp only [runs, serve, Activity.body, handleRequestLogout, hd, hd', if_true]
      rfl
    · simp only [World.handle, if_pos hd', leave_idem]
  · intro d
    refine serve_after_logout hunlocked d rfl ?_
    simp only [World.handle, leave_idem]

/-- Client 1 logs in, client 2 asks for its data and disconnects, and client 1 logs out. -/
theorem logout_undoes_login_disconnect : ∃ w w₁,
    runs (serve wireGenerated) (World.initial Store.empty)
      [(1, .accept 0), (2, .accept 0), (1, .register sampleRegister)] = some w ∧
    serve wireGenerated w (1, .login sampleLogin 5) = some w₁ ∧
    (runs (serve wireGenerated) w₁
      ([(2, .playerData []), (2, .disconnect)] ++ [(1, .logout [])])).map World.redis =
      (runs (serve wireGenerated) w [(2, .playerData []), (2, .disconnect)]).map World.redis := by
  have hrun : ((runs (serve wireGenerated) (World.initial Store.empty)
      [(1, .accept 0), (2, .accept 0), (1, .register sampleRegister)]).bind fun w =>
        (serve wireGenerated w (1, .login sampleLogin 5)).map fun w₁ =>
          (w.redis.hashGet (clientKey 1) (str "loginId"), w.posted, w₁.posted)) =
      some (none, [(1, .registerAccount ⟨true, str "ok"⟩)],
        [(1, .registerAccount ⟨true, str "ok"⟩), (1, .login ⟨true, str "ok"⟩)]) := by
    decide +kernel
  obtain ⟨w, hw, hlogin⟩ := Option.bind_eq_some_iff.mp hrun
  obtain ⟨w₁, hw₁, hviews⟩ := Option.map_eq_some_iff.mp hlogin
  simp only [Prod.mk.injEq] at hviews
  obtain ⟨hout, hbefore, hafter⟩ := hviews
  refine ⟨w, w₁, hw, hw₁, (logout_undoes_login wireGenerated Store.empty cleanStore_empty _ w hw
    1).1 sampleLogin 5 ⟨str "ab", str "pw"⟩ w₁ hout (by decide) hw₁ ?_ _ ?_ [] rfl⟩
  · rw [hbefore, hafter]
    rfl
  · intro e he
    simp only [List.mem_cons, List.not_mem_nil, or_false] at he
    rcases he with rfl | rfl <;> exact ⟨by decide, id⟩

end IsolationServer.LogoutUndoesLogin
