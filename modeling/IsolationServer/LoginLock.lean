import IsolationServer.Footprints
import IsolationServer.LeaseProtocol

/-!
# The login lock under concurrent handlers

`client:{t}.loginId` is the session of client `t`, and the hash `logined:{id}`
is the lease of the account `id`. Login tests the lock with one command and
takes it with three others; logout and disconnect read the session, remove the
lock and then the session entry. The handlers follow the lease protocol, so
its invariant holds between any two Redis commands of any number of clients,
as long as no two logins are between the test and the write of the token of the
same lock.
-/
namespace IsolationServer.LoginLock
open CommandPrograms LeaseProtocol HashStore Runs

/-- Sessions and locks as the store records them. -/
def leaseOf (s : Redis) : Lease Token Bytes Bytes where
  session t := s.hashGet (clientKey t) (str "loginId")
  token id := s.hashGet (loginedKey id) (str "token")
  present id := s.existsKey (loginedKey id) = true

/-- Commands that change no session, test or change no lock and answer no login
with `result = true`. -/
def Quiet : Command → Prop
  | .existsKey key => ∀ id, key ≠ loginedKey id
  | .hashSet key field _ =>
    (∃ id, key = idKey id) ∨ ((∃ t, key = clientKey t) ∧ field ≠ str "loginId")
  | .del _ => False
  | .hashDel _ _ => False
  | .postWrite _ (.login m) => m.result = false
  | _ => True

/-- The account that a login request names. -/
def loginTarget (gen : Generated) : Activity → Option Bytes
  | .login data _ => (gen.parseLogin data).map PMRequestLogin.id
  | _ => none

/-- The commands of the login and logout handlers of client `t` as moves of the
lease protocol. -/
inductive LockMove (gen : Generated) (t : Token) (a : Activity) :
    Stage Bytes → (c : Command) → Reply c → Stage Bytes → Prop where
  | quiet (x : Stage Bytes) (c : Command) (r : Reply c) :
      Quiet c → x.window = none → LockMove gen t a x c r x
  | test (id : Bytes) : loginTarget gen a = some id →
      LockMove gen t a .idle (.existsKey (loginedKey id)) false (.entering id)
  | refused (id : Bytes) : loginTarget gen a = some id →
      LockMove gen t a .idle (.existsKey (loginedKey id)) true .idle
  | enter (id : Bytes) : loginTarget gen a = some id →
      LockMove gen t a (.entering id) (.hashSet (clientKey t) (str "loginId") id) () (.claimed id)
  | claim (id : Bytes) : loginTarget gen a = some id → LockMove gen t a (.claimed id)
      (.hashSet (loginedKey id) (str "token") (tokenStr t)) () (.stamping id)
  | stamp (id value : Bytes) : LockMove gen t a (.stamping id)
      (.hashSet (loginedKey id) (str "loginTime") value) () (.holding id)
  | answer (id : Bytes) (r : PMResponseLogin) : loginTarget gen a = some id →
      LockMove gen t a (.holding id) (.postWrite t (.login r)) () .idle
  | read (id : Bytes) : LockMove gen t a .idle
      (.hashGet (clientKey t) (str "loginId")) (some id) (.releasing id)
  | free (id : Bytes) :
      LockMove gen t a (.releasing id) (.del (loginedKey id)) () (.released id)
  | clear (id : Bytes) :
      LockMove gen t a (.released id) (.hashDel (clientKey t) (str "loginId")) () .idle
  | drop : LockMove gen t a .idle (.del (clientKey t)) () .idle

section Lease

variable (s : Redis) (t : Token) (id value : Bytes)

theorem leaseOf_hashSet_loginId : leaseOf (s.hashSet (clientKey t) (str "loginId") id) =
    { leaseOf s with session := Function.update (leaseOf s).session t (some id) } := by
  simp only [leaseOf, Lease.mk.injEq]
  refine ⟨?_, by simp [Store.hashGet_hashSet], by simp [Store.existsKey_hashSet]⟩
  funext u
  by_cases hu : u = t <;> simp [Store.hashGet_hashSet, hu]

theorem leaseOf_hashSet_token : leaseOf (s.hashSet (loginedKey id) (str "token") value) =
    { leaseOf s with token := Function.update (leaseOf s).token id (some value)
                     present := Function.update (leaseOf s).present id True } := by
  simp only [leaseOf, Lease.mk.injEq]
  refine ⟨by simp [Store.hashGet_hashSet], ?_, ?_⟩ <;> funext j
  · by_cases hj : j = id <;> simp [Store.hashGet_hashSet, hj]
  · by_cases hj : j = id <;> simp [Store.existsKey_hashSet, hj]

theorem leaseOf_hashSet_loginTime : leaseOf (s.hashSet (loginedKey id) (str "loginTime") value) =
    { leaseOf s with present := Function.update (leaseOf s).present id True } := by
  have hf : str "token" ≠ str "loginTime" := by decide
  simp only [leaseOf, Lease.mk.injEq]
  refine ⟨by simp [Store.hashGet_hashSet], by simp [Store.hashGet_hashSet, hf], ?_⟩
  funext j
  by_cases hj : j = id <;> simp [Store.existsKey_hashSet, hj]

theorem leaseOf_del_loginedKey : leaseOf (s.del (loginedKey id)) =
    { leaseOf s with token := Function.update (leaseOf s).token id none
                     present := Function.update (leaseOf s).present id False } := by
  simp only [leaseOf, Lease.mk.injEq]
  refine ⟨by simp [Store.hashGet_del], ?_, ?_⟩ <;> funext j
  · by_cases hj : j = id <;> simp [Store.hashGet_del, hj]
  · by_cases hj : j = id <;> simp [Store.existsKey_del, hj]

theorem leaseOf_hashDel_loginId : leaseOf (s.hashDel (clientKey t) (str "loginId")) =
    { leaseOf s with session := Function.update (leaseOf s).session t none } := by
  simp only [leaseOf, Lease.mk.injEq]
  refine ⟨?_, by simp [Store.hashGet_hashDel], ?_⟩
  · funext u
    by_cases hu : u = t <;> simp [Store.hashGet_hashDel, hu]
  · simp [Store.existsKey_iff, Store.hashGet_hashDel]

theorem leaseOf_del_clientKey : leaseOf (s.del (clientKey t)) =
    { leaseOf s with session := Function.update (leaseOf s).session t none } := by
  simp only [leaseOf, Lease.mk.injEq]
  refine ⟨?_, by simp [Store.hashGet_del], by simp [Store.existsKey_del]⟩
  funext u
  by_cases hu : u = t <;> simp [Store.hashGet_del, hu]

end Lease

section Commands

variable {gen : Generated} {t : Token} {a : Activity}

/-- A quiet command leaves the lease state alone. -/
theorem leaseOf_quiet {c : Command} {r : Reply c} {w w' : World} (hc : Quiet c)
    (h : exec c w = some (r, w')) : leaseOf w'.redis = leaseOf w.redis := by
  cases executed_of_exec h with
  | hashSet key field value =>
    rcases hc with ⟨id, rfl⟩ | ⟨⟨u, rfl⟩, hf⟩
    · simp [leaseOf, Store.hashGet_hashSet, Store.existsKey_hashSet]
    · simp [leaseOf, Store.hashGet_hashSet, Store.existsKey_hashSet, hf.symm]
  | del => exact hc.elim
  | hashDel => exact hc.elim
  | _ => rfl

/-- A move of a handler is a step of the lease protocol on the store. -/
theorem LockMove.step {x y : Stage Bytes} {c : Command} {r : Reply c} {w w' : World}
    (h : LockMove gen t a x c r y) (he : exec c w = some (r, w')) :
    Step tokenStr t x (leaseOf w.redis) y (leaseOf w'.redis) := by
  cases h with
  | quiet _ _ _ hc hx => exact leaseOf_quiet hc he ▸ .stutter x _ hx
  | test id hid =>
    simp only [exec, Option.some.injEq, Prod.mk.injEq] at he
    obtain ⟨hn, rfl⟩ := he
    exact .test id _ (by simp [leaseOf, hn])
  | refused id hid =>
    rw [redis_of_exec he rfl]
    exact .stutter .idle _ rfl
  | enter id hid =>
    cases executed_of_exec he
    rw [leaseOf_hashSet_loginId]
    exact .enter id _
  | claim id hid =>
    cases executed_of_exec he
    rw [leaseOf_hashSet_token]
    exact .claim id _
  | stamp id value =>
    cases executed_of_exec he
    rw [leaseOf_hashSet_loginTime]
    exact .stamp id _
  | answer id r hid =>
    rw [redis_of_exec he rfl]
    exact .answer id _
  | read id =>
    simp only [exec, Option.some.injEq, Prod.mk.injEq] at he
    obtain ⟨hr, rfl⟩ := he
    exact .read id _ hr
  | free id =>
    cases executed_of_exec he
    rw [leaseOf_del_loginedKey]
    exact .free id _
  | clear id =>
    cases executed_of_exec he
    rw [leaseOf_hashDel_loginId]
    exact .clear id _
  | drop =>
    cases executed_of_exec he
    rw [leaseOf_del_clientKey]
    exact .drop _

theorem quiet_of_accept (c : Command) (h : AcceptCommand t c) : Quiet c := by
  have hf : str "ConnectedTime" ≠ str "loginId" := by decide
  cases c with
  | hashSet => exact .inr ⟨⟨t, h.1⟩, h.2 ▸ hf⟩
  | _ => first | exact h.elim | trivial

theorem quiet_of_register (c : Command) (h : RegisterCommand t c) : Quiet c := by
  cases c with
  | existsKey key =>
    obtain ⟨id, rfl⟩ := h
    simp [Quiet]
  | hashSet => exact .inl h
  | postWrite u r => cases r <;> first | exact h.elim | trivial
  | _ => exact h.elim

theorem quiet_of_playerData (c : Command) (h : PlayerDataCommand t c) : Quiet c := by
  cases c with
  | existsKey key => rcases h with rfl | ⟨id, rfl⟩ <;> simp [Quiet]
  | postWrite u r => cases r <;> first | exact h.elim | trivial
  | _ => first | exact h.elim | trivial

theorem conforms_quiet {x : Stage Bytes} {c : Command} {α : Type} {k : Reply c → Handler α}
    {fin : Option α → Stage Bytes → Prop} (hc : Quiet c) (hx : x.window = none)
    (hk : ∀ r, Conforms (LockMove gen t a) fin x (k r)) :
    Conforms (LockMove gen t a) fin x (.issue c k) :=
  fun r => ⟨x, .quiet x c r hc hx, hk r⟩

/-- `LogoutClient` reads the session, then removes the lock, then the session. -/
theorem conforms_logoutClient :
    Conforms (LockMove gen t a) (fun _ y => y = .idle) .idle (logoutClient t) := by
  unfold logoutClient
  simp only [Program.call_bind]
  refine conforms_quiet (by simp [Quiet]) rfl fun connected => ?_
  split
  · rfl
  · intro loginIdStr
    cases loginIdStr with
    | none => exact ⟨.idle, .quiet _ _ _ trivial rfl, rfl⟩
    | some loginId =>
      refine ⟨.releasing loginId, .read loginId, conforms_quiet trivial rfl fun _ => ?_⟩
      exact fun _ => ⟨.released loginId, .free loginId, fun _ => ⟨.idle, .clear loginId, rfl⟩⟩

/-- A login that is answered with `result = true` has gone through all stages
of taking the lock. -/
theorem conforms_loginResponse (data : Bytes) (now : ℕ) (m : PMRequestLogin)
    (hm : gen.parseLogin data = some m) (hid : loginTarget gen a = some m.id) :
    Conforms (LockMove gen t a)
      (fun r y => y = if r.any PMResponseLogin.result = true then .holding m.id else .idle) .idle
      (loginResponse gen t data now) := by
  unfold loginResponse
  simp only [hm, Program.call_bind]
  refine conforms_quiet (by simp [Quiet]) rfl fun known => ?_
  split
  · rfl
  · refine conforms_quiet trivial rfl fun password => ?_
    cases password with
    | none => rfl
    | some passwordHash =>
      simp only [deref, Program.done_bind]
      split
      · rfl
      · intro logined
        cases logined with
        | true => exact ⟨.idle, .refused m.id hid, rfl⟩
        | false =>
          refine ⟨.entering m.id, .test m.id hid, fun _ => ⟨.claimed m.id, .enter m.id hid, ?_⟩⟩
          refine fun _ => ⟨.stamping m.id, .claim m.id hid, fun _ => ?_⟩
          refine ⟨.holding m.id, .stamp m.id _, ?_⟩
          exact conforms_quiet trivial rfl fun _ => rfl

theorem conforms_login (data : Bytes) (now : ℕ) :
    Conforms (LockMove gen t (.login data now)) (fun _ y => y = .idle) .idle
      (handleRequestLogin gen t data now) := by
  unfold handleRequestLogin
  cases hm : gen.parseLogin data with
  | none =>
    simp only [loginResponse, hm, Program.pure_eq_done, Program.done_bind]
    exact conforms_quiet rfl rfl fun _ => rfl
  | some m =>
    have hid : loginTarget gen (.login data now) = some m.id := by simp [loginTarget, hm]
    refine (conforms_loginResponse data now m hm hid).bind (fun _ hy => hy) fun r y hy => ?_
    simp only [Option.any_some] at hy
    cases hr : r.result with
    | false =>
      simp only [hr, Bool.false_eq_true, if_false] at hy
      subst hy
      exact conforms_quiet hr rfl fun _ => rfl
    | true =>
      simp only [hr, if_true] at hy
      subst hy
      exact fun _ => ⟨.idle, .answer m.id r hid, rfl⟩

/-- Every handler follows the lease protocol. -/
theorem body_conforms (gen : Generated) (t : Token) (a : Activity) :
    Conforms (LockMove gen t a) (fun _ y => y = .idle) .idle (a.body gen t) := by
  have hquiet : ∀ {p : Handler Unit}, Issues Quiet p →
      Conforms (LockMove gen t a) (fun _ y => y = .idle) .idle p := by
    intro p hp
    refine Issues.conforms ?_ ?_ hp
    · exact fun c r hc => .quiet _ c r hc rfl
    · exact fun _ => rfl
  cases a with
  | accept now => exact hquiet ((issues_acceptClient gen t now).mono quiet_of_accept)
  | register data => exact hquiet ((issues_creationAccount gen t data).mono quiet_of_register)
  | login data now => exact conforms_login data now
  | playerData data => exact hquiet ((issues_playerData gen t data).mono quiet_of_playerData)
  | logout data =>
    simp only [Activity.body, handleRequestLogout]
    split
    · exact conforms_logoutClient
    · rfl
  | disconnect =>
    simp only [Activity.body, handleDisconnect]
    refine conforms_logoutClient.bind (fun _ hy => hy) fun _ y hy => ?_
    subst hy
    -- stop, and the two commands of `RemoveClient` under the mutex
    refine conforms_quiet trivial rfl fun _ => conforms_quiet trivial rfl fun _ => ?_
    refine fun _ => ⟨.idle, .drop, conforms_quiet trivial rfl fun _ => ?_⟩
    exact conforms_quiet trivial rfl fun _ => rfl

end Commands

section Runs

variable {gen : Generated} {p p' : ServerPool} {stage : Token → Stage Bytes}
  {act : Action Token Activity}

/-- The client has found the lock of `id` absent and has not written its token
into it yet: its next command is one of the two writes in between. -/
def InWindow (p : ServerPool) (t : Token) (id : Bytes) : Prop :=
  p.next t = some (.hashSet (clientKey t) (str "loginId") id) ∨
    p.next t = some (.hashSet (loginedKey id) (str "token") (tokenStr t))

/-- A client in the window of a lock is running a login for that account, and
its next command shows it. -/
theorem window_spec (hst : Staged (LockMove gen) (Resting .idle) .idle p stage) {t : Token}
    {id : Bytes}
    (hw : (stage t).window = some id) :
    InWindow p t id ∧ ∃ a, p.activity t = some a ∧ loginTarget gen a = some id := by
  have hne : stage t ≠ .idle := by
    intro h
    simp [h, Stage.window] at hw
  obtain ⟨a, c, k, ht, hk⟩ := hst.next_command hne
  obtain ⟨y, hy, -⟩ := hk default
  have hact : p.activity t = some a := by simp [Pool.activity, ht]
  have hnext : p.next t = some c := by simp [Pool.next, Program.next, ht]
  generalize (default : Reply c) = r at hy
  generalize stage t = x at hw hy
  cases hy with
  | quiet _ _ _ _ hx => simp [hx] at hw
  | enter i hid =>
    obtain rfl : i = id := by simpa [Stage.window] using hw
    exact ⟨.inl hnext, a, hact, hid⟩
  | claim i hid =>
    obtain rfl : i = id := by simpa [Stage.window] using hw
    exact ⟨.inr hnext, a, hact, hid⟩
  | test | refused | stamp | answer | read | free | clear | drop => simp [Stage.window] at hw

/-- The lock state at any moment: a stage for each client that fits its
remaining program, and the invariant of the lease protocol. -/
def Locked (gen : Generated) (p : ServerPool) (stage : Token → Stage Bytes) : Prop :=
  Staged (LockMove gen) (Resting .idle) .idle p stage ∧ Inv tokenStr (leaseOf p.shared.redis) stage

theorem locked_idle {redis : Redis} (h : CleanStore redis) :
    Locked gen (Pool.idle (World.initial redis)) (fun _ => .idle) := by
  refine ⟨staged_idle _, inv_initial (fun t => ?_) (fun id => ?_)⟩
  · exact (Store.existsKey_false_iff _ _).mp (h.clientKey t) _
  · exact (Store.existsKey_false_iff _ _).mp (h.loginedKey id) _

/-- The side condition on a run: a client that finds the lock of `id` absent is
the only one in the window of that lock. -/
def LockTestAlone (p : ServerPool) : Action Token Activity → Prop
  | .start _ _ => True
  | .advance t => ∀ id, p.next t = some (.existsKey (loginedKey id)) →
      p.shared.redis.existsKey (loginedKey id) = false → ∀ u, u ≠ t → ¬ InWindow p u id

/-- One scheduling step: either no command is issued, or one client makes a
move of the lease protocol. The invariant is kept. -/
theorem Locked.step (hl : Locked gen p stage) (hs : (server gen).step p act = some p')
    (halone : LockTestAlone p act) :
    (Locked gen p' stage ∧ p'.trace = p.trace ∧ p'.shared.redis = p.shared.redis) ∨
    (∃ t a c r x, p'.trace = p.trace ++ [⟨t, a, c⟩] ∧ LockMove gen t a (stage t) c r x ∧
      Step tokenStr t (stage t) (leaseOf p.shared.redis) x (leaseOf p'.shared.redis) ∧
      Locked gen p' (Function.update stage t x)) := by
  obtain ⟨hst, hinv⟩ := hl
  rcases hst.step (body_conforms gen) (fun _ h => h) hs with ⟨hst', hsh, htr⟩ |
    ⟨t, a, c, k, r, x, hact, ht, he, hδ, htr, hst'⟩
  · exact .inl ⟨⟨hst', hsh ▸ hinv⟩, htr, hsh ▸ rfl⟩
  · have hstep := hδ.step he
    refine .inr ⟨t, a, c, r, x, htr, hδ, hstep, hst', hinv.step tokenStr_injective hstep ?_⟩
    intro id hx u hu hw
    subst hx hact
    have hwin := (window_spec hst hw).1
    generalize stage t = y at hδ
    cases hδ with
    | quiet _ _ _ _ hq => cases hq
    | test _ hid =>
      simp only [server, exec, Option.some.injEq, Prod.mk.injEq] at he
      exact halone id (by simp [Pool.next, Program.next, ht]) he.1 u hu hwin

theorem locked_run {redis : Redis} (hclean : CleanStore redis) {acts : List (Action Token Activity)}
    (hr : runs (server gen).step (Pool.idle (World.initial redis)) acts = some p)
    (halone : Along (server gen).step LockTestAlone (Pool.idle (World.initial redis)) acts) :
    ∃ stage, Locked gen p stage := by
  refine invariant_along (I := fun q => ∃ stage, Locked gen q stage) ?_
    ⟨_, locked_idle hclean⟩ halone hr
  rintro q act q' ⟨stage, hl⟩ hok hs
  rcases hl.step hs hok with ⟨hl', -, -⟩ | ⟨t, a, c, r, x, -, -, -, hl'⟩
  · exact ⟨stage, hl'⟩
  · exact ⟨_, hl'⟩

end Runs

/-! ## Sessions keep their locks while logins of one account do not overlap -/

section Disjoint

variable {gen : Generated} {p p' : ServerPool} {act : Action Token Activity}

/-- No login is taken up while another client's login to the same account is
in progress. -/
abbrev LoginsDisjoint (gen : Generated) : ServerPool → Action Token Activity → Prop :=
  Disjoint (loginTarget gen)

/-- At most one client is running a login for each account, and every handler
follows the lease protocol. -/
abbrev OneLogin (gen : Generated) : ServerPool → Prop :=
  OneEach (LockMove gen) .idle (loginTarget gen)

/-- A client that is about to test or take the lock of `id` is running a login
for that account. -/
theorem login_of_next (h : OneLogin gen p) {t : Token} {c : Command} {id : Bytes}
    (hn : p.next t = some c) (hc : c = .existsKey (loginedKey id) ∨
      c = .hashSet (clientKey t) (str "loginId") id ∨
      c = .hashSet (loginedKey id) (str "token") (tokenStr t)) :
    ∃ a, p.activity t = some a ∧ loginTarget gen a = some id := by
  obtain ⟨⟨stage, hst⟩, -⟩ := h
  cases ht : p.threads t with
  | none => simp [Pool.next, ht] at hn
  | some q =>
    obtain ⟨a, q⟩ := q
    have hact : p.activity t = some a := by simp [Pool.activity, ht]
    have hcf := hst.conforms ht
    simp only [Pool.next, ht, Option.bind_some] at hn
    cases q with
    | done u => cases hn
    | undefined => cases hn
    | issue c' k =>
      obtain rfl : c' = c := Option.some.inj hn
      obtain ⟨y, hy, -⟩ := hcf default
      refine ⟨a, hact, ?_⟩
      generalize (default : Reply c') = r at hy
      generalize stage t = x at hy
      cases hy with
      | quiet _ _ _ hq _ =>
        rcases hc with rfl | rfl | rfl
        · exact absurd rfl (hq id)
        · simp [Quiet] at hq
        · simp [Quiet] at hq
      | test i hid | refused i hid | enter i hid | claim i hid =>
        obtain rfl : i = id := by simpa using hc
        exact hid
      | stamp i v =>
        have hf : str "loginTime" ≠ str "token" := by decide
        simp [hf] at hc
      | answer | read | free | clear | drop => simp at hc

/-- Where the logins of one account do not overlap, the test of a lock is never
made in another client's window. -/
theorem OneLogin.lockTestAlone (h : OneLogin gen p) : LockTestAlone p act := by
  cases act with
  | start t a => trivial
  | advance t =>
    intro id hn _ u hu hw
    obtain ⟨a, ha, hla⟩ := login_of_next h hn (.inl rfl)
    have hlu : ∃ b, p.activity u = some b ∧ loginTarget gen b = some id := by
      rcases hw with hw | hw
      · exact login_of_next h hw (.inr (.inl rfl))
      · exact login_of_next h hw (.inr (.inr rfl))
    obtain ⟨b, hb, hlb⟩ := hlu
    exact hu (h.2 u t b a id hb ha hlb hla)

theorem lockTestAlone_of_loginsDisjoint {w : World} {acts : List (Action Token Activity)}
    (hd : Along (server gen).step (LoginsDisjoint gen) (Pool.idle w) acts) :
    Along (server gen).step LockTestAlone (Pool.idle w) acts :=
  OneEach.along (body_conforms gen) (fun _ _ h => OneLogin.lockTestAlone h) hd

/-- Session ownership: at every moment of every run in which the logins of one
account do not overlap, a client without a handler in progress that is logged
in to `id` has its token in the lock of `id`. So no two such clients are logged
in to the same account. -/
theorem session_owns_lock (gen : Generated) (redis : Redis) (hclean : CleanStore redis)
    (acts : List (Action Token Activity)) (p : ServerPool)
    (hr : runs (server gen).step (Pool.idle (World.initial redis)) acts = some p)
    (hd : Along (server gen).step (LoginsDisjoint gen) (Pool.idle (World.initial redis)) acts) :
    (∀ t id, p.threads t = none →
      p.shared.redis.hashGet (clientKey t) (str "loginId") = some id →
      p.shared.redis.existsKey (loginedKey id) = true ∧
        p.shared.redis.hashGet (loginedKey id) (str "token") = some (tokenStr t)) ∧
    (∀ t u id, p.threads t = none → p.threads u = none →
      p.shared.redis.hashGet (clientKey t) (str "loginId") = some id →
      p.shared.redis.hashGet (clientKey u) (str "loginId") = some id → t = u) := by
  obtain ⟨stage, hst, hinv⟩ := locked_run hclean hr (lockTestAlone_of_loginsDisjoint hd)
  have hidle : ∀ t id, p.threads t = none →
      p.shared.redis.hashGet (clientKey t) (str "loginId") = some id →
      p.shared.redis.hashGet (loginedKey id) (str "token") = some (tokenStr t) := by
    intro t id ht hid
    apply (hinv.own t).token_of_session id hid
    simp [hst.rest_of_idle ht, Stage.pending]
  constructor
  · intro t id ht hid
    have htok := hidle t id ht hid
    exact ⟨Store.existsKey_of_hashGet htok, htok⟩
  · intro t u id ht hu htid huid
    exact Inv.token_unique (v := leaseOf p.shared.redis) tokenStr_injective
      (hidle t id ht htid) (hidle u id hu huid)

/-- Two connections, an account, and a login of client 1 during which client 2
asks for player data and disconnects. -/
def loginDuringDisconnect : List (Action Token Activity) := List.flatten
  [twoClients, [.start 2 (.playerData []), .start 1 (.login sampleLogin 5)], advances 2 4,
    advances 1 3, [.start 2 .disconnect], advances 2 4, advances 1 6, advances 2 4]

theorem session_owns_lock_during_disconnect : ∃ p,
    runs (server wireGenerated).step (Pool.idle (World.initial Store.empty))
      loginDuringDisconnect = some p ∧ p.threads 1 = none ∧
    p.shared.redis.hashGet (clientKey 1) (str "loginId") = some (str "ab") ∧
    p.shared.redis.hashGet (loginedKey (str "ab")) (str "token") = some (tokenStr 1) := by
  have hrun : (runs (server wireGenerated).step (Pool.idle (World.initial Store.empty))
      loginDuringDisconnect).map (fun p => ((p.threads 1).isNone,
        p.shared.redis.hashGet (clientKey 1) (str "loginId"))) =
      some (true, some (str "ab")) := by decide +kernel
  obtain ⟨p, hp, hobs⟩ := Option.map_eq_some_iff.mp hrun
  simp only [Prod.mk.injEq, Option.isNone_iff_eq_none] at hobs
  have hd : Along (server wireGenerated).step (LoginsDisjoint wireGenerated)
      (Pool.idle (World.initial Store.empty)) loginDuringDisconnect :=
    along_disjoint _ 1 _ _ (fun u b _ hb => by simp [Pool.activity, Pool.idle] at hb)
      (by decide)
  have hown := session_owns_lock wireGenerated Store.empty cleanStore_empty _ p hp hd
  exact ⟨p, hp, hobs.1, hobs.2, (hown.1 1 _ hobs.1 hobs.2).2⟩

end Disjoint

/-! ## Duplicate logins -/

section History

variable {gen : Generated} {p p' : ServerPool} {act : Action Token Activity}

/-- Client `t` is answered `result = true` for a login to `id`. -/
def LoginAnswered (gen : Generated) (t : Token) (id : Bytes) (e : ServerEvent) : Prop :=
  e.thread = t ∧ loginTarget gen e.activity = some id ∧
    ∃ r : PMResponseLogin, r.result = true ∧ e.command = .postWrite t (.login r)

/-- Client `t` issues the `Del` of the lock of `id`. -/
def LockRemoved (t : Token) (id : Bytes) (e : ServerEvent) : Prop :=
  e.thread = t ∧ e.command = .del (loginedKey id)

/-- Two clients have been answered `result = true` for a login to the same
account, and in between the first of them has neither removed the lock nor been
logged in to another account. -/
def DuplicateLogin (gen : Generated) (tr : List ServerEvent) : Prop :=
  ∃ t u id pre e mid f post, t ≠ u ∧ tr = pre ++ e :: mid ++ f :: post ∧
    LoginAnswered gen t id e ∧ LoginAnswered gen u id f ∧
    (∀ g ∈ mid, ¬ LockRemoved t id g) ∧
    ∀ g ∈ mid, ∀ other, other ≠ id → ¬ LoginAnswered gen t other g

/-- Client `t` has been answered `result = true` for a login to `id` and has
not removed the lock since. -/
def Held (gen : Generated) (t : Token) (id : Bytes) (tr : List ServerEvent) : Prop :=
  ∃ pre e post, tr = pre ++ e :: post ∧ LoginAnswered gen t id e ∧
    ∀ g ∈ post, ¬ LockRemoved t id g

theorem held_concat {t : Token} {id : Bytes} {tr : List ServerEvent} {e : ServerEvent}
    (h : Held gen t id (tr ++ [e])) :
    (Held gen t id tr ∧ ¬ LockRemoved t id e) ∨ LoginAnswered gen t id e := by
  obtain ⟨pre, f, post, heq, hf, hpost⟩ := h
  rcases List.eq_nil_or_concat post with rfl | ⟨post', g, rfl⟩
  · obtain ⟨-, hfe⟩ := List.append_inj' heq rfl
    obtain rfl : e = f := by simpa using hfe
    exact .inr hf
  · have heq' : tr ++ [e] = (pre ++ f :: post') ++ [g] := by simpa using heq
    obtain ⟨htr, hge⟩ := List.append_inj' heq' rfl
    obtain rfl : e = g := by simpa using hge
    refine .inl ⟨⟨pre, f, post', htr, hf, fun g hg => hpost g ?_⟩, hpost e ?_⟩
    · simp [hg]
    · simp

/-- A duplicate login that appears with the last event is the answer to a second
client while the first one holds the lock. -/
theorem duplicateLogin_concat {tr : List ServerEvent} {e : ServerEvent}
    (h : DuplicateLogin gen (tr ++ [e])) :
    DuplicateLogin gen tr ∨ ∃ t u id, t ≠ u ∧ Held gen t id tr ∧ LoginAnswered gen u id e := by
  obtain ⟨t, u, id, pre, f, mid, g, post, htu, heq, hf, hg, hrem, hother⟩ := h
  rcases List.eq_nil_or_concat post with rfl | ⟨post', k, rfl⟩
  · obtain ⟨htr, hge⟩ := List.append_inj' heq rfl
    obtain rfl : e = g := by simpa using hge
    exact .inr ⟨t, u, id, htu, ⟨pre, f, mid, htr, hf, hrem⟩, hg⟩
  · have heq' : tr ++ [e] = (pre ++ f :: mid ++ g :: post') ++ [k] := by simpa using heq
    obtain ⟨htr, -⟩ := List.append_inj' heq' rfl
    exact .inl ⟨t, u, id, pre, f, mid, g, post', htu, htr, hf, hg, hrem, hother⟩

/-- A client that is answered `result = true` is in the stage that holds the
lock. -/
theorem LockMove.holding_of_answered {t : Token} {a : Activity} {c : Command} {r : Reply c}
    {x y : Stage Bytes} {u : Token} {id : Bytes} (h : LockMove gen t a x c r y)
    (hans : LoginAnswered gen u id ⟨t, a, c⟩) : u = t ∧ x = .holding id := by
  obtain ⟨hu, hid, m, hm, hc⟩ := hans
  simp only at hu hid hc
  subst hu hc
  cases h with
  | quiet _ _ _ hq _ => simp [Quiet, hm] at hq
  | answer i r hi =>
    obtain rfl : i = id := Option.some.inj (hi.symm.trans hid)
    exact ⟨rfl, rfl⟩

/-- What the history says about the locks: whoever holds a lock by the record
of answers has its token in it, and there is no duplicate login so far. -/
def Exclusive (gen : Generated) (p : ServerPool) : Prop :=
  (∀ t id, Held gen t id p.trace →
    p.shared.redis.hashGet (loginedKey id) (str "token") = some (tokenStr t)) ∧
  ¬ DuplicateLogin gen p.trace

theorem Exclusive.step {stage : Token → Stage Bytes} (hl : Locked gen p stage)
    (h : Exclusive gen p) (hs : (server gen).step p act = some p')
    (halone : LockTestAlone p act) : Exclusive gen p' := by
  rcases hl.step hs halone with ⟨-, htr, hred⟩ | ⟨u, a, c, r, x, htr, hmove, hstep, -⟩
  · rwa [Exclusive, htr, hred]
  · have hkept := fun t id => hl.2.token_kept tokenStr_injective (u := t) (i := id) hstep
    -- the client that is answered has its token in the lock
    have htok : ∀ t id, LoginAnswered gen t id ⟨u, a, c⟩ → t = u ∧ stage u = .holding id ∧
        (leaseOf p.shared.redis).token id = some (tokenStr t) := by
      intro t id hans
      obtain ⟨rfl, hx⟩ := hmove.holding_of_answered hans
      have hown := hl.2.own t
      rw [hx] at hown
      exact ⟨rfl, hx, hown.token_of_session id (hown.session_of_recorded id rfl)
        (by simp [Stage.pending])⟩
    rw [Exclusive, htr]
    constructor
    · intro t id hheld
      rcases held_concat hheld with ⟨hbefore, hnot⟩ | hans
      · rcases hkept t id (h.1 t id hbefore) with hk | ⟨rfl, hx, rfl⟩
        · exact hk
        · rw [hx] at hmove
          cases hmove
          exact absurd ⟨rfl, rfl⟩ hnot
      · obtain ⟨rfl, hx, ht⟩ := htok t id hans
        rcases hkept t id ht with hk | ⟨-, hx', -⟩
        · exact hk
        · rw [hx] at hx'
          cases hx'
    · intro hdup
      rcases duplicateLogin_concat hdup with hold | ⟨t, v, id, htv, hheld, hans⟩
      · exact h.2 hold
      · obtain ⟨-, -, hv⟩ := htok v id hans
        exact htv (Inv.token_unique tokenStr_injective (h.1 t id hheld) hv)

/-- Duplicate-login exclusion: no run in which every client that finds a lock
absent is alone in the window of that lock contains a duplicate login. -/
theorem no_duplicate_login (gen : Generated) (redis : Redis) (hclean : CleanStore redis)
    (acts : List (Action Token Activity)) (p : ServerPool)
    (hr : runs (server gen).step (Pool.idle (World.initial redis)) acts = some p)
    (halone : Along (server gen).step LockTestAlone (Pool.idle (World.initial redis)) acts) :
    ¬ DuplicateLogin gen p.trace := by
  have hinit : Exclusive gen (Pool.idle (World.initial redis)) := by
    constructor
    · rintro t id ⟨pre, e, post, heq, -⟩
      simp [Pool.idle] at heq
    · rintro ⟨t, u, id, pre, e, mid, f, post, -, heq, -⟩
      simp [Pool.idle] at heq
  have hinv := invariant_along
    (I := fun q => (∃ stage, Locked gen q stage) ∧ Exclusive gen q) ?_
    ⟨⟨_, locked_idle hclean⟩, hinit⟩ halone hr
  · exact hinv.2.2
  · rintro q act q' ⟨⟨stage, hl⟩, hex⟩ hok hs
    refine ⟨?_, hex.step hl hs hok⟩
    rcases hl.step hs hok with ⟨hl', -, -⟩ | ⟨t, a, c, r, x, -, -, -, hl'⟩
    · exact ⟨stage, hl'⟩
    · exact ⟨_, hl'⟩

/-- Client 2 tries to log in to the account of client 1 before the login of client 1 has
been answered. After the logout of client 1 it tries again. -/
def loginsInTurn : List (Action Token Activity) := List.flatten
  [twoClients, [.start 1 (.login sampleLogin 5)], advances 1 6, [.start 2 (.login sampleLogin 6)],
    advances 2 5, advances 1 3, [.start 1 (.logout [])], advances 1 6,
    [.start 2 (.login sampleLogin 7)], advances 2 9]

/-- When a thread finds a key absent, no other one of `is` is about to set a field. -/
def testsAlone (is : List Token) (p : ServerPool) : Action Token Activity → Bool
  | .start _ _ => true
  | .advance t =>
    match p.next t with
    | some (.existsKey key) => p.shared.redis.existsKey key ||
      is.all fun u => decide (u = t) || !(p.next u).any Command.writesRedis
    | _ => true

theorem lockTestAlone_of_testsAlone {is : List Token} (hw : Within is p)
    (h : testsAlone is p act = true) : LockTestAlone p act := by
  cases act with
  | start => trivial
  | advance t =>
    intro id ht habsent u hu hwindow
    have hwrites : (p.next u).any Command.writesRedis = true := by
      rcases hwindow with hn | hn <;> rw [hn] <;> rfl
    have hmem : u ∈ is := by
      by_contra hmem
      rw [hw.next hmem] at hwrites
      cases hwrites
    simp only [testsAlone, ht, habsent, Bool.false_or, List.all_eq_true] at h
    have hquiet := h u hmem
    simp [hu, hwrites] at hquiet

theorem no_duplicate_login_in_turn : ∃ p,
    runs (server wireGenerated).step (Pool.idle (World.initial Store.empty)) loginsInTurn =
      some p ∧
    p.shared.posted = [(1, .registerAccount ⟨true, str "ok"⟩),
      (2, .login ⟨false, str "loginedAlready"⟩), (1, .login ⟨true, str "ok"⟩),
      (2, .login ⟨true, str "ok"⟩)] ∧
    ¬ DuplicateLogin wireGenerated p.trace := by
  have hrun : (runs (server wireGenerated).step (Pool.idle (World.initial Store.empty))
      loginsInTurn).map (fun p => p.shared.posted) = some
        [(1, .registerAccount ⟨true, str "ok"⟩), (2, .login ⟨false, str "loginedAlready"⟩),
          (1, .login ⟨true, str "ok"⟩), (2, .login ⟨true, str "ok"⟩)] := by decide +kernel
  obtain ⟨p, hp, hposted⟩ := Option.map_eq_some_iff.mp hrun
  have htests : Along (server wireGenerated).step (fun p act => testsAlone [1, 2] p act = true)
      (Pool.idle (World.initial Store.empty)) loginsInTurn := by decide +kernel
  have halone : Along (server wireGenerated).step LockTestAlone
      (Pool.idle (World.initial Store.empty)) loginsInTurn :=
    along_within [1, 2] (fun _ _ hw h => lockTestAlone_of_testsAlone hw h) (by decide)
      (fun _ _ => rfl) htests
  exact ⟨p, hp, hposted, no_duplicate_login wireGenerated Store.empty cleanStore_empty _ p hp
    halone⟩

/-- Both clients test the lock before either of them writes its token. -/
def overlappingLogins : List (Action Token Activity) := List.flatten
  [twoClients, [.start 1 (.login sampleLogin 5), .start 2 (.login sampleLogin 6)], advances 1 3,
    advances 2 3, advances 1 4, advances 2 4, advances 1 1, advances 2 1]

/-- Without the side condition two clients can be logged in to one account. -/
theorem overlapping_logins_duplicate :
    ¬ ∀ (gen : Generated) (redis : Redis), CleanStore redis →
      ∀ (acts : List (Action Token Activity)) (p : ServerPool),
        runs (server gen).step (Pool.idle (World.initial redis)) acts = some p →
        ¬ DuplicateLogin gen p.trace := by
  intro hall
  let e : ServerEvent := ⟨1, .login sampleLogin 5, .postWrite 1 (.login ⟨true, str "ok"⟩)⟩
  let f : ServerEvent := ⟨2, .login sampleLogin 6, .postWrite 2 (.login ⟨true, str "ok"⟩)⟩
  have hrun : (runs (server wireGenerated).step (Pool.idle (World.initial Store.empty))
      overlappingLogins).map (fun p => p.trace.drop 61) = some [e, f] := by decide +kernel
  obtain ⟨p, hp, hlast⟩ := Option.map_eq_some_iff.mp hrun
  have htrace : p.trace = p.trace.take 61 ++ e :: [] ++ f :: [] := by
    calc p.trace = p.trace.take 61 ++ p.trace.drop 61 := (List.take_append_drop 61 _).symm
      _ = p.trace.take 61 ++ e :: [] ++ f :: [] := by rw [hlast, List.append_assoc]; rfl
  have he : LoginAnswered wireGenerated 1 (str "ab") e :=
    ⟨rfl, by decide, ⟨true, str "ok"⟩, rfl, rfl⟩
  have hf : LoginAnswered wireGenerated 2 (str "ab") f :=
    ⟨rfl, by decide, ⟨true, str "ok"⟩, rfl, rfl⟩
  exact hall wireGenerated Store.empty cleanStore_empty overlappingLogins p hp
    ⟨1, 2, str "ab", _, e, [], f, [], by decide, htrace, he, hf, by simp, by simp⟩

end History

end IsolationServer.LoginLock
