import IsolationServer.Authentication
import IsolationServer.LockOrder
import IsolationServer.Separation

/-!
# Handlers of different accounts do not interfere

The handlers of different clients whose accounts differ touch different keys,
sockets and entries of `_connectedClients`. However their commands interleave,
they end in the state in which they end one after another, in whatever order.
-/
namespace IsolationServer.Serialisability
open Authentication CommandPrograms HashStore Runs Separation

/-! ## The handlers that run at once -/

/-- The account that a handler is about: the id in the message, or the login of the
client when the handler starts. -/
def account (gen : Generated) (w : World) (t : Token) : Activity → Option Bytes
  | .register data => (gen.parseRegisterAccount data).map PMRequestRegisterAccount.id
  | .login data _ => (gen.parseLogin data).map PMRequestLogin.id
  | _ => w.redis.hashGet (clientKey t) (str "loginId")

/-- Handlers of connected clients, one for each, whose accounts differ. -/
structure Handlers (gen : Generated) (w : World) (tasks : Token → Option Activity) : Prop where
  connected : ∀ t a, tasks t = some a → t ∈ w.connectedClients
  handler : ∀ t a now, tasks t = some a → a ≠ .accept now
  accounts : ∀ t u a b id, tasks t = some a → tasks u = some b →
    account gen w t a = some id → account gen w u b = some id → t = u

/-- All handlers have started, and none has issued a command. -/
def started (gen : Generated) (w : World) (tasks : Token → Option Activity) : ServerPool where
  shared := w
  threads t := (tasks t).map fun a => (a, a.body gen t)
  trace := []

/-- The handlers in some order. -/
structure InOrder (order : List (Token × Activity)) (tasks : Token → Option Activity) : Prop where
  nodup : (order.map Prod.fst).Nodup
  mem : ∀ t a, (t, a) ∈ order ↔ tasks t = some a

/-- The responses to client `t`, oldest first. -/
def responses (w : World) (t : Token) : List Response :=
  (w.posted.filter fun q => q.1 == t).map Prod.snd

/-- What can be told apart from outside and by later handlers. -/
structure SameOutcome (w v : World) : Prop where
  redis : w.redis = v.redis
  connectedClients : w.connectedClients = v.connectedClients
  loginKey : ∀ t, (w.sockets t).loginKey = (v.sockets t).loginKey
  responses : ∀ t, responses w t = responses v t

/-! ## Footprints -/

/-- The keys of client `t`, where `accounts` tells its account. -/
def Owns (accounts : Token → Option Bytes) (t : Token) (key : Bytes) : Prop :=
  key = clientKey t ∨ ∃ id, accounts t = some id ∧ (key = idKey id ∨ key = loginedKey id)

/-- The commands on the keys, the socket and the connection of client `t`. -/
def OwnCommand (accounts : Token → Option Bytes) (t : Token) : Command → Prop
  | .existsKey key => Owns accounts t key
  | .hashGet key _ => Owns accounts t key
  | .hashSet key _ _ => Owns accounts t key
  | .del key => Owns accounts t key
  | .hashDel key _ => Owns accounts t key
  | .persist key => Owns accounts t key
  | .stop u => u = t
  | .setLoginKey u _ => u = t
  | .postWrite u _ => u = t
  | .eraseClient u => u = t
  | .lock _ => True
  | .unlock _ => True
  | _ => False

/-- The two worlds are the same for client `t`, or in the keys of no client. -/
def Agree (accounts : Token → Option Bytes) : Option Token → World → World → Prop
  | none, w, v => ∀ key, (∀ t, ¬Owns accounts t key) → ∀ f,
    w.redis.hashGet key f = v.redis.hashGet key f
  | some t, w, v =>
    (∀ key, Owns accounts t key → ∀ f, w.redis.hashGet key f = v.redis.hashGet key f) ∧
    (t ∈ w.connectedClients ↔ t ∈ v.connectedClients) ∧
    (w.sockets t).loginKey = (v.sockets t).loginKey ∧ responses w t = responses v t

section Footprints

variable {accounts : Token → Option Bytes} {t u : Token} {key : Bytes} {w w' v v' : World}
  {c : Command} {r r' : Reply c}

/-- Different clients own different keys. -/
theorem owns_unique (hdiff : ∀ t u id, accounts t = some id → accounts u = some id → t = u)
    (ht : Owns accounts t key) (hu : Owns accounts u key) : t = u := by
  rcases ht with rfl | ⟨id, hid, rfl | rfl⟩
  · rcases hu with h | ⟨id', -, h | h⟩
    · simpa using h
    · simp at h
    · simp at h
  · rcases hu with h | ⟨id', hid', h | h⟩
    · simp at h
    · exact hdiff t u id hid (by rwa [idKey_inj.mp h])
    · simp at h
  · rcases hu with h | ⟨id', hid', h | h⟩
    · simp at h
    · simp at h
    · exact hdiff t u id hid (by rwa [loginedKey_inj.mp h])

theorem existsKey_eq_of_agree (h : Agree accounts (some t) w v) (hk : Owns accounts t key) :
    w.redis.existsKey key = v.redis.existsKey key := by
  apply Bool.eq_iff_iff.mpr
  simp only [Store.existsKey_iff, h.1 key hk]

theorem responses_post (w : World) (t u : Token) (response : Response) :
    responses { w with posted := w.posted ++ [(u, response)] } t =
      responses w t ++ if u = t then [response] else [] := by
  by_cases h : u = t <;> simp [responses, h]

/-- A command of client `t` answers and does the same in worlds that are the same for it. -/
theorem same_of_own (hc : OwnCommand accounts t c) (h : Agree accounts (some t) w v)
    (hw : exec c w = some (r, w')) (hv : exec c v = some (r', v')) :
    r = r' ∧ Agree accounts (some t) w' v' := by
  cases executed_of_exec hw with
  | existsKey key =>
    cases executed_of_exec hv
    exact ⟨existsKey_eq_of_agree h hc, h⟩
  | hashGet key f =>
    cases executed_of_exec hv
    exact ⟨h.1 key hc f, h⟩
  | hashSet key f x =>
    cases executed_of_exec hv
    refine ⟨rfl, fun k hk g => ?_, h.2⟩
    simp only [Store.hashGet_hashSet, h.1 k hk]
  | del key =>
    cases executed_of_exec hv
    refine ⟨rfl, fun k hk g => ?_, h.2⟩
    simp only [Store.hashGet_del, h.1 k hk]
  | hashDel key f =>
    cases executed_of_exec hv
    refine ⟨rfl, fun k hk g => ?_, h.2⟩
    simp only [Store.hashGet_hashDel, h.1 k hk]
  | stop u =>
    cases executed_of_exec hv
    obtain rfl : u = t := hc
    exact ⟨rfl, h.1, h.2.1, by simpa [World.setSocket] using h.2.2.1, h.2.2.2⟩
  | setLoginKey u x =>
    cases executed_of_exec hv
    obtain rfl : u = t := hc
    exact ⟨rfl, h.1, h.2.1, by simp [World.setSocket], h.2.2.2⟩
  | postWrite u response =>
    cases executed_of_exec hv
    refine ⟨rfl, h.1, h.2.1, h.2.2.1, ?_⟩
    rw [responses_post, responses_post, h.2.2.2]
  | eraseClient u =>
    cases executed_of_exec hv
    refine ⟨rfl, h.1, ?_, h.2.2⟩
    simp only [Finset.mem_erase, h.2.1]
  | persist | lock | unlock =>
    cases executed_of_exec hv
    exact ⟨rfl, h⟩
  | _ => exact hc.elim

/-- A command of client `t` writes its own keys only. -/
theorem hashGet_of_own (hc : OwnCommand accounts t c) (hw : exec c w = some (r, w'))
    (hk : ¬Owns accounts t key) (f : Bytes) : w'.redis.hashGet key f = w.redis.hashGet key f := by
  have hne : ∀ k, Owns accounts t k → key ≠ k := by
    rintro k hown rfl
    exact hk hown
  cases executed_of_exec hw with
  | hashSet k g x => simp [Store.hashGet_hashSet, hne k hc]
  | del k => simp [Store.hashGet_del, hne k hc]
  | hashDel k g => simp [Store.hashGet_hashDel, hne k hc]
  | _ => rfl

/-- A command of client `t` concerns no other client. -/
theorem client_of_own (hc : OwnCommand accounts t c) (hw : exec c w = some (r, w'))
    (hu : u ≠ t) : (u ∈ w'.connectedClients ↔ u ∈ w.connectedClients) ∧
      (w'.sockets u).loginKey = (w.sockets u).loginKey ∧ responses w' u = responses w u := by
  cases executed_of_exec hw with
  | stop x | setLoginKey x _ =>
    obtain rfl : x = t := hc
    exact ⟨Iff.rfl, by simp [World.setSocket, hu], rfl⟩
  | postWrite x response =>
    obtain rfl : x = t := hc
    refine ⟨Iff.rfl, rfl, ?_⟩
    rw [responses_post, if_neg hu.symm, List.append_nil]
  | eraseClient x =>
    obtain rfl : x = t := hc
    exact ⟨by simp [hu], rfl, rfl⟩
  | existsKey | hashGet | hashSet | del | hashDel | persist | lock | unlock =>
    exact ⟨Iff.rfl, rfl, rfl⟩
  | _ => exact hc.elim

theorem frame_of_own (hdiff : ∀ t u id, accounts t = some id → accounts u = some id → t = u)
    (k : Option Token) (v : World) (hc : OwnCommand accounts t c) (hk : k ≠ some t)
    (h : Agree accounts k w v) (hw : exec c w = some (r, w')) : Agree accounts k w' v := by
  cases k with
  | none =>
    intro key hfree f
    rw [hashGet_of_own hc hw (hfree t), h key hfree f]
  | some u =>
    have hu : u ≠ t := fun hut => hk (congrArg some hut)
    obtain ⟨hconn, hlogin, hresp⟩ := client_of_own hc hw hu
    refine ⟨fun key hown f => ?_, hconn.trans h.2.1, hlogin.trans h.2.2.1, hresp.trans h.2.2.2⟩
    have hnot : ¬Owns accounts t key := fun ht => hu (owns_unique hdiff hown ht)
    rw [hashGet_of_own hc hw hnot, h.1 key hown f]

/-- The clients have separate footprints. -/
theorem separate (hdiff : ∀ t u id, accounts t = some id → accounts u = some id → t = u) :
    Separate exec (Agree accounts) (OwnCommand accounts) where
  refl k w := by
    cases k with
    | none => exact fun _ _ _ => rfl
    | some t => exact ⟨fun _ _ _ => rfl, Iff.rfl, rfl, rfl⟩
  same := same_of_own
  frame k v := frame_of_own hdiff k v

end Footprints

section Paths

variable {gen : Generated} {accounts : Token → Option Bytes} {t : Token} {w : World}

theorem own_creationAccount {data : Bytes}
    (h : accounts t = (gen.parseRegisterAccount data).map PMRequestRegisterAccount.id) :
    Issues (OwnCommand accounts t) (handleRequestCreationAccount gen t data) := by
  unfold handleRequestCreationAccount creationAccountResponse
  cases hm : gen.parseRegisterAccount data with
  | none => simp [Issues, OwnCommand, Program.call]
  | some m =>
    rw [hm, Option.map_some] at h
    dsimp only
    split_ifs <;> simp [Issues, OwnCommand, Owns, Program.call, h]

theorem own_login {data : Bytes} {now : ℕ}
    (h : accounts t = (gen.parseLogin data).map PMRequestLogin.id) :
    Issues (OwnCommand accounts t) (handleRequestLogin gen t data now) := by
  refine Issues.bind ?_ fun r => ⟨rfl, fun _ => trivial⟩
  unfold loginResponse
  cases hm : gen.parseLogin data with
  | none => trivial
  | some m =>
    rw [hm, Option.map_some] at h
    have hid : Owns accounts t (idKey m.id) := .inr ⟨m.id, h, .inl rfl⟩
    have hlock : Owns accounts t (loginedKey m.id) := .inr ⟨m.id, h, .inr rfl⟩
    simp only [Program.call_bind]
    refine .issue hid fun known => ?_
    split
    · trivial
    · refine .issue hid fun password => ?_
      cases password with
      | none => trivial
      | some passwordHash =>
        simp only [deref, Program.done_bind]
        split
        · trivial
        · refine .issue hlock fun logined => ?_
          split
          · trivial
          · exact ⟨.inl rfl, fun _ => ⟨hlock, fun _ => ⟨hlock, fun _ => ⟨rfl, fun _ => trivial⟩⟩⟩⟩

theorem path_playerData {data : Bytes}
    (h : accounts t = w.redis.hashGet (clientKey t) (str "loginId")) :
    Path exec (OwnCommand accounts t) (handleRequestPlayerData gen t data) w := by
  refine Path.bind ?_ fun r => ⟨rfl, fun _ => trivial⟩
  unfold playerDataResponse
  split
  · trivial
  · simp only [Program.call_bind]
    refine Path.read (.inl rfl) rfl ?_
    split
    · trivial
    · refine Path.read (.inl rfl) rfl ?_
      cases hs : w.redis.hashGet (clientKey t) (str "loginId") with
      | none => trivial
      | some idStr =>
        have hid : Owns accounts t (idKey idStr) := .inr ⟨idStr, h.trans hs, .inl rfl⟩
        refine path_of_issues (.issue hid fun known => ?_)
        split
        · trivial
        · refine .issue hid fun nicknameStr => .issue hid fun personalColorStr => ?_
          refine .issue hid fun _ => ?_
          cases nicknameStr <;> cases personalColorStr <;> trivial

theorem path_logoutClient (h : accounts t = w.redis.hashGet (clientKey t) (str "loginId")) :
    Path exec (OwnCommand accounts t) (logoutClient t) w := by
  simp only [logoutClient, Program.call_bind]
  refine Path.read (.inl rfl) rfl ?_
  split
  · trivial
  · refine Path.read (.inl rfl) rfl ?_
    cases hs : w.redis.hashGet (clientKey t) (str "loginId") with
    | none => trivial
    | some loginId =>
      have hlock : Owns accounts t (loginedKey loginId) := .inr ⟨loginId, h.trans hs, .inr rfl⟩
      refine path_of_issues ⟨rfl, fun _ => ⟨hlock, fun _ => ⟨.inl rfl, fun _ => trivial⟩⟩⟩

/-- A handler of client `t` touches what belongs to the client and to its account. -/
theorem path_body {a : Activity} (ha : ∀ now, a ≠ .accept now)
    (h : accounts t = account gen w t a) :
    Path exec (OwnCommand accounts t) (a.body gen t) w := by
  cases a with
  | accept now => exact absurd rfl (ha now)
  | register data => exact path_of_issues (own_creationAccount h)
  | login data now => exact path_of_issues (own_login h)
  | playerData data => exact path_playerData h
  | logout data =>
    show Path exec _ (handleRequestLogout gen t data) w
    unfold handleRequestLogout
    split
    · exact path_logoutClient h
    · trivial
  | disconnect =>
    refine (path_logoutClient h).bind fun _ => ?_
    simp [removeClient, scopedLock, Issues, OwnCommand, Owns, Program.call]

end Paths

/-! ## One handler after another -/

section Sequential

variable {gen : Generated} {w w' : World} {M : Machine} {t u : Token} {a : Activity}
  {tasks : Token → Option Activity}

/-- The store represents a state of the machine wherever the server can get. -/
theorem represents_reachable {history : List (Token × Activity)}
    (hr : runs (serve gen) (World.initial Store.empty) history = some w) :
    ∃ M, Represents w M := by
  refine invariant (I := fun w => ∃ M, Represents w M) ?_ ⟨_, represents_initial⟩ hr
  rintro v e v' ⟨M, h⟩ hs
  have hrel : Option.Rel Represents (serve gen v e) (M.step gen e) := h.step e
  rw [hs] at hrel
  generalize M.step gen e = y at hrel
  cases hrel with
  | some h' => exact ⟨_, h'⟩

/-- The accounts of the handlers. -/
def accountsOf (gen : Generated) (w : World) (tasks : Token → Option Activity) (t : Token) :
    Option Bytes :=
  (tasks t).bind (account gen w t)

/-- Where a client is left by its handler alone. -/
def alone (gen : Generated) (w : World) (tasks : Token → Option Activity) : Option Token → World
  | none => w
  | some t => ((tasks t).bind (w.handle gen t)).getD w

theorem Handlers.distinct (h : Handlers gen w tasks) (id : Bytes)
    (ht : accountsOf gen w tasks t = some id) (hu : accountsOf gen w tasks u = some id) :
    t = u := by
  obtain ⟨a, ha, hat⟩ := Option.bind_eq_some_iff.mp ht
  obtain ⟨b, hb, hbu⟩ := Option.bind_eq_some_iff.mp hu
  exact h.accounts t u a b id ha hb hat hbu

theorem Handlers.separate (h : Handlers gen w tasks) : Separate exec
    (Agree (accountsOf gen w tasks)) (OwnCommand (accountsOf gen w tasks)) :=
  Serialisability.separate fun _ _ => h.distinct

/-- A connected client's handler that is not `accept` may run. -/
theorem allows_of_connected (ha : ∀ now, a ≠ .accept now) (ht : t ∈ w.connectedClients) :
    a.allows w t = true := by
  cases a with
  | accept now => exact absurd rfl (ha now)
  | _ => simpa [Activity.allows] using ht

/-- The handlers that start are bound for where each ends alone. -/
theorem bound_started (hrep : Represents w M) (h : Handlers gen w tasks) :
    Bound exec (Agree (accountsOf gen w tasks)) (OwnCommand (accountsOf gen w tasks))
      (alone gen w tasks) (started gen w tasks) where
  rest := h.separate.refl none w
  idle t ht := by
    have hnone : tasks t = none := by simpa [started] using ht
    simp only [alone, hnone, Option.bind_none, Option.getD_none]
    exact h.separate.refl (some t) w
  busy t a q ht := by
    obtain ⟨b, hb, hq⟩ := Option.map_eq_some_iff.mp ht
    obtain ⟨rfl, rfl⟩ := Prod.mk.inj hq
    have hallows := allows_of_connected (fun now => h.handler t b now hb) (h.connected t b hb)
    obtain ⟨w', hw', -⟩ := hrep.handle gen hallows
    have hacct : accountsOf gen w tasks t = account gen w t b := by
      simp [accountsOf, hb]
    refine ⟨w, h.separate.refl _ w, path_body (fun now => (h.handler t b now hb)) hacct, ?_⟩
    rw [run_body gen t w b hrep.unlocked]
    simp [alone, hb, hw']

theorem connected_of_handle (h : w.handle gen t a = some w') (hu : u ≠ t)
    (hconn : u ∈ w.connectedClients) : u ∈ w'.connectedClients := by
  cases handle_effect h with
  | connect now => exact Finset.mem_insert_of_mem hconn
  | create | enter | answer | refuse | ignore => exact hconn
  | leave => rwa [leave_connectedClients]
  | disconnect => simp [World.disconnect, hu, hconn]

/-- The handlers of `order`, which are the busy threads of a bound pool, run one after
another to where each ends alone. -/
theorem serve_in_order {accounts : Token → Option Bytes} {final : Option Token → World}
    (hsep : Separate exec (Agree accounts) (OwnCommand accounts))
    (order : List (Token × Activity)) (p : ServerPool) (hrep : Represents p.shared M)
    (hbound : Bound exec (Agree accounts) (OwnCommand accounts) final p)
    (hnodup : (order.map Prod.fst).Nodup)
    (hbusy : ∀ q ∈ order, p.threads q.1 = some (q.2, q.2.body gen q.1))
    (hidle : ∀ t, t ∉ order.map Prod.fst → p.threads t = none)
    (hallows : ∀ q ∈ order, (∀ now, q.2 ≠ .accept now) ∧ q.1 ∈ p.shared.connectedClients) :
    ∃ w', runs (serve gen) p.shared order = some w' ∧ ∀ k, Agree accounts k w' (final k) := by
  induction order generalizing p M with
  | nil => exact ⟨p.shared, rfl, hbound.ended fun t => hidle t (by simp)⟩
  | cons e order ih =>
    obtain ⟨t, a⟩ := e
    obtain ⟨ha, hconn⟩ := hallows (t, a) List.mem_cons_self
    have hok := allows_of_connected ha hconn
    obtain ⟨w', hw', hrep'⟩ := hrep.handle gen hok
    have hserve : serve gen p.shared (t, a) = some w' := by
      rw [serve_eq_handle gen t p.shared hrep.unlocked hok, hw']
    have hrun : Program.run exec (a.body gen t) p.shared = some ((), w') := by
      rw [run_body gen t p.shared a hrep.unlocked, hw', Option.map_some]
    obtain ⟨hnot, hnodup'⟩ := List.nodup_cons.mp hnodup
    have hne : ∀ q ∈ order, q.1 ≠ t := by
      rintro q hq rfl
      exact hnot (List.mem_map.mpr ⟨q, hq, rfl⟩)
    have hbound' := hbound.complete hsep (hbusy (t, a) List.mem_cons_self) hrun
    have hbusy' : ∀ q ∈ order, Function.update p.threads t none q.1 =
        some (q.2, q.2.body gen q.1) := by
      intro q hq
      rw [Function.update_of_ne (hne q hq)]
      exact hbusy q (List.mem_cons_of_mem _ hq)
    have hidle' : ∀ u, u ∉ order.map Prod.fst → Function.update p.threads t none u = none := by
      intro u hu
      rw [Function.update_apply]
      split_ifs with hut
      · rfl
      · exact hidle u (by simpa [hut] using hu)
    have hallows' : ∀ q ∈ order, (∀ now, q.2 ≠ .accept now) ∧ q.1 ∈ w'.connectedClients := by
      intro q hq
      obtain ⟨hq1, hq2⟩ := hallows q (List.mem_cons_of_mem _ hq)
      exact ⟨hq1, connected_of_handle hw' (hne q hq) hq2⟩
    obtain ⟨v, hv, hend⟩ := ih _ hrep' hbound' hnodup' hbusy' hidle' hallows'
    exact ⟨v, runs_cons.mpr ⟨w', hserve, hv⟩, hend⟩

/-- Two worlds that agree with the same worlds on every part have the same outcome. -/
theorem sameOutcome_of_agree {accounts : Token → Option Bytes} {final : Option Token → World}
    {v : World} (hw : ∀ k, Agree accounts k w (final k)) (hv : ∀ k, Agree accounts k v (final k)) :
    SameOutcome w v where
  redis := by
    refine Store.ext_hashGet fun key f => ?_
    by_cases hown : ∃ t, Owns accounts t key
    · obtain ⟨t, ht⟩ := hown
      rw [(hw (some t)).1 key ht f, (hv (some t)).1 key ht f]
    · rw [hw none key (not_exists.mp hown) f, hv none key (not_exists.mp hown) f]
  connectedClients := by
    ext t
    exact (hw (some t)).2.1.trans (hv (some t)).2.1.symm
  loginKey t := (hw (some t)).2.2.1.trans (hv (some t)).2.2.1.symm
  responses t := (hw (some t)).2.2.2.trans (hv (some t)).2.2.2.symm

end Sequential

/-! ## No handler gets stuck -/

section Progress

variable {gen : Generated} {w : World} {p p' : ServerPool} {stage : Token → Option Mutex}

/-- The protocol of the mutexes: a thread takes one at a time and leaves it again. -/
inductive Guard : Option Mutex → (c : Command) → Reply c → Option Mutex → Prop where
  | lock (m : Mutex) : Guard none (.lock m) () (some m)
  | unlock (m : Mutex) : Guard (some m) (.unlock m) () none
  | plain (x : Option Mutex) (c : Command) (r : Reply c) : (∀ m, c ≠ .lock m) →
      (∀ m, c ≠ .unlock m) → Guard x c r x

/-- Commands that have nothing to do with mutexes. -/
theorem guard_of_plain {h : Handler Unit} {x : Option Mutex} (hh : Issues LockOrder.Plain h) :
    Conforms Guard (Resting x) x h := by
  refine Issues.conforms (fun c r hc => ?_) (fun _ => ?_) hh
  · refine .plain x c r ?_ ?_ <;>
      rintro m rfl <;> exact hc
  · rfl

/-- The handlers other than `accept` keep to the protocol. -/
theorem guard_body {t : Token} {a : Activity} (ha : ∀ now, a ≠ .accept now) :
    Conforms Guard (Resting none) none (a.body gen t) := by
  have hplain : ∀ {h : Handler Unit}, Issues (RequestCommand t) h → Issues LockOrder.Plain h :=
    fun hh => hh.mono fun _ => LockOrder.plain_of_request
  cases a with
  | accept now => exact absurd rfl (ha now)
  | register data =>
    exact guard_of_plain (hplain ((issues_creationAccount gen t data).mono fun _ => .register))
  | login data now =>
    exact guard_of_plain (hplain ((issues_login gen t data now).mono fun _ => .login))
  | playerData data =>
    exact guard_of_plain (hplain ((issues_playerData gen t data).mono fun _ => .playerData))
  | logout data =>
    exact guard_of_plain (hplain ((issues_logout gen t data).mono fun _ => .logout))
  | disconnect =>
    have hlogout := hplain ((issues_logoutClient t).mono fun _ => .logout)
    refine (guard_of_plain hlogout).bind (fun _ hy => hy) fun _ y hy => ?_
    subst hy
    simp only [removeClient, scopedLock, Program.call_bind, Program.issue_bind]
    refine fun _ => ⟨none, .plain _ _ _ (by simp) (by simp), fun _ => ⟨some .conn, .lock _, ?_⟩⟩
    refine fun _ => ⟨some .conn, .plain _ _ _ (by simp) (by simp), fun _ => ?_⟩
    exact ⟨some .conn, .plain _ _ _ (by simp) (by simp), fun _ => ⟨none, .unlock _, rfl⟩⟩

/-- Every mutex that is held is held by a thread. -/
structure Guarded (p : ServerPool) (stage : Token → Option Mutex) : Prop where
  staged : Staged (fun _ _ => Guard) (Resting none) none p stage
  held : ∀ m, p.shared.held m = true → ∃ t, stage t = some m

theorem guarded_started {tasks : Token → Option Activity} (hw : Unlocked w)
    (ha : ∀ t a now, tasks t = some a → a ≠ .accept now) :
    Guarded (started gen w tasks) fun _ => none where
  staged t := by
    cases ht : tasks t with
    | none => simp [started, ht]
    | some a =>
      simp only [started, ht, Option.map_some]
      exact guard_body fun now => ha t a now ht
  held m hm := by
    rw [show (started gen w tasks).shared.held m = false from congrFun hw m] at hm
    cases hm

theorem Guarded.step (h : Guarded p stage) {t : Token}
    (hs : (server gen).step p (.advance t) = some p') : ∃ stage', Guarded p' stage' := by
  rcases h.staged.step_from (fun _ _ => none) (fun _ _ hact => by cases hact) hs with
    ⟨i, a, hact, -⟩ | ⟨i, -, hrest, hw, -, -, hst⟩ | ⟨i, a, c, k, r, y, -, -, he, hg, -, -, hst⟩
  · cases hact
  · have hsame : Function.update stage i none = stage := by
      rw [← hrest, Function.update_eq_self]
    exact ⟨stage, hsame ▸ hst, hw ▸ h.held⟩
  · refine ⟨_, hst, fun m hm => ?_⟩
    have hheld := LockOrder.held_of_exec (c := .handler c) he m
    have hother : p.shared.held m = true → stage i ≠ some m →
        ∃ u, Function.update stage i y u = some m := fun hm' =>
      exists_update (fun x => x = some m) (h.held m hm')
    generalize hx : stage i = x at hg hother
    cases hg with
    | lock l =>
      by_cases hl : l = m
      · exact ⟨i, by rw [hl, Function.update_self]⟩
      · refine hother ?_ (by simp)
        simpa [hm, LockOrder.locking, hl] using hheld.symm
    | unlock l =>
      by_cases hl : l = m
      · simp [hm, LockOrder.locking, hl] at hheld
      · refine hother ?_ (by simpa using hl)
        simpa [hm, LockOrder.locking, hl] using hheld.symm
    | plain _ _ _ hlock hunlock =>
      have hsame : p'.shared.held m = p.shared.held m := by
        cases c with
        | lock l => exact absurd rfl (hlock l)
        | unlock l => exact absurd rfl (hunlock l)
        | _ => simpa [LockOrder.locking] using hheld
      obtain ⟨u, hu⟩ := h.held m (hsame ▸ hm)
      exact ⟨u, by rwa [← hx, Function.update_eq_self]⟩

theorem guarded_runs (h : Guarded p stage) {order : List Token}
    (hr : runs (server gen).step p (order.map .advance) = some p') :
    ∃ stage', Guarded p' stage' := by
  refine invariant_map (I := fun q => ∃ stage', Guarded q stage') Action.advance ?_ ⟨stage, h⟩ hr
  intro q t q' hq hs
  obtain ⟨stage', h'⟩ := hq
  exact h'.step hs

/-- A command of a handler blocks only on a mutex that is held. -/
theorem exec_of_own {accounts : Token → Option Bytes} {t : Token} {c : Command}
    (hc : OwnCommand accounts t c) (hfree : ∀ m, c = .lock m → w.held m = false) :
    (exec c w).isSome = true := by
  cases c with
  | lock m => simp [exec, hfree m rfl]
  | existsKey | hashGet | hashSet | del | hashDel | persist | stop | setLoginKey | postWrite
  | eraseClient | unlock => rfl
  | _ => exact hc.elim

/-- Unless all handlers have returned, one of them can go on. -/
theorem can_advance {accounts : Token → Option Bytes} {final : Option Token → World}
    (hbound : Bound exec (Agree accounts) (OwnCommand accounts) final p) (h : Guarded p stage)
    (hbusy : ¬∀ t, p.threads t = none) : ∃ t, ((server gen).step p (.advance t)).isSome = true := by
  have hissue : ∀ t a c k, p.threads t = some (a, .issue c k) →
      (∀ m, c = .lock m → p.shared.held m = false) →
      ((server gen).step p (.advance t)).isSome = true := by
    intro t a c k ht hfree
    obtain ⟨u, -, hpath, -⟩ := hbound.busy t a _ ht
    simpa [System.step, ht, server] using exec_of_own hpath.1 hfree
  obtain ⟨t, ht⟩ := not_forall.mp hbusy
  obtain ⟨⟨a, q⟩, hq⟩ := Option.ne_none_iff_exists'.mp ht
  cases q with
  | done x => exact ⟨t, by simp [System.step, hq]⟩
  | undefined =>
    obtain ⟨u, -, -, hrun⟩ := hbound.busy t a _ hq
    cases hrun
  | issue c k =>
    by_cases hblocked : ∃ m, c = .lock m ∧ p.shared.held m = true
    · -- the holder of the mutex is not about to take another one
      obtain ⟨m, -, hm⟩ := hblocked
      obtain ⟨u, hu⟩ := h.held m hm
      obtain ⟨b, d, l, hd, hguard⟩ := h.staged.next_command (i := u) (by simp [hu])
      refine ⟨u, hissue u b d l hd ?_⟩
      rintro m' rfl
      obtain ⟨y, hg, -⟩ := hguard ()
      rw [hu] at hg
      cases hg with
      | plain _ _ _ hlock _ => exact absurd rfl (hlock m')
    · refine ⟨t, hissue t a c k hq fun m hc => ?_⟩
      simpa using fun hm => hblocked ⟨m, hc, hm⟩

end Progress

/-- A thread that is idle stays idle while the busy ones go on. -/
theorem idle_of_runs {gen : Generated} {p p' : ServerPool} {t : Token} {schedule : List Token}
    (hr : runs (server gen).step p (schedule.map .advance) = some p') (ht : p.threads t = none) :
    p'.threads t = none :=
  invariant_map (I := fun q => q.threads t = none) Action.advance
    (fun _ _ _ hq hs => System.idle_of_advance hs hq) ht hr

/-- Handlers of different accounts are serialisable: from every state that the server
reaches, whatever the schedule of their commands, they end with the outcome of running
one after another in any order; and until they have all returned, one can go on. -/
theorem serialisable (gen : Generated) (history : List (Token × Activity)) (w : World)
    (hw : runs (serve gen) (World.initial Store.empty) history = some w)
    (tasks : Token → Option Activity) (htasks : Handlers gen w tasks)
    (order : List (Token × Activity)) (horder : InOrder order tasks)
    (schedule : List Token) (p : ServerPool)
    (hp : runs (server gen).step (started gen w tasks) (schedule.map .advance) = some p) :
    ∃ w', runs (serve gen) w order = some w' ∧
      ((∀ t a, tasks t = some a → p.threads t = none) → SameOutcome p.shared w') ∧
      ((∃ t a, tasks t = some a ∧ p.threads t ≠ none) →
        ∃ t, ((server gen).step p (.advance t)).isSome = true) := by
  obtain ⟨M, hrep⟩ := represents_reachable hw
  have hstart := bound_started hrep htasks
  have hbound := Bound.runs (M := server gen) htasks.separate hstart hp
  obtain ⟨stage, hguard⟩ := guarded_runs (guarded_started hrep.unlocked htasks.handler) hp
  have htask : ∀ q ∈ order, tasks q.1 = some q.2 := fun q hq => (horder.mem q.1 q.2).mp hq
  have hbusy : ∀ q ∈ order, (started gen w tasks).threads q.1 = some (q.2, q.2.body gen q.1) :=
    fun q hq => by simp [started, htask q hq]
  have hidle : ∀ t, t ∉ order.map Prod.fst → (started gen w tasks).threads t = none := by
    intro t ht
    cases hq : tasks t with
    | none => simp [started, hq]
    | some a => exact absurd (List.mem_map.mpr ⟨_, (horder.mem t a).mpr hq, rfl⟩) ht
  have hallows : ∀ q ∈ order, (∀ now, q.2 ≠ .accept now) ∧ q.1 ∈ w.connectedClients :=
    fun q hq => ⟨fun now => htasks.handler q.1 q.2 now (htask q hq),
      htasks.connected q.1 q.2 (htask q hq)⟩
  obtain ⟨w', hw', hend⟩ := serve_in_order htasks.separate order (started gen w tasks) hrep hstart
    horder.nodup hbusy hidle hallows
  refine ⟨w', hw', fun hdone => ?_, fun hbusy => ?_⟩
  · refine sameOutcome_of_agree (hbound.ended fun t => ?_) hend
    cases ht : tasks t with
    | none => exact idle_of_runs hp (by simp [started, ht])
    | some a => exact hdone t a ht
  · obtain ⟨t, a, -, ht⟩ := hbusy
    exact can_advance hbound hguard fun hall => ht (hall t)

/-- Clients 1 and 2 connect, and client 1 registers the account `ab`. -/
def twoConnected : List (Token × Activity) :=
  [(1, .accept 0), (2, .accept 0), (1, .register sampleRegister)]

/-- A registration of the account `cd`. -/
def otherRegister : Bytes :=
  wireField 1 (str "cd") ++ wireField 2 (str "pw") ++ wireField 3 (str "nick") ++
    wireField 4 (str "red")

/-- Client 1 logs in while client 2 registers another account. -/
def loginAndRegister (t : Token) : Option Activity :=
  if t = 1 then some (.login sampleLogin 5) else if t = 2 then some (.register otherRegister)
  else none

theorem loginAndRegister_cases {t : Token} {a : Activity} (h : loginAndRegister t = some a) :
    (t = 1 ∧ a = .login sampleLogin 5) ∨ (t = 2 ∧ a = .register otherRegister) := by
  unfold loginAndRegister at h
  split_ifs at h with h1 h2
  · exact .inl ⟨h1, (Option.some.inj h).symm⟩
  · exact .inr ⟨h2, (Option.some.inj h).symm⟩

theorem handlers_loginAndRegister {w : World} (h1 : 1 ∈ w.connectedClients)
    (h2 : 2 ∈ w.connectedClients) : Handlers wireGenerated w loginAndRegister where
  connected t a h := by
    rcases loginAndRegister_cases h with ⟨rfl, -⟩ | ⟨rfl, -⟩
    · exact h1
    · exact h2
  handler t a now h := by
    rcases loginAndRegister_cases h with ⟨-, rfl⟩ | ⟨-, rfl⟩ <;> simp
  accounts t u a b id ht hu hat hbu := by
    have hab : account wireGenerated w 1 (.login sampleLogin 5) = some (str "ab") := by
      show (wireGenerated.parseLogin sampleLogin).map PMRequestLogin.id = _
      decide +kernel
    have hcd : account wireGenerated w 2 (.register otherRegister) = some (str "cd") := by
      show (wireGenerated.parseRegisterAccount otherRegister).map PMRequestRegisterAccount.id = _
      decide +kernel
    have hne : str "ab" ≠ str "cd" := by decide +kernel
    rcases loginAndRegister_cases ht with ⟨rfl, rfl⟩ | ⟨rfl, rfl⟩ <;>
      rcases loginAndRegister_cases hu with ⟨rfl, rfl⟩ | ⟨rfl, rfl⟩
    · rfl
    · exact absurd (Option.some.inj (hab.symm.trans (hat.trans (hbu.symm.trans hcd)))) hne
    · exact absurd (Option.some.inj (hab.symm.trans (hbu.trans (hat.symm.trans hcd)))) hne
    · rfl

/-- A schedule that alternates between the two clients. -/
def alternating : List Token := [1, 2, 1, 2, 1, 2, 1, 2, 1, 2, 1, 2, 1, 1, 1]

theorem serialisable_login_register : ∃ w p w',
    runs (serve wireGenerated) (World.initial Store.empty) twoConnected = some w ∧
    runs (server wireGenerated).step (started wireGenerated w loginAndRegister)
      (alternating.map .advance) = some p ∧
    runs (serve wireGenerated) w [(2, .register otherRegister), (1, .login sampleLogin 5)] =
      some w' ∧
    SameOutcome p.shared w' := by
  have hrun : ((runs (serve wireGenerated) (World.initial Store.empty) twoConnected).bind fun w =>
      (runs (server wireGenerated).step (started wireGenerated w loginAndRegister)
        (alternating.map .advance)).map fun p =>
          (decide (1 ∈ w.connectedClients), decide (2 ∈ w.connectedClients),
            (p.threads 1).isNone, (p.threads 2).isNone)) = some (true, true, true, true) := by
    decide +kernel
  obtain ⟨w, hw, hpool⟩ := Option.bind_eq_some_iff.mp hrun
  obtain ⟨p, hp, hdone⟩ := Option.map_eq_some_iff.mp hpool
  simp only [Prod.mk.injEq, decide_eq_true_eq, Option.isNone_iff_eq_none] at hdone
  obtain ⟨h1, h2, hidle1, hidle2⟩ := hdone
  have horder : InOrder [(2, .register otherRegister), (1, .login sampleLogin 5)]
      loginAndRegister := by
    refine ⟨by decide, fun t a => ?_⟩
    constructor
    · simp only [List.mem_cons, Prod.mk.injEq, List.not_mem_nil, or_false]
      rintro (⟨rfl, rfl⟩ | ⟨rfl, rfl⟩) <;> rfl
    · intro h
      rcases loginAndRegister_cases h with ⟨rfl, rfl⟩ | ⟨rfl, rfl⟩ <;> simp
  obtain ⟨w', hw', hsame, -⟩ := serialisable wireGenerated twoConnected w hw loginAndRegister
    (handlers_loginAndRegister h1 h2) _ horder alternating p hp
  refine ⟨w, p, w', hw, hp, hw', hsame fun t a ht => ?_⟩
  rcases loginAndRegister_cases ht with ⟨rfl, -⟩ | ⟨rfl, -⟩
  · exact hidle1
  · exact hidle2

end IsolationServer.Serialisability
