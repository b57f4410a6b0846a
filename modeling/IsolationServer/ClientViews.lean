import IsolationServer.EventLoop
import IsolationServer.LockOwnership

/-!
# What each client has to itself

A client is known in memory, in the store and by its pending read, and its
login by the session field, the lock and the key in its socket. An event of one
client leaves all of this alone for every other client, because a session
always points to a lock that carries the token of its client.
-/
namespace IsolationServer.ClientViews
open EventLoop HashStore LeaseProtocol LockOwnership LoginLock ReadLoop Runs

/-! ## The clients other than the one whose event it is -/

/-- The lock that a session names carries the token of the client. -/
def SessionsLocked (v : Lease Token Bytes Bytes) : Prop :=
  ∀ t id, v.session t = some id → v.token id = some (tokenStr t)

/-- Client `u` is as it was: its hash, its login key, its connection and the locks
that carry its token. -/
structure Untouched (w w' : World) (u : Token) : Prop where
  hash : ∀ f, w'.redis.hashGet (clientKey u) f = w.redis.hashGet (clientKey u) f
  loginKey : (w'.sockets u).loginKey = (w.sockets u).loginKey
  connected : u ∈ w'.connectedClients ↔ u ∈ w.connectedClients
  locks : ∀ id, w.redis.hashGet (loginedKey id) (str "token") = some (tokenStr u) →
    ∀ f, w'.redis.hashGet (loginedKey id) f = w.redis.hashGet (loginedKey id) f

section Frame

variable {gen : Generated} {w w' : World} {t u : Token} {a : Activity}

theorem hashGet_leave {id : Bytes} (h : w.redis.hashGet (clientKey t) (str "loginId") = some id)
    (k f : Bytes) : (w.leave t).redis.hashGet k f =
      if k = clientKey t ∧ f = str "loginId" then none
      else if k = loginedKey id then none else w.redis.hashGet k f := by
  simp [World.leave, h, Store.hashGet_hashDel, Store.hashGet_del]

theorem untouched_leave (hlock : SessionsLocked (leaseOf w.redis)) (hu : u ≠ t) :
    Untouched w (w.leave t) u := by
  cases hs : w.redis.hashGet (clientKey t) (str "loginId") with
  | none =>
    have hsame : w.leave t = w := leaseOf_leave_none w t hs
    rw [hsame]
    exact ⟨fun _ => rfl, rfl, Iff.rfl, fun _ _ _ => rfl⟩
  | some id =>
    refine ⟨fun f => ?_, ?_, by simp, fun j hj f => ?_⟩
    · simp [hashGet_leave hs, hu]
    · simp [World.leave, hs, hu]
    · -- the deleted lock carries the token of `t`
      have hji : j ≠ id := by
        rintro rfl
        have htok : w.redis.hashGet (loginedKey j) (str "token") = some (tokenStr t) := hlock t j hs
        rw [hj] at htok
        exact hu (by simpa using htok)
      simp [hashGet_leave hs, hji]

theorem Untouched.disconnect (h : Untouched w w' u) (hu : u ≠ t) :
    Untouched w (w'.disconnect t) u where
  hash f := by
    rw [← h.hash f]
    simp [World.disconnect, Store.hashGet_del, hu]
  loginKey := by
    rw [← h.loginKey]
    simp [World.disconnect, hu]
  connected := by
    rw [← h.connected]
    simp [World.disconnect, hu]
  locks id hid f := by
    rw [← h.locks id hid f]
    simp [World.disconnect, Store.hashGet_del]

theorem untouched_effect (hlock : SessionsLocked (leaseOf w.redis)) (h : Effect gen w t a w')
    (hu : u ≠ t) : Untouched w w' u := by
  cases h with
  | connect now =>
    refine ⟨fun f => ?_, ?_, ?_, fun id _ f => ?_⟩ <;>
      simp [World.connect, Store.hashGet_hashSet, hu]
  | create data m hv =>
    refine ⟨fun f => ?_, rfl, Iff.rfl, fun id _ f => ?_⟩ <;>
      simp [World.createAccount, World.post, Store.hashGet_hashSet]
  | enter data now m hv =>
    obtain ⟨-, -, hfree⟩ := loginVerdict_eq_granted.mp hv
    refine ⟨fun f => ?_, ?_, Iff.rfl, fun id hid f => ?_⟩
    · simp [World.enter, World.post, Store.hashGet_hashSet, hu]
    · simp [World.enter, World.post, hu]
    · -- the lock that is taken was free
      have hid' : id ≠ m.id := by
        rintro rfl
        rw [(Store.existsKey_false_iff _ _).mp hfree] at hid
        cases hid
      simp [World.enter, World.post, Store.hashGet_hashSet, hid']
  | answer | refuse | ignore => exact ⟨fun _ => rfl, rfl, Iff.rfl, fun _ _ _ => rfl⟩
  | leave => exact untouched_leave hlock hu
  | disconnect => exact (untouched_leave hlock hu).disconnect hu

theorem untouched_change (hlock : SessionsLocked (leaseOf w.redis)) (h : Change gen w t w')
    (hu : u ≠ t) : Untouched w w' u := by
  cases h with
  | connect now =>
    have heff : Effect gen w t (.accept now) (w.connect gen t now) := .connect now
    exact untouched_effect hlock heff hu
  | same => exact ⟨fun _ => rfl, rfl, Iff.rfl, fun _ _ _ => rfl⟩
  | handled data now h _ _ heff => exact untouched_effect hlock heff hu
  | closed =>
    have hclosed : Untouched (reading w t 0) (((reading w t 0).leave t).disconnect t) u :=
      (untouched_leave (w := reading w t 0) hlock hu).disconnect hu
    refine ⟨hclosed.hash, hclosed.loginKey.trans ?_, hclosed.connected, hclosed.locks⟩
    simp [reading, World.setSocket, hu]

/-! ## Sessions and locks -/

theorem sessionsLocked_leave (h : SessionsLocked (leaseOf w.redis)) (t : Token) :
    SessionsLocked (leaseOf (w.leave t).redis) := by
  cases hs : (leaseOf w.redis).session t with
  | none => rwa [leaseOf_leave_none w t hs]
  | some id =>
    rw [leaseOf_leave_some w t hs]
    intro u j hj
    by_cases hu : u = t
    · subst hu
      simp at hj
    · have hj' : (leaseOf w.redis).session u = some j := by simpa [hu] using hj
      have htok := h u j hj'
      have hji : j ≠ id := by
        rintro rfl
        rw [h t j hs] at htok
        exact hu (by simpa using htok.symm)
      simpa [hji] using htok

theorem sessionsLocked_disconnect (h : SessionsLocked (leaseOf w.redis)) (t : Token) :
    SessionsLocked (leaseOf (w.disconnect t).redis) := by
  rw [leaseOf_disconnect]
  intro u id hid
  by_cases hu : u = t
  · subst hu
    simp at hid
  · exact h u id (by simpa [hu] using hid)

theorem sessionsLocked_effect (h : SessionsLocked (leaseOf w.redis)) (heff : Effect gen w t a w') :
    SessionsLocked (leaseOf w'.redis) := by
  cases heff with
  | connect now => rwa [leaseOf_connect]
  | create data m hv =>
    change SessionsLocked (leaseOf (w.createAccount gen m).redis)
    rwa [leaseOf_createAccount]
  | enter data now m hv =>
    obtain ⟨-, -, hfree⟩ := loginVerdict_eq_granted.mp hv
    change SessionsLocked (leaseOf (w.enter t m.id now).redis)
    rw [leaseOf_enter]
    intro u id hid
    by_cases hu : u = t
    · subst hu
      obtain rfl : m.id = id := by simpa using hid
      simp
    · have htok := h u id (by simpa [hu] using hid)
      have hne : id ≠ m.id := by
        rintro rfl
        have hfree' : (leaseOf w.redis).token m.id = none :=
          (Store.existsKey_false_iff _ _).mp hfree _
        rw [hfree'] at htok
        cases htok
      simpa [hne] using htok
  | answer | refuse | ignore => exact h
  | leave => exact sessionsLocked_leave h t
  | disconnect => exact sessionsLocked_disconnect (sessionsLocked_leave h t) t

theorem sessionsLocked_change (h : SessionsLocked (leaseOf w.redis)) (hc : Change gen w t w') :
    SessionsLocked (leaseOf w'.redis) := by
  cases hc with
  | connect now =>
    have heff : Effect gen w t (.accept now) (w.connect gen t now) := .connect now
    exact sessionsLocked_effect h heff
  | same => exact h
  | handled data now p _ _ heff => exact sessionsLocked_effect h heff
  | closed =>
    exact sessionsLocked_disconnect (sessionsLocked_leave (w := reading w t 0) h t) t

end Frame

/-! ## The views of one client -/

/-- The map, the store and the socket say the same about client `t`. -/
structure Agrees (w : World) (t : Token) : Prop where
  key : t ∈ w.connectedClients ↔ w.redis.existsKey (clientKey t) = true
  time : t ∈ w.connectedClients → w.redis.hashGet (clientKey t) (str "ConnectedTime") ≠ none
  login : t ∈ w.connectedClients → ∀ id,
    w.redis.hashGet (clientKey t) (str "loginId") = some id ↔ (w.sockets t).loginKey = loginedKey id

section Views

variable {gen : Generated} {w w' : World} {t u : Token}

theorem Agrees.untouched (h : Agrees w u) (hu : Untouched w w' u) : Agrees w' u := by
  have hkey : w'.redis.existsKey (clientKey u) = w.redis.existsKey (clientKey u) := by
    apply Bool.eq_iff_iff.mpr
    simp only [Store.existsKey_iff, hu.hash]
  refine ⟨?_, fun hc => ?_, fun hc id => ?_⟩
  · rw [hu.connected, hkey]
    exact h.key
  · rw [hu.hash]
    exact h.time (hu.connected.mp hc)
  · rw [hu.hash, hu.loginKey]
    exact h.login (hu.connected.mp hc) id

theorem loginedKey_ne_nil (id : Bytes) : loginedKey id ≠ [] := by
  intro h
  cases congrArg List.head? h

theorem noLogined_ne_loginedKey (id : Bytes) : str "noLogined" ≠ loginedKey id := by
  intro h
  have hhead : some 110 = some (108 : UInt8) := congrArg List.head? h
  exact absurd hhead (by decide)

theorem Agrees.connect (h : Agrees w t) (ht : t ∉ w.connectedClients) (now : ℕ) :
    Agrees (w.connect gen t now) t := by
  have hfree : w.redis.existsKey (clientKey t) = false := by
    simpa using fun hex => ht (h.key.mpr hex)
  have hnone := (Store.existsKey_false_iff _ _).mp hfree (str "loginId")
  have hf : str "loginId" ≠ str "ConnectedTime" := by decide
  refine ⟨?_, fun _ => ?_, fun _ id => ?_⟩
  · simp [World.connect, Store.existsKey_hashSet]
  · simp [World.connect, Store.hashGet_hashSet]
  · simp [World.connect, Store.hashGet_hashSet, hf, hnone, readySocket,
      (loginedKey_ne_nil id).symm]

theorem Agrees.enter (h : Agrees w t) (ht : t ∈ w.connectedClients) (id : Bytes) (now : ℕ) :
    Agrees (w.enter t id now) t := by
  have hf : str "ConnectedTime" ≠ str "loginId" := by decide
  have hex := h.key.mp ht
  refine ⟨?_, fun _ => ?_, fun _ j => ?_⟩
  · simp [World.enter, Store.existsKey_hashSet, ht]
  · simpa [World.enter, Store.hashGet_hashSet, hf] using h.time ht
  · simp [World.enter, Store.hashGet_hashSet]

theorem Agrees.leave (h : Agrees w t) (ht : t ∈ w.connectedClients) : Agrees (w.leave t) t := by
  cases hs : w.redis.hashGet (clientKey t) (str "loginId") with
  | none =>
    have hsame : w.leave t = w := leaseOf_leave_none w t hs
    rwa [hsame]
  | some id =>
    have hf : str "ConnectedTime" ≠ str "loginId" := by decide
    have htime : (w.leave t).redis.hashGet (clientKey t) (str "ConnectedTime") =
        w.redis.hashGet (clientKey t) (str "ConnectedTime") := by simp [hashGet_leave hs, hf]
    obtain ⟨v, hv⟩ := Option.ne_none_iff_exists'.mp (h.time ht)
    refine ⟨?_, fun _ => htime ▸ h.time ht, fun _ j => ?_⟩
    · rw [leave_connectedClients]
      exact iff_of_true ht (Store.existsKey_of_hashGet (htime.trans hv))
    · have hkey : ((w.leave t).sockets t).loginKey = str "noLogined" := by
        simp [World.leave, hs]
      rw [hkey, hashGet_leave hs]
      simp [noLogined_ne_loginedKey]

theorem agrees_disconnect (w : World) (t : Token) : Agrees (w.disconnect t) t := by
  have ht : t ∉ (w.disconnect t).connectedClients := by simp [World.disconnect]
  refine ⟨iff_of_false ht ?_, fun h => absurd h ht, fun h => absurd h ht⟩
  simp [World.disconnect, Store.existsKey_del]

/-- The client whose event it is. -/
theorem Agrees.own (h : Agrees w t) (hc : Change gen w t w') : Agrees w' t := by
  cases hc with
  | connect now ht => exact h.connect ht now
  | same => exact h
  | handled data now p _ ht heff =>
    cases p with
    | login =>
      cases heff with
      | enter _ _ m hv =>
        have henter := h.enter ht m.id now
        exact ⟨henter.key, henter.time, henter.login⟩
      | refuse => exact ⟨h.key, h.time, h.login⟩
    | creationAccount =>
      cases heff with
      | create _ m hv =>
        refine ⟨?_, fun hc => ?_, fun hc id => ?_⟩
        · simpa [World.createAccount, World.post, Store.existsKey_hashSet] using h.key
        · simpa [World.createAccount, World.post, Store.hashGet_hashSet] using h.time hc
        · simpa [World.createAccount, World.post, Store.hashGet_hashSet] using h.login hc id
      | refuse => exact ⟨h.key, h.time, h.login⟩
    | playerData => cases heff <;> exact ⟨h.key, h.time, h.login⟩
    | logout =>
      cases heff with
      | refuse _ _ ha => cases ha
      | leave => exact h.leave ht
      | ignore => exact h
  | closed => exact agrees_disconnect _ t

end Views

section Runs

variable {gen : Generated} {wild : PacketCall → Bytes} {n n' : Node}

/-- What holds in every state that is reached from a clean store. -/
structure Sound (gen : Generated) (w : World) : Prop where
  attached : Attached gen w
  locked : SessionsLocked (leaseOf w.redis)

theorem sound_initial {redis : Redis} (h : ∀ t, redis.existsKey (clientKey t) = false) :
    Sound gen (World.initial redis) where
  attached := attached_initial redis
  locked t id hid := by
    have hnone := (Store.existsKey_false_iff _ _).mp (h t) (str "loginId")
    have hid' : redis.hashGet (clientKey t) (str "loginId") = some id := hid
    rw [hnone] at hid'
    cases hid'

theorem agrees_initial {redis : Redis} (h : ∀ t, redis.existsKey (clientKey t) = false)
    (t : Token) : Agrees (World.initial redis) t where
  key := iff_of_false (by simp [World.initial]) (by simp [World.initial, h t])
  time ht := by simp [World.initial] at ht
  login ht := by simp [World.initial] at ht

theorem Sound.change {w w' : World} {t : Token} (h : Sound gen w) (hc : Change gen w t w') :
    Sound gen w' :=
  ⟨h.attached.change hc, sessionsLocked_change h.locked hc⟩

theorem agrees_change {w w' : World} {t : Token} (h : Sound gen w) (hagrees : ∀ u, Agrees w u)
    (hc : Change gen w t w') (u : Token) : Agrees w' u := by
  by_cases hu : u = t
  · subst hu
    exact (hagrees u).own hc
  · exact (hagrees u).untouched (untouched_change h.locked hc hu)

/-- The clients are sound and their views agree in every reachable state. -/
theorem sound_run {redis : Redis} (hclean : CleanStore redis) {buffers : Token → RecvBuffer}
    {events : List Event} (hr : runs (step gen wild) (Node.initial redis buffers) events = some n) :
    Sound gen n.world ∧ ∀ t, Agrees n.world t := by
  refine invariant (I := fun n : Node => Sound gen n.world ∧ ∀ t, Agrees n.world t) ?_
    ⟨sound_initial hclean.clientKey, agrees_initial hclean.clientKey⟩ hr
  intro n e n' ⟨hsound, hviews⟩ hs
  have hc := change_of_step hsound.attached hs
  exact ⟨hsound.change hc, agrees_change hsound hviews hc⟩

/-- A read that brings one packet. -/
def packetRead (type : Int32) (payload : Bytes) : ReadResult where
  data := appendProtPacket [] type (UInt64.ofNat (12 + payload.length)) ++ payload

/-- Clients 1 and 2 connect, and client 1 registers an account. -/
def connectAndRegister : List Event :=
  [.accept 1 0 zeroBuffer, .accept 2 0 zeroBuffer, .read 1 (packetRead 1 sampleRegister) 3]

/-- Clients are isolated from each other: whatever an event of client `t` is, the
hash, the login key and the connection of every other client, and every lock
that carries its token, are unchanged. -/
theorem clients_isolated (gen : Generated) (wild : PacketCall → Bytes) (redis : Redis)
    (hclean : CleanStore redis) (buffers : Token → RecvBuffer) (events : List Event) (n : Node)
    (hr : runs (step gen wild) (Node.initial redis buffers) events = some n)
    (e : Event) (n' : Node) (hs : step gen wild n e = some n') (u : Token) (hu : u ≠ e.client) :
    Untouched n.world n'.world u := by
  have hsound := (sound_run hclean hr).1
  exact untouched_change hsound.locked (change_of_step hsound.attached hs) hu

theorem clients_isolated_login : ∃ n n',
    runs (step wireGenerated PacketCall.payload) (Node.initial Store.empty fun _ => zeroBuffer)
      connectAndRegister = some n ∧
    step wireGenerated PacketCall.payload n (.read 1 (packetRead 3 sampleLogin) 5) = some n' ∧
    n'.world.redis.existsKey (loginedKey (str "ab")) = true ∧ Untouched n.world n'.world 2 := by
  have hrun : ((runs (step wireGenerated PacketCall.payload)
      (Node.initial Store.empty fun _ => zeroBuffer) connectAndRegister).bind fun n =>
        (step wireGenerated PacketCall.payload n (.read 1 (packetRead 3 sampleLogin) 5)).map
          fun n' => n'.world.redis.existsKey (loginedKey (str "ab"))) = some true := by
    decide +kernel
  obtain ⟨n, hn, hstep⟩ := Option.bind_eq_some_iff.mp hrun
  obtain ⟨n', hn', hlock⟩ := Option.map_eq_some_iff.mp hstep
  exact ⟨n, n', hn, hn', hlock, clients_isolated wireGenerated PacketCall.payload Store.empty
    cleanStore_empty _ _ n hn _ n' hn' 2 (by decide)⟩

/-- The map, the store, the pending read and the socket agree about every client in
every state that is reached from a clean start. -/
theorem views_agree (gen : Generated) (wild : PacketCall → Bytes) (redis : Redis)
    (hclean : CleanStore redis) (buffers : Token → RecvBuffer) (events : List Event) (n : Node)
    (hr : runs (step gen wild) (Node.initial redis buffers) events = some n) (t : Token) :
    (t ∈ n.world.connectedClients ↔ n.world.redis.existsKey (clientKey t) = true) ∧
    (t ∈ n.world.connectedClients ↔ (n.world.sockets t).reads = 1) ∧
    (t ∉ n.world.connectedClients → (n.world.sockets t).reads = 0) ∧
    (n.world.redis.existsKey (clientKey t) = true →
      n.world.redis.hashGet (clientKey t) (str "ConnectedTime") ≠ none) ∧
    (t ∈ n.world.connectedClients → ∀ id,
      n.world.redis.hashGet (clientKey t) (str "loginId") = some id ↔
        (n.world.sockets t).loginKey = loginedKey id) := by
  obtain ⟨hsound, hagrees⟩ := sound_run hclean hr
  have hviews := hagrees t
  have hreads := hsound.attached.reads t
  refine ⟨hviews.key, ⟨fun ht => ?_, fun hone => ?_⟩, fun ht => ?_, fun hex => ?_, hviews.login⟩
  · rw [hreads, if_pos ht]
  · by_contra ht
    rw [hreads, if_neg ht] at hone
    omega
  · rw [hreads, if_neg ht]
  · exact hviews.time (hviews.key.mpr hex)

theorem views_agree_login : ∃ n,
    runs (step wireGenerated PacketCall.payload) (Node.initial Store.empty fun _ => zeroBuffer)
      (connectAndRegister ++ [.read 1 (packetRead 3 sampleLogin) 5]) = some n ∧
    1 ∈ n.world.connectedClients ∧
    (n.world.sockets 1).loginKey = loginedKey (str "ab") ∧
    n.world.redis.hashGet (clientKey 1) (str "loginId") = some (str "ab") := by
  have hrun : (runs (step wireGenerated PacketCall.payload)
      (Node.initial Store.empty fun _ => zeroBuffer)
      (connectAndRegister ++ [.read 1 (packetRead 3 sampleLogin) 5])).map
        (fun n => (decide (1 ∈ n.world.connectedClients), (n.world.sockets 1).loginKey)) =
      some (true, loginedKey (str "ab")) := by
    decide +kernel
  obtain ⟨n, hn, hpair⟩ := Option.map_eq_some_iff.mp hrun
  obtain ⟨hmem, hkey⟩ := Prod.mk.inj hpair
  have hmem' : 1 ∈ n.world.connectedClients := of_decide_eq_true hmem
  have hviews := views_agree wireGenerated PacketCall.payload Store.empty cleanStore_empty
    _ _ n hn 1
  exact ⟨n, hn, hmem', hkey, (hviews.2.2.2.2 hmem' (str "ab")).mpr hkey⟩

end Runs

end IsolationServer.ClientViews
