import IsolationServer.ClientViews
import Mathlib.Data.Finmap

/-!
# Tokens and the lives of sockets

A socket takes its token from the pool when it is constructed and gives it back when
it is destroyed. `_connectedClients` and the outstanding operations keep it alive;
the operations can complete long after the client has been removed.
-/
namespace IsolationServer.TokenPool
open ClientViews CommandPrograms EventLoop HashStore ReadLoop Runs WriteQueue

/-! ## The pool and the sockets -/

/-- What `uniform_int_distribution{1, UINT64_MAX}` can draw. -/
abbrev Draw := { t : Token // t ≠ 0 }

/-- `TokenPool64::allocate`, for the next draws. While they are all in use it goes on
drawing. -/
def allocate (used : Finset Token) : List Draw → Option (Token × Finset Token)
  | [] => none
  | t :: draws => if t.1 ∈ used then allocate used draws else some (t.1, insert t.1 used)

/-- `TokenPool64::release` -/
def release (used : Finset Token) (t : Token) : Finset Token := used.erase t

/-- A `ClientSocket`, and whether `AddClient` was called with it. -/
structure ClientSocket where
  token : Token
  added : Bool := false
  socket : Socket := { constructed := true }
  recvBuffer : RecvBuffer
  writer : Writer := {}

/-- The pool, the sockets that exist, in the order of their construction, and what the
handlers share. -/
structure Service where
  used : Finset Token
  sockets : ℕ → Option ClientSocket
  constructed : ℕ
  connectedClients : Finmap fun _ : Token => ℕ
  redis : Redis

def Service.initial (redis : Redis) : Service where
  used := ∅
  sockets _ := none
  constructed := 0
  connectedClients := ∅
  redis := redis

/-- What the handlers see, which reach the sockets through `_connectedClients`. -/
def Service.world (s : Service) : World where
  redis := s.redis
  connectedClients := s.connectedClients.keys
  sockets t := ((s.connectedClients.lookup t).bind s.sockets).elim {} ClientSocket.socket
  held _ := false
  posted := []

/-- What the callbacks of a socket see, which hold a pointer to it. -/
def Service.node (s : Service) (c : ClientSocket) : Node where
  world := s.world.setSocket c.token c.socket
  buffers _ := c.recvBuffer
  writers _ := c.writer

/-- What the callbacks of socket `i` leave behind. -/
def Service.store (s : Service) (i : ℕ) (c : ClientSocket) (n : Node) : Service :=
  { s with
    sockets := Function.update s.sockets i (some { c with
      socket := n.world.sockets c.token
      recvBuffer := n.buffers c.token
      writer := n.writers c.token })
    connectedClients :=
      if c.token ∈ n.world.connectedClients then s.connectedClients
      else s.connectedClients.erase c.token
    redis := n.world.redis }

/-- A socket is constructed with the next draws and with the memory its receive buffer
will get; it is added; a read or a write completes; it is destroyed. -/
inductive Event where
  | construct (draws : List Draw) (recvBuffer : RecvBuffer)
  | addClient (i : ℕ) (now : ℕ)
  | read (i : ℕ) (r : ReadResult) (now : ℕ)
  | written (i : ℕ) (buffer : Buffer) (failed : Bool)
  | destruct (i : ℕ)

/-- `AddClient` is called once for each socket, and a socket is not destroyed while it
is connected or has an outstanding operation. -/
def step (gen : Generated) (wild : PacketCall → Bytes) (s : Service) : Event → Option Service
  | .construct draws recvBuffer =>
    (allocate s.used draws).map fun q =>
      { s with
        used := q.2
        sockets := Function.update s.sockets s.constructed (some { token := q.1, recvBuffer })
        constructed := s.constructed + 1 }
  | .addClient i now =>
    (s.sockets i).bind fun c =>
      if c.added = true then none
      else (Program.run exec (addClient gen c.token now) (s.node c).world).map fun q =>
        { s with
          sockets := Function.update s.sockets i
            (some { c with added := true, socket := q.2.sockets c.token })
          connectedClients := s.connectedClients.insert c.token i
          redis := q.2.redis }
  | .read i r now =>
    (s.sockets i).bind fun c =>
      (EventLoop.step gen wild (s.node c) (.read c.token r now)).map (s.store i c)
  | .written i buffer failed =>
    (s.sockets i).bind fun c =>
      (EventLoop.step gen wild (s.node c) (.written c.token buffer failed)).map (s.store i c)
  | .destruct i =>
    (s.sockets i).bind fun c =>
      if s.connectedClients.lookup c.token = some i ∨ 0 < c.socket.reads ∨
        c.writer.outstanding.isEmpty = false then none
      else some { s with
        used := release s.used c.token
        sockets := Function.update s.sockets i none }

/-! ## The tokens of the sockets -/

theorem allocate_spec {used used' : Finset Token} {draws : List Draw} {t : Token}
    (h : allocate used draws = some (t, used')) :
    t ∉ used ∧ t ≠ 0 ∧ used' = insert t used := by
  induction draws with
  | nil => cases h
  | cons d draws ih =>
    simp only [allocate] at h
    split at h
    · exact ih h
    · rename_i hd
      obtain ⟨rfl, rfl⟩ := Prod.mk.inj (Option.some.inj h)
      exact ⟨hd, d.2, rfl⟩

/-- The tokens in use are those of the sockets that exist, and the connected clients are
among these. -/
structure Tokens (s : Service) : Prop where
  fresh : ∀ i, s.constructed ≤ i → s.sockets i = none
  used : ∀ t, t ∈ s.used ↔ ∃ i c, s.sockets i = some c ∧ c.token = t
  nonzero : 0 ∉ s.used
  distinct : ∀ i j c d, s.sockets i = some c → s.sockets j = some d → c.token = d.token → i = j
  live : ∀ t i, s.connectedClients.lookup t = some i →
    ∃ c, s.sockets i = some c ∧ c.token = t ∧ c.added = true

theorem tokens_initial (redis : Redis) : Tokens (Service.initial redis) where
  fresh _ _ := rfl
  used t := by simp [Service.initial]
  nonzero := by simp [Service.initial]
  distinct _ _ _ _ h := by cases h
  live t i h := by simp [Service.initial] at h

section Tokens

variable {s s' : Service} {i : ℕ} {c : ClientSocket}

theorem Tokens.lookup_eq (h : Tokens s) (hc : s.sockets i = some c) {j : ℕ}
    (hj : s.connectedClients.lookup c.token = some j) : j = i := by
  obtain ⟨d, hd, ht, -⟩ := h.live _ j hj
  exact h.distinct j i d c hd hc ht

/-- Another socket has another token. -/
theorem Tokens.token_ne (h : Tokens s) (hc : s.sockets i = some c) {j : ℕ} {d : ClientSocket}
    (hd : s.sockets j = some d) (hji : j ≠ i) : d.token ≠ c.token :=
  fun htok => hji (h.distinct j i d c hd hc htok)

/-- A client with another token has another socket. -/
theorem Tokens.socket_ne (h : Tokens s) (hc : s.sockets i = some c) {u : Token} {j : ℕ}
    (hj : s.connectedClients.lookup u = some j) (hu : u ≠ c.token) : j ≠ i := by
  obtain ⟨d, hd, rfl, -⟩ := h.live u j hj
  rintro rfl
  rw [hc, Option.some.injEq] at hd
  exact hu (by rw [hd])

/-- The clients in the map once socket `i` is added. -/
theorem Tokens.lookup_insert (h : Tokens s) (hc : s.sockets i = some c) {u : Token} {j : ℕ}
    (hj : (s.connectedClients.insert c.token i).lookup u = some j) :
    (j = i ∧ u = c.token) ∨ (j ≠ i ∧ u ≠ c.token ∧ s.connectedClients.lookup u = some j) := by
  by_cases hu : u = c.token
  · subst hu
    rw [Finmap.lookup_insert] at hj
    exact .inl ⟨(Option.some.inj hj).symm, rfl⟩
  · rw [Finmap.lookup_insert_of_ne _ hu] at hj
    exact .inr ⟨h.socket_ne hc hj hu, hu, hj⟩

/-- A socket that was not added is not connected, and neither is one with its token. -/
theorem Tokens.not_connected (h : Tokens s) (hc : s.sockets i = some c) (ha : c.added = false) :
    s.connectedClients.lookup c.token = none := by
  rw [Option.eq_none_iff_forall_ne_some]
  intro j hj
  obtain ⟨d, hd, -, hadded⟩ := h.live _ j hj
  obtain rfl := h.lookup_eq hc hj
  rw [hc, Option.some.injEq] at hd
  rw [← hd, ha] at hadded
  cases hadded

theorem Tokens.construct (h : Tokens s) {draws : List Draw} {t : Token} {used : Finset Token}
    (ht : allocate s.used draws = some (t, used)) (recvBuffer : RecvBuffer) :
    Tokens { s with
      used := used
      sockets := Function.update s.sockets s.constructed (some { token := t, recvBuffer })
      constructed := s.constructed + 1 } := by
  obtain ⟨hnew, hne, rfl⟩ := allocate_spec ht
  have hother : ∀ j d, s.sockets j = some d → j ≠ s.constructed ∧ d.token ≠ t := by
    rintro j d hd
    refine ⟨?_, ?_⟩
    · rintro rfl
      rw [h.fresh _ le_rfl] at hd
      cases hd
    · rintro rfl
      exact hnew ((h.used _).mpr ⟨j, d, hd, rfl⟩)
  refine ⟨fun j hj => ?_, fun u => ?_, ?_, fun j k d e hd he hde => ?_, fun u j hj => ?_⟩
  · have hj' : s.constructed + 1 ≤ j := hj
    show Function.update s.sockets s.constructed _ j = none
    rw [Function.update_of_ne (by omega)]
    exact h.fresh j (by omega)
  · rw [Finset.mem_insert, h.used]
    constructor
    · rintro (rfl | ⟨j, d, hd, rfl⟩)
      · exact ⟨s.constructed, _, Function.update_self .., rfl⟩
      · exact ⟨j, d, (Function.update_of_ne (hother j d hd).1 ..).trans hd, rfl⟩
    · rintro ⟨j, d, hd, rfl⟩
      simp only [Function.update_apply] at hd
      split at hd
      · exact .inl (by rw [← Option.some.inj hd])
      · exact .inr ⟨j, d, hd, rfl⟩
  · simp [hne.symm, h.nonzero]
  · simp only [Function.update_apply] at hd he
    split at hd <;> split at he
    · omega
    · rw [← Option.some.inj hd] at hde
      exact absurd hde.symm (hother k e he).2
    · rw [← Option.some.inj he] at hde
      exact absurd hde (hother j d hd).2
    · exact h.distinct j k d e hd he hde
  · obtain ⟨d, hd, hdu, hadded⟩ := h.live u j hj
    exact ⟨d, (Function.update_of_ne (hother j d hd).1 ..).trans hd, hdu, hadded⟩

/-- Socket `i` changes, but neither its token nor the sockets that exist. -/
theorem Tokens.replace (h : Tokens s) (hc : s.sockets i = some c) {c' : ClientSocket}
    (hs : s'.sockets = Function.update s.sockets i (some c')) (hused : s'.used = s.used)
    (hn : s'.constructed = s.constructed) (htok : c'.token = c.token)
    (hlive : ∀ t j, s'.connectedClients.lookup t = some j →
      (j = i ∧ t = c.token ∧ c'.added = true) ∨
      (j ≠ i ∧ s.connectedClients.lookup t = some j)) : Tokens s' := by
  have hback : ∀ j d, s'.sockets j = some d →
      ∃ e, s.sockets j = some e ∧ d.token = e.token := by
    intro j d hd
    rw [hs, Function.update_apply] at hd
    split at hd
    · rename_i hj
      subst hj
      exact ⟨c, hc, by rw [← Option.some.inj hd, htok]⟩
    · exact ⟨d, hd, rfl⟩
  have hforth : ∀ j e, s.sockets j = some e →
      ∃ d, s'.sockets j = some d ∧ d.token = e.token := by
    intro j e he
    rw [hs, Function.update_apply]
    split
    · rename_i hj
      subst hj
      rw [hc] at he
      exact ⟨c', rfl, by rw [← Option.some.inj he, htok]⟩
    · exact ⟨e, he, rfl⟩
  refine ⟨fun j hj => ?_, fun t => ?_, hused ▸ h.nonzero, fun j k d e hd he hde => ?_,
    fun t j hj => ?_⟩
  · rw [Option.eq_none_iff_forall_ne_some]
    intro d hd
    obtain ⟨e, he, -⟩ := hback j d hd
    rw [h.fresh j (hn ▸ hj)] at he
    cases he
  · rw [hused, h.used]
    constructor
    · rintro ⟨j, e, he, rfl⟩
      obtain ⟨d, hd, hde⟩ := hforth j e he
      exact ⟨j, d, hd, hde⟩
    · rintro ⟨j, d, hd, rfl⟩
      obtain ⟨e, he, hde⟩ := hback j d hd
      exact ⟨j, e, he, hde.symm⟩
  · obtain ⟨d', hd', hdd⟩ := hback j d hd
    obtain ⟨e', he', hee⟩ := hback k e he
    exact h.distinct j k d' e' hd' he' (by rw [← hdd, ← hee, hde])
  · rcases hlive t j hj with ⟨rfl, rfl, hadded⟩ | ⟨hji, hj'⟩
    · exact ⟨c', by rw [hs, Function.update_self], htok, hadded⟩
    · obtain ⟨d, hd, hdt, hadded⟩ := h.live t j hj'
      exact ⟨d, by rw [hs, Function.update_of_ne hji, hd], hdt, hadded⟩

/-- A socket that is not connected is destroyed. -/
theorem Tokens.destruct (h : Tokens s) (hc : s.sockets i = some c)
    (hgone : s.connectedClients.lookup c.token ≠ some i) :
    Tokens { s with
      used := release s.used c.token
      sockets := Function.update s.sockets i none } := by
  refine ⟨fun j hj => ?_, fun t => ?_, ?_, fun j k d e hd he hde => ?_, fun t j hj => ?_⟩
  · show Function.update s.sockets i none j = none
    rw [Function.update_apply]
    split_ifs
    · rfl
    · exact h.fresh j hj
  · rw [release, Finset.mem_erase, h.used]
    constructor
    · rintro ⟨hne, j, d, hd, rfl⟩
      have hji : j ≠ i := by
        rintro rfl
        rw [hc, Option.some.injEq] at hd
        exact hne (by rw [hd])
      exact ⟨j, d, (Function.update_of_ne hji ..).trans hd, rfl⟩
    · rintro ⟨j, d, hd, rfl⟩
      simp only [Function.update_apply] at hd
      split at hd
      · cases hd
      · rename_i hji
        exact ⟨h.token_ne hc hd hji, j, d, hd, rfl⟩
  · simp [release, h.nonzero]
  · simp only [Function.update_apply] at hd he
    split at hd
    · cases hd
    · split at he
      · cases he
      · exact h.distinct j k d e hd he hde
  · obtain ⟨d, hd, rfl, hadded⟩ := h.live t j hj
    have hji : j ≠ i := by
      rintro rfl
      rw [hc, Option.some.injEq] at hd
      exact hgone (hd ▸ hj)
    exact ⟨d, (Function.update_of_ne hji ..).trans hd, rfl, hadded⟩

end Tokens

/-! ## What the handlers see -/

/-- The worlds `w` and `v` differ in sockets that are not connected only. -/
structure Shows (w v : World) : Prop where
  redis : v.redis = w.redis
  connectedClients : v.connectedClients = w.connectedClients
  held : v.held = w.held
  sockets : ∀ t ∈ w.connectedClients, v.sockets t = w.sockets t
  rest : ∀ t, t ∉ w.connectedClients → (v.sockets t).reads = 0

section Views

variable {gen : Generated} {s s' : Service} {w v : World} {t : Token} {i : ℕ} {c : ClientSocket}

theorem Shows.sound (h : Shows w v) (hw : Sound gen w) : Sound gen v where
  attached := by
    refine ⟨h.held.trans hw.attached.unlocked, fun t => ?_, fun t ht => ?_⟩
    · rw [h.connectedClients]
      by_cases ht : t ∈ w.connectedClients
      · rw [h.sockets t ht]
        exact hw.attached.reads t
      · rw [if_neg ht]
        exact h.rest t ht
    · rw [h.connectedClients] at ht
      rw [h.sockets t ht]
      exact hw.attached.handler t ht
  locked := h.redis ▸ hw.locked

theorem Shows.agrees (h : Shows w v) (hw : Agrees w t) : Agrees v t := by
  refine ⟨?_, fun ht => ?_, fun ht id => ?_⟩
  · rw [h.connectedClients, h.redis]
    exact hw.key
  · rw [h.redis]
    exact hw.time (h.connectedClients ▸ ht)
  · rw [h.connectedClients] at ht
    rw [h.redis, h.sockets t ht]
    exact hw.login ht id

theorem world_socket (hl : s.connectedClients.lookup t = some i) (hc : s.sockets i = some c) :
    s.world.sockets t = c.socket := by
  simp [Service.world, hl, hc]

theorem mem_world : t ∈ s.world.connectedClients ↔ ∃ i, s.connectedClients.lookup t = some i := by
  simp [Service.world, Finmap.mem_keys, Finmap.mem_iff]

/-- The handlers see world `w` when the store, the connected clients and their sockets
are those of `w`. -/
theorem shows_world (hw : Unlocked w) (hredis : s.redis = w.redis)
    (hclients : s.connectedClients.keys = w.connectedClients)
    (hsockets : ∀ t i, s.connectedClients.lookup t = some i →
      ∃ c, s.sockets i = some c ∧ c.socket = w.sockets t) : Shows w s.world where
  redis := hredis
  connectedClients := hclients
  held := hw.symm
  sockets t ht := by
    rw [← hclients] at ht
    obtain ⟨i, hi⟩ := mem_world.mp ht
    obtain ⟨c, hc, hsocket⟩ := hsockets t i hi
    rw [world_socket hi hc, hsocket]
  rest t ht := by
    rw [← hclients, Finmap.mem_keys, ← Finmap.lookup_eq_none] at ht
    simp [Service.world, ht]

/-- The callbacks of a connected socket see what the handlers see. -/
theorem node_world (hl : s.connectedClients.lookup c.token = some i)
    (hc : s.sockets i = some c) : (s.node c).world = s.world := by
  simp [Service.node, World.setSocket, ← world_socket hl hc]

/-- An event of client `t` leaves the other sockets alone, and does not connect others. -/
theorem sockets_of_change {w' : World} (h : Change gen w t w') {u : Token} (hu : u ≠ t) :
    w'.sockets u = w.sockets u := by
  have hleave : ∀ w : World, (w.leave t).sockets u = w.sockets u := by
    intro w
    unfold World.leave
    cases w.redis.hashGet (clientKey t) (str "loginId") <;> simp [hu]
  cases h with
  | connect now => simp [World.connect, hu]
  | same => rfl
  | handled data now p _ _ heff =>
    cases p with
    | login => cases heff <;> simp [World.post, World.enter, hu]
    | creationAccount => cases heff <;> rfl
    | playerData => cases heff <;> rfl
    | logout =>
      cases heff with
      | refuse => rfl
      | leave => exact hleave w
      | ignore => rfl
  | closed => simp [World.disconnect, hu, hleave, reading, World.setSocket]

theorem clients_of_change {w' : World} (h : Change gen w t w') (ht : t ∈ w.connectedClients) :
    w'.connectedClients =
      if t ∈ w'.connectedClients then w.connectedClients else w.connectedClients.erase t := by
  cases h with
  | connect now hnot => exact absurd ht hnot
  | same => rw [if_pos ht]
  | handled data now p _ _ heff => rw [clients_of_effect heff, if_pos ht]
  | closed => simp [World.disconnect, reading]

end Views

/-! ## The invariant -/

structure Orderly (gen : Generated) (s : Service) : Prop where
  tokens : Tokens s
  resting : ∀ i c, s.sockets i = some c → s.connectedClients.lookup c.token ≠ some i →
    c.socket.reads = 0
  unadded : ∀ i c, s.sockets i = some c → c.added = false → c.socket = { constructed := true }
  sound : Sound gen s.world
  agrees : ∀ t, Agrees s.world t

section Steps

variable {gen : Generated} {wild : PacketCall → Bytes} {s s' : Service} {i : ℕ}
  {c : ClientSocket}

theorem orderly_initial {redis : Redis} (h : ∀ t, redis.existsKey (clientKey t) = false) :
    Orderly gen (Service.initial redis) where
  tokens := tokens_initial redis
  resting i c hc := by cases hc
  unadded i c hc := by cases hc
  sound := sound_initial h
  agrees := agrees_initial h

/-- The connected sockets are as they were. -/
theorem Orderly.shows (h : Orderly gen s) (hredis : s'.redis = s.redis)
    (hclients : s'.connectedClients = s.connectedClients)
    (hsockets : ∀ j d, s.sockets j = some d → s.connectedClients.lookup d.token = some j →
      ∃ d', s'.sockets j = some d' ∧ d'.socket = d.socket) : Shows s.world s'.world := by
  refine shows_world h.sound.attached.unlocked hredis (by rw [hclients]; rfl) fun t j hj => ?_
  rw [hclients] at hj
  obtain ⟨d, hd, rfl, -⟩ := h.tokens.live t j hj
  rw [world_socket hj hd]
  exact hsockets j d hd hj

theorem Orderly.construct (h : Orderly gen s) {draws : List Draw} {recvBuffer : RecvBuffer}
    (hs : step gen wild s (.construct draws recvBuffer) = some s') : Orderly gen s' := by
  obtain ⟨⟨t, used⟩, hq, rfl⟩ := Option.map_eq_some_iff.mp hs
  have hold : ∀ j d, s.sockets j = some d → j ≠ s.constructed := by
    rintro j d hd rfl
    rw [h.tokens.fresh _ le_rfl] at hd
    cases hd
  let s' : Service := { s with
    used := used
    sockets := Function.update s.sockets s.constructed (some { token := t, recvBuffer })
    constructed := s.constructed + 1 }
  have hshows : Shows s.world s'.world := h.shows rfl rfl
    fun j d hd _ => ⟨d, (Function.update_of_ne (hold j d hd) ..).trans hd, rfl⟩
  refine ⟨h.tokens.construct hq recvBuffer, fun j d hd hl => ?_, fun j d hd ha => ?_,
    hshows.sound h.sound, fun u => hshows.agrees (h.agrees u)⟩
  · simp only [Function.update_apply] at hd
    split at hd
    · rw [← Option.some.inj hd]
    · exact h.resting j d hd hl
  · simp only [Function.update_apply] at hd
    split at hd
    · rw [← Option.some.inj hd]
    · exact h.unadded j d hd ha

theorem Orderly.destruct (h : Orderly gen s) (hs : step gen wild s (.destruct i) = some s') :
    Orderly gen s' := by
  obtain ⟨c, hc, hrest⟩ := Option.bind_eq_some_iff.mp hs
  split at hrest
  · cases hrest
  · rename_i hidle
    simp only [not_or] at hidle
    obtain rfl := Option.some.inj hrest
    have hother : ∀ j d, s.sockets j = some d → s.connectedClients.lookup d.token = some j →
        j ≠ i := by
      rintro j d hd hl rfl
      rw [hc, Option.some.injEq] at hd
      exact hidle.1 (hd ▸ hl)
    let s' : Service := { s with
      used := release s.used c.token
      sockets := Function.update s.sockets i none }
    have hshows : Shows s.world s'.world := h.shows rfl rfl fun j d hd hl =>
      ⟨d, (Function.update_of_ne (hother j d hd hl) ..).trans hd, rfl⟩
    refine ⟨h.tokens.destruct hc hidle.1, fun j d hd hl => ?_, fun j d hd ha => ?_,
      hshows.sound h.sound, fun u => hshows.agrees (h.agrees u)⟩
    · simp only [Function.update_apply] at hd
      split at hd
      · cases hd
      · exact h.resting j d hd hl
    · simp only [Function.update_apply] at hd
      split at hd
      · cases hd
      · exact h.unadded j d hd ha

/-- `AddClient` with a socket that has just been constructed. -/
theorem run_addClient {w : World} (hw : Unlocked w) {t : Token} (now : ℕ) :
    Program.run exec (addClient gen t now) (w.setSocket t { constructed := true }) =
      some ((), w.connect gen t now) := by
  have hconstruct : exec (.construct t) w = some ((), w.setSocket t { constructed := true }) := rfl
  rw [← run_acceptClient gen t w now hw, acceptClient, Program.call_bind, Program.run_issue,
    hconstruct, Option.bind_some]

/-- `AddClient` for a socket that was not added: its token is not connected. -/
theorem Orderly.added (h : Orderly gen s) {now : ℕ}
    (hs : step gen wild s (.addClient i now) = some s') :
    ∃ c, s.sockets i = some c ∧ c.added = false ∧ s.connectedClients.lookup c.token = none ∧
      s' = { s with
        sockets := Function.update s.sockets i
          (some { c with added := true, socket := readySocket gen })
        connectedClients := s.connectedClients.insert c.token i
        redis := (s.world.connect gen c.token now).redis } := by
  obtain ⟨c, hc, hrest⟩ := Option.bind_eq_some_iff.mp hs
  split at hrest
  · cases hrest
  · rename_i hadded
    have ha : c.added = false := by simpa using hadded
    have hrun : Program.run exec (addClient gen c.token now) (s.node c).world =
        some ((), s.world.connect gen c.token now) := by
      rw [Service.node, h.unadded i c hc ha]
      exact run_addClient h.sound.attached.unlocked now
    rw [hrun] at hrest
    refine ⟨c, hc, ha, h.tokens.not_connected hc ha, ?_⟩
    rw [← Option.some.inj hrest]
    simp [World.connect]

theorem Orderly.addClient (h : Orderly gen s) {now : ℕ}
    (hs : step gen wild s (.addClient i now) = some s') : Orderly gen s' := by
  obtain ⟨c, hc, ha, hnone, rfl⟩ := h.added hs
  have hfree : c.token ∉ s.world.connectedClients := by
    simp [mem_world, hnone]
  have hchange : Change gen s.world c.token (s.world.connect gen c.token now) :=
    .connect now hfree
  have hkeys : (s.connectedClients.insert c.token i).keys =
      insert c.token s.connectedClients.keys := by
    ext u
    rw [Finmap.mem_keys, Finmap.mem_insert, Finset.mem_insert, Finmap.mem_keys]
  let s' : Service := { s with
    sockets := Function.update s.sockets i
      (some { c with added := true, socket := readySocket gen })
    connectedClients := s.connectedClients.insert c.token i
    redis := (s.world.connect gen c.token now).redis }
  have hshows : Shows (s.world.connect gen c.token now) s'.world := by
    refine shows_world h.sound.attached.unlocked rfl hkeys fun u j hj => ?_
    rcases h.tokens.lookup_insert hc hj with ⟨rfl, rfl⟩ | ⟨hji, hu, hj'⟩
    · exact ⟨_, Function.update_self .., by simp [World.connect]⟩
    · obtain ⟨d, hd, -⟩ := h.tokens.live u j hj'
      refine ⟨d, (Function.update_of_ne hji ..).trans hd, ?_⟩
      rw [← world_socket hj' hd, sockets_of_change hchange hu]
  have htokens : Tokens s' := by
    refine h.tokens.replace hc rfl rfl rfl rfl fun u j hj => ?_
    rcases h.tokens.lookup_insert hc hj with ⟨rfl, rfl⟩ | ⟨hji, -, hj'⟩
    · exact .inl ⟨rfl, rfl, rfl⟩
    · exact .inr ⟨hji, hj'⟩
  refine ⟨htokens, fun j d hd hl => ?_, fun j d hd hda => ?_,
    hshows.sound (h.sound.change hchange),
    fun u => hshows.agrees (agrees_change h.sound h.agrees hchange u)⟩
  · simp only [Function.update_apply] at hd
    split at hd
    · rename_i hji
      obtain rfl := Option.some.inj hd
      exact absurd (hji ▸ Finmap.lookup_insert _) hl
    · rename_i hji
      rw [Finmap.lookup_insert_of_ne _ (h.tokens.token_ne hc hd hji)] at hl
      exact h.resting j d hd hl
  · simp only [Function.update_apply] at hd
    split at hd
    · rw [← Option.some.inj hd] at hda
      cases hda
    · exact h.unadded j d hd hda

/-- What a callback leaves of the map is what it had. -/
theorem lookup_of_store {n : Node} {u : Token} {j : ℕ}
    (hj : (s.store i c n).connectedClients.lookup u = some j) :
    s.connectedClients.lookup u = some j ∧
      (u = c.token → c.token ∈ n.world.connectedClients) := by
  simp only [Service.store] at hj
  split at hj
  · rename_i ht
    exact ⟨hj, fun _ => ht⟩
  · by_cases hu : u = c.token
    · subst hu
      rw [Finmap.lookup_erase] at hj
      cases hj
    · rw [Finmap.lookup_erase_ne hu] at hj
      exact ⟨hj, fun h => absurd h hu⟩

/-- A callback keeps the token of its socket. -/
theorem Tokens.store (h : Tokens s) (hc : s.sockets i = some c) (n : Node) :
    Tokens (s.store i c n) := by
  refine h.replace hc rfl rfl rfl rfl fun t j hj => ?_
  obtain ⟨hj', -⟩ := lookup_of_store hj
  by_cases hji : j = i
  · subst hji
    obtain ⟨d, hd, hdt, hadded⟩ := h.live t j hj'
    rw [hc, Option.some.injEq] at hd
    subst hd
    exact .inl ⟨rfl, hdt.symm, hadded⟩
  · exact .inr ⟨hji, hj'⟩

/-- A callback of a connected socket. -/
theorem Orderly.callback (h : Orderly gen s) (hc : s.sockets i = some c)
    (hl : s.connectedClients.lookup c.token = some i) {n : Node}
    (hchange : Change gen s.world c.token n.world) : Orderly gen (s.store i c n) := by
  have hmem : c.token ∈ s.world.connectedClients := mem_world.mpr ⟨i, hl⟩
  have hsound := h.sound.change hchange
  have hkeys : (s.store i c n).connectedClients.keys = n.world.connectedClients := by
    rw [clients_of_change hchange hmem]
    simp only [Service.store]
    split_ifs
    · rfl
    · exact Finmap.keys_erase _ _
  have hshows : Shows n.world (s.store i c n).world := by
    refine shows_world hsound.attached.unlocked rfl hkeys fun u j hj => ?_
    obtain ⟨hj', -⟩ := lookup_of_store hj
    obtain ⟨d, hd, rfl, -⟩ := h.tokens.live u j hj'
    by_cases hji : j = i
    · subst hji
      rw [hc, Option.some.injEq] at hd
      subst hd
      exact ⟨_, Function.update_self .., rfl⟩
    · have hu : d.token ≠ c.token := h.tokens.token_ne hc hd hji
      refine ⟨d, (Function.update_of_ne hji ..).trans hd, ?_⟩
      rw [← world_socket hj' hd, sockets_of_change hchange hu]
  refine ⟨h.tokens.store hc n, fun j d hd hl' => ?_, fun j d hd ha => ?_,
    hshows.sound hsound, fun u => hshows.agrees (agrees_change h.sound h.agrees hchange u)⟩
  · simp only [Service.store, Function.update_apply] at hd
    split at hd
    · rename_i hji
      subst hji
      obtain rfl := Option.some.inj hd
      have hgone : c.token ∉ n.world.connectedClients := by
        intro ht
        exact hl' (by simpa [Service.store, ht] using hl)
      exact (hsound.attached.reads c.token).trans (if_neg hgone)
    · rename_i hji
      refine h.resting j d hd fun hj => hl' ?_
      have hu : d.token ≠ c.token := h.tokens.token_ne hc hd hji
      simp only [Service.store]
      split_ifs
      · exact hj
      · rwa [Finmap.lookup_erase_ne hu]
  · simp only [Service.store, Function.update_apply] at hd
    split at hd
    · obtain ⟨d', hd', -, hadded⟩ := h.tokens.live _ _ hl
      rw [hc, Option.some.injEq] at hd'
      rw [← Option.some.inj hd, hd', hadded] at ha
      cases ha
    · exact h.unadded j d hd ha

/-- A read completes only for a connected socket. -/
theorem Orderly.read (h : Orderly gen s) {r : ReadResult} {now : ℕ}
    (hs : step gen wild s (.read i r now) = some s') : Orderly gen s' := by
  obtain ⟨c, hc, hrest⟩ := Option.bind_eq_some_iff.mp hs
  obtain ⟨n, hn, rfl⟩ := Option.map_eq_some_iff.mp hrest
  by_cases hl : s.connectedClients.lookup c.token = some i
  · refine h.callback hc hl ?_
    rw [← node_world hl hc]
    refine change_of_step (e := .read c.token r now) ?_ hn
    rw [node_world hl hc]
    exact h.sound.attached
  · have hreads : ((s.node c).world.sockets c.token).reads = 0 := by
      simpa [Service.node, World.setSocket] using h.resting i c hc hl
    simp only [EventLoop.step, run_readHandler_none _ r now hreads] at hn
    cases hn

/-- The callbacks of a client that was removed leave the map as it is. -/
theorem connectedClients_store (n : Node) (h : s.connectedClients.lookup c.token = none) :
    (s.store i c n).connectedClients = s.connectedClients := by
  simp only [Service.store]
  split_ifs
  · rfl
  · refine Finmap.ext_lookup fun u => ?_
    by_cases hu : u = c.token
    · rw [hu, Finmap.lookup_erase, h]
    · exact Finmap.lookup_erase_ne hu

/-- A callback that leaves the world alone, of a socket whose client was removed. -/
theorem Orderly.late (h : Orderly gen s) (hc : s.sockets i = some c)
    (hl : s.connectedClients.lookup c.token ≠ some i) {n : Node}
    (hworld : n.world = (s.node c).world) : Orderly gen (s.store i c n) := by
  have hnone : s.connectedClients.lookup c.token = none := by
    rw [Option.eq_none_iff_forall_ne_some]
    intro j hj
    exact hl (h.tokens.lookup_eq hc hj ▸ hj)
  have hclients := connectedClients_store (i := i) n hnone
  have hsocket : n.world.sockets c.token = c.socket := by
    rw [hworld]
    simp [Service.node, World.setSocket]
  have hsockets : ∀ j d, (s.store i c n).sockets j = some d →
      ∃ d', s.sockets j = some d' ∧ d'.socket = d.socket ∧ d'.token = d.token ∧
        d'.added = d.added := by
    intro j d hd
    simp only [Service.store, Function.update_apply] at hd
    split at hd
    · rename_i hji
      obtain rfl := Option.some.inj hd
      exact ⟨c, hji ▸ hc, hsocket.symm, rfl, rfl⟩
    · exact ⟨d, hd, rfl, rfl, rfl⟩
  have hshows : Shows s.world (s.store i c n).world := by
    refine h.shows (by simp [Service.store, hworld, Service.node, Service.world]) hclients ?_
    intro j d hd hj
    have hji : j ≠ i := by
      rintro rfl
      rw [hc, Option.some.injEq] at hd
      exact hl (hd ▸ hj)
    exact ⟨d, (Function.update_of_ne hji ..).trans hd, rfl⟩
  refine ⟨h.tokens.store hc n, fun j d hd hl' => ?_, fun j d hd ha => ?_,
    hshows.sound h.sound, fun u => hshows.agrees (h.agrees u)⟩
  · obtain ⟨d', hd', hsame, htok, -⟩ := hsockets j d hd
    rw [← hsame]
    exact h.resting j d' hd' (by rwa [htok, ← hclients])
  · obtain ⟨d', hd', hsame, -, hadded⟩ := hsockets j d hd
    rw [← hsame]
    exact h.unadded j d' hd' (hadded.trans ha)

/-- A write can also complete for a socket whose client was removed. -/
theorem Orderly.written (h : Orderly gen s) {buffer : Buffer} {failed : Bool}
    (hs : step gen wild s (.written i buffer failed) = some s') : Orderly gen s' := by
  obtain ⟨c, hc, hrest⟩ := Option.bind_eq_some_iff.mp hs
  obtain ⟨n, hn, rfl⟩ := Option.map_eq_some_iff.mp hrest
  have hworld : n.world = (s.node c).world := by
    simp only [EventLoop.step] at hn
    split at hn
    · obtain ⟨q, -, rfl⟩ := Option.map_eq_some_iff.mp hn
      rfl
    · obtain ⟨writer, -, rfl⟩ := Option.map_eq_some_iff.mp hn
      rfl
  by_cases hl : s.connectedClients.lookup c.token = some i
  · refine h.callback hc hl ?_
    rw [hworld, node_world hl hc]
    exact .same
  · exact h.late hc hl hworld

theorem Orderly.step (h : Orderly gen s) {e : Event} (hs : step gen wild s e = some s') :
    Orderly gen s' := by
  cases e with
  | construct draws recvBuffer => exact h.construct hs
  | addClient i now => exact h.addClient hs
  | read i r now => exact h.read hs
  | written i buffer failed => exact h.written hs
  | destruct i => exact h.destruct hs

end Steps

/-- Tokens identify the sockets that exist. `AddClient` replaces no entry of the map,
and the hash of the client that it adds has nothing but the time of connection. -/
theorem tokens_identify (gen : Generated) (wild : PacketCall → Bytes) (redis : Redis)
    (hclean : ∀ t, redis.existsKey (clientKey t) = false) (events : List Event) (s : Service)
    (hr : runs (step gen wild) (Service.initial redis) events = some s) :
    (∀ i j c d, s.sockets i = some c → s.sockets j = some d → c.token = d.token → i = j) ∧
    (∀ i c, s.sockets i = some c → c.token ≠ 0) ∧
    (∀ t, t ∈ s.used ↔ ∃ i c, s.sockets i = some c ∧ c.token = t) ∧
    (∀ i now s', step gen wild s (.addClient i now) = some s' →
      (∀ t j, s.connectedClients.lookup t = some j → s'.connectedClients.lookup t = some j) ∧
      ∃ c, s.sockets i = some c ∧ s'.connectedClients.lookup c.token = some i ∧
        ∀ f, s'.redis.hashGet (clientKey c.token) f ≠ none ↔ f = str "ConnectedTime") := by
  have h : Orderly gen s :=
    invariant (fun _ _ _ hi hs => Orderly.step hi hs) (orderly_initial hclean) hr
  refine ⟨h.tokens.distinct, fun i c hc hzero => ?_, h.tokens.used, fun i now s' hs => ?_⟩
  · exact h.tokens.nonzero ((h.tokens.used 0).mpr ⟨i, c, hc, hzero⟩)
  · obtain ⟨c, hc, -, hnone, rfl⟩ := h.added hs
    refine ⟨fun t j hj => ?_, c, hc, Finmap.lookup_insert _, fun f => ?_⟩
    · have ht : t ≠ c.token := by
        rintro rfl
        rw [hnone] at hj
        cases hj
      exact (Finmap.lookup_insert_of_ne _ ht).trans hj
    · have hfree : s.world.redis.existsKey (clientKey c.token) = false := by
        have hnot : c.token ∉ s.world.connectedClients := by simp [mem_world, hnone]
        simpa using fun hex => hnot ((h.agrees c.token).key.mpr hex)
      have hempty : s.redis.hashGet (clientKey c.token) f = none :=
        (Store.existsKey_false_iff _ _).mp hfree f
      by_cases hf : f = str "ConnectedTime" <;>
        simp [World.connect, Store.hashGet_hashSet, hf, Service.world, hempty]

/-- A token that the pool draws again and again. -/
def sampleDraw : Draw := ⟨7, by decide⟩

/-- The write of the response to `sampleRegister`. -/
def sampleWrite : Buffer := ⟨0, (Response.registerAccount ⟨true, str "ok"⟩).packet wireGenerated⟩

/-- A client registers, logs in and disconnects. Its writes complete afterwards and its
socket is destroyed. The next socket gets the same token. -/
def tokenReused : List Event :=
  [.construct [sampleDraw] zeroBuffer, .addClient 0 1, .read 0 (packetRead 1 sampleRegister) 2,
    .read 0 (packetRead 3 sampleLogin) 5, .read 0 { data := [] } 6,
    .written 0 sampleWrite true, .written 0 sampleWrite true, .destruct 0,
    .construct [sampleDraw] zeroBuffer]

theorem tokens_identify_reused : ∃ s s' c,
    runs (step wireGenerated PacketCall.payload) (Service.initial Store.empty) tokenReused =
      some s ∧
    step wireGenerated PacketCall.payload s (.addClient 1 9) = some s' ∧
    s.sockets 1 = some c ∧ c.token = 7 ∧
    ∀ f, s'.redis.hashGet (clientKey 7) f ≠ none ↔ f = str "ConnectedTime" := by
  have hrun : ((runs (step wireGenerated PacketCall.payload) (Service.initial Store.empty)
      tokenReused).bind fun s => (step wireGenerated PacketCall.payload s (.addClient 1 9)).map
        fun _ => (s.sockets 1).map ClientSocket.token) = some (some 7) := by
    decide +kernel
  obtain ⟨s, hs, hadd⟩ := Option.bind_eq_some_iff.mp hrun
  obtain ⟨s', hs', htoken⟩ := Option.map_eq_some_iff.mp hadd
  obtain ⟨d, hd, hseven⟩ := Option.map_eq_some_iff.mp htoken
  obtain ⟨-, c, hc, -, hfields⟩ := (tokens_identify wireGenerated PacketCall.payload Store.empty
    (fun _ => rfl) tokenReused s hs).2.2.2 1 9 s' hs'
  rw [hd, Option.some.injEq] at hc
  subst hc
  rw [hseven] at hfields
  exact ⟨s, s', d, hs, hs', hd, hseven, hfields⟩

end IsolationServer.TokenPool
