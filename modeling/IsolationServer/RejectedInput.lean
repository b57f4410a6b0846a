import IsolationServer.ClientViews
import IsolationServer.WireFormat

/-!
# Rejected input

A read that is not dispatched, that finds no handler or that does not parse, and
every request that is answered with `result` false, leaves the store, the
connected clients, the login keys and the handler tables as they are. So does a
logout without a login.
-/
namespace IsolationServer.RejectedInput
open ClientViews EventLoop HashStore LittleEndian ReadLoop Runs

/-- The store, the connected clients and what the sockets keep of the clients. -/
structure Unchanged (w w' : World) : Prop where
  redis : w'.redis = w.redis
  connectedClients : w'.connectedClients = w.connectedClients
  loginKey : ∀ u, (w'.sockets u).loginKey = (w.sockets u).loginKey
  packetHandler : ∀ u, (w'.sockets u).packetHandler = (w.sockets u).packetHandler
  disconnectHandler : ∀ u, (w'.sockets u).disconnectHandler = (w.sockets u).disconnectHandler

/-- The bytes do not parse as the request of the handler. -/
def Unparsed (gen : Generated) (data : Bytes) : PacketHandler → Prop
  | .login => gen.parseLogin data = none
  | .creationAccount => gen.parseRegisterAccount data = none
  | .playerData => gen.parsePlayerData data = false
  | .logout => gen.parseLogout data = false

/-- A read that is turned away before any request is served, or that asks to log out a
client that is not logged in. It is dropped when its bytes have no magic, or give another
length than the number of the bytes read. -/
inductive Rejected (gen : Generated) (n : Node) (t : Token) (r : ReadResult) : Prop where
  | dropped (hread : r.failed = false) (h : r.data.take 4 ≠ str "prot" ∨
      (r.data.drop 8).take 4 ≠ bytesLe (UInt32.ofNat r.data.length))
  | unhandled (c : PacketCall)
      (h : readCompleted ((n.buffers t).receive r.data) r = .readAgain (some c))
      (table : (n.world.sockets t).packetHandler c.type = none)
  | unparsed (c : PacketCall) (p : PacketHandler)
      (h : readCompleted ((n.buffers t).receive r.data) r = .readAgain (some c))
      (table : (n.world.sockets t).packetHandler c.type = some p)
      (parse : Unparsed gen c.payload p)
  | notLoggedIn (c : PacketCall)
      (h : readCompleted ((n.buffers t).receive r.data) r = .readAgain (some c))
      (table : (n.world.sockets t).packetHandler c.type = some .logout)
      (login : n.world.redis.hashGet (clientKey t) (str "loginId") = none)

/-- The event is answered with `result` false. -/
def AnsweredFalse (n n' : Node) (t : Token) : Prop :=
  ∃ response : Response, n'.world.posted = n.world.posted ++ [(t, response)] ∧
    response.result = false

section Worlds

variable {gen : Generated} {w w' : World} {t : Token}

theorem unchanged_refl (w : World) : Unchanged w w :=
  ⟨rfl, rfl, fun _ => rfl, fun _ => rfl, fun _ => rfl⟩

theorem unchanged_post (w : World) (t : Token) (response : Response) :
    Unchanged w (w.post t response) :=
  ⟨rfl, rfl, fun _ => rfl, fun _ => rfl, fun _ => rfl⟩

/-- A request that does not parse is answered or ignored, and changes nothing. -/
theorem handle_unparsed (w : World) {data : Bytes} {p : PacketHandler} (now : ℕ)
    (h : Unparsed gen data p) : ∃ v,
      w.handle gen t (PacketHandler.activity data now p) = some v ∧ Unchanged w v := by
  cases p with
  | login =>
    refine ⟨w.post t (.login ⟨false, str "parsingError"⟩), ?_, unchanged_post w t _⟩
    rw [PacketHandler.activity, World.handle, loginVerdict_of_parse_none h]
    rfl
  | creationAccount =>
    refine ⟨w.post t (.registerAccount ⟨false, str "parsingError"⟩), ?_, unchanged_post w t _⟩
    rw [PacketHandler.activity, World.handle, registerVerdict_of_parse_none h]
    rfl
  | playerData =>
    refine ⟨w.post t (.playerData ⟨false, str "parsingError", [], []⟩), ?_, unchanged_post w t _⟩
    rw [PacketHandler.activity, World.handle, playerDataVerdict_of_parse_false h]
    rfl
  | logout =>
    have hparse : gen.parseLogout data ≠ true := by simpa [Unparsed] using h
    refine ⟨w, ?_, unchanged_refl w⟩
    rw [PacketHandler.activity, World.handle, if_neg hparse]

theorem handle_notLoggedIn (data : Bytes) (now : ℕ)
    (h : w.redis.hashGet (clientKey t) (str "loginId") = none) :
    w.handle gen t (PacketHandler.activity data now .logout) = some w := by
  have hleave : w.leave t = w := by rw [World.leave, h]
  rw [PacketHandler.activity, World.handle, hleave, ite_self]

/-- A packet whose handler changes nothing changes nothing. -/
theorem packetOutcome_unchanged {type : Int32} {data : Bytes} {now : ℕ} {p : PacketHandler}
    (table : (w.sockets t).packetHandler type = some p)
    (h : ∃ v, w.handle gen t (PacketHandler.activity data now p) = some v ∧ Unchanged w v) :
    ∃ v, packetOutcome gen w t type data now = some v ∧ Unchanged w v := by
  simp only [packetOutcome, table]
  split
  · exact ⟨w, rfl, unchanged_refl w⟩
  · exact h

/-- An event that answers `result` false only answers. -/
theorem unchanged_of_change (hc : Change gen w t w') {response : Response}
    (hposted : w'.posted = w.posted ++ [(t, response)]) (hfalse : response.result = false) :
    Unchanged w w' := by
  have silent : w.posted ≠ w.posted ++ [(t, response)] := by simp
  have granted : ∀ granted : Response, granted.result = true →
      w.posted ++ [(t, granted)] ≠ w.posted ++ [(t, response)] := by
    rintro granted htrue h
    obtain rfl : granted = response := by simpa using h
    rw [htrue] at hfalse
    cases hfalse
  cases hc with
  | connect => exact absurd hposted silent
  | same => exact unchanged_refl w
  | handled data now p v ht heff =>
    cases p with
    | login =>
      cases heff with
      | enter => exact absurd hposted (granted _ rfl)
      | refuse => exact unchanged_post w t _
    | creationAccount =>
      cases heff with
      | create => exact absurd hposted (granted _ rfl)
      | refuse => exact unchanged_post w t _
    | playerData =>
      cases heff with
      | answer => exact absurd hposted (granted _ rfl)
      | refuse => exact unchanged_post w t _
    | logout =>
      cases heff with
      | refuse _ _ ha => cases ha
      | leave => exact absurd ((leave_posted w t).symm.trans hposted) silent
      | ignore => exact unchanged_refl w
  | closed =>
    have hsame : (((reading w t 0).leave t).disconnect t).posted = w.posted :=
      leave_posted (reading w t 0) t
    exact absurd (hsame.symm.trans hposted) silent

end Worlds

section Reads

variable {gen : Generated} {wild : PacketCall → Bytes} {n : Node} {t : Token} {r : ReadResult}

theorem postWrites_total (gen : Generated) (writers : Token → WriteQueue.Writer)
    (responses : List (Token × Response)) :
    ∃ writers', postWrites gen writers responses = some writers' := by
  induction responses generalizing writers with
  | nil => exact ⟨writers, rfl⟩
  | cons q rest ih =>
    obtain ⟨u, response⟩ := q
    simp only [postWrites, WriteQueue.deliver_post]
    exact ih _

/-- A read of a connected client takes the node where its handler takes the world. -/
theorem step_read {now : ℕ} {v : World}
    (h : CommandPrograms.Program.run exec
      (readHandler gen wild t ((n.buffers t).receive r.data) r now) n.world = some ((), v)) :
    ∃ n', step gen wild n (.read t r now) = some n' ∧ n'.world = v := by
  obtain ⟨writers, hw⟩ := postWrites_total gen n.writers (v.posted.drop n.world.posted.length)
  refine ⟨⟨v, Function.update n.buffers t ((n.buffers t).receive r.data), writers⟩, ?_, rfl⟩
  simp only [step, h, Option.bind_some, hw, Option.map_some]

/-- The handler of a packet that has a header parses exactly its payload. -/
theorem seen_eq_payload (h12 : 12 ≤ r.data.length) (hfit : r.data.length ≤ recvBufferSize)
    {b : RecvBuffer} {c : PacketCall}
    (h : readCompleted (b.receive r.data) r = .readAgain (some c)) :
    PacketCall.seen wild c = c.payload := by
  unfold readCompleted at h
  split at h
  · cases h
  · split at h
    · have hd := (dispatch_receive_iff b h12 hfit c).mp (Outcome.readAgain.inj h)
      rw [PacketCall.seen, if_pos (by omega)]
    · cases h

/-- Rejected input changes nothing. -/
theorem rejected_changes_nothing (gen : Generated) (wild : PacketCall → Bytes) (redis : Redis)
    (buffers : Token → RecvBuffer) (events : List Event) (n : Node)
    (hr : runs (step gen wild) (Node.initial redis buffers) events = some n) (t : Token)
    (ht : t ∈ n.world.connectedClients) (r : ReadResult) (now : ℕ) (h12 : 12 ≤ r.data.length)
    (hfit : r.data.length ≤ recvBufferSize) :
    (Rejected gen n t r → ∃ n', step gen wild n (.read t r now) = some n' ∧
      Unchanged n.world n'.world) ∧
    ∀ n', step gen wild n (.read t r now) = some n' → AnsweredFalse n n' t →
      Unchanged n.world n'.world := by
  have hattached := attached_run hr
  constructor
  · intro hrej
    have hrun := @run_read gen wild t n.world hattached ht ((n.buffers t).receive r.data) r now
    have hpacket : ∀ c, readCompleted ((n.buffers t).receive r.data) r = .readAgain (some c) →
        (∃ v, packetOutcome gen n.world t c.type c.payload now = some v ∧ Unchanged n.world v) →
        ∃ n', step gen wild n (.read t r now) = some n' ∧ Unchanged n.world n'.world := by
      rintro c h ⟨v, hv, hun⟩
      simp only [h, seen_eq_payload h12 hfit h, hv] at hrun
      obtain ⟨n', hs, rfl⟩ := step_read hrun
      exact ⟨n', hs, hun⟩
    cases hrej with
    | dropped hread h =>
      obtain ⟨data, failed⟩ := r
      obtain rfl : failed = false := hread
      have hnone := (WireFormat.readCompleted_dropped_iff (n.buffers t) h12 hfit).mpr h
      rw [hnone] at hrun
      obtain ⟨n', hs, hw⟩ := step_read hrun
      exact ⟨n', hs, hw ▸ unchanged_refl n.world⟩
    | unhandled c h table =>
      refine hpacket c h ⟨n.world, ?_, unchanged_refl _⟩
      rw [packetOutcome, table]
    | unparsed c p h table parse =>
      exact hpacket c h (packetOutcome_unchanged table (handle_unparsed n.world now parse))
    | notLoggedIn c h table login =>
      exact hpacket c h (packetOutcome_unchanged table
        ⟨_, handle_notLoggedIn c.payload now login, unchanged_refl _⟩)
  · rintro n' hs ⟨response, hposted, hfalse⟩
    exact unchanged_of_change (change_of_step hattached hs) hposted hfalse

/-- A client sends twelve zeros, and then logs in to an account that does not exist. -/
theorem rejected_changes_nothing_unknown : ∃ n n₁ n₂,
    runs (step wireGenerated PacketCall.payload) (Node.initial Store.empty fun _ => zeroBuffer)
      [.accept 1 0 zeroBuffer] = some n ∧
    step wireGenerated PacketCall.payload n (.read 1 ⟨List.replicate 12 0, false⟩ 1) = some n₁ ∧
    Unchanged n.world n₁.world ∧
    step wireGenerated PacketCall.payload n (.read 1 (packetRead 3 sampleLogin) 2) = some n₂ ∧
    Unchanged n.world n₂.world := by
  have hrun : ((runs (step wireGenerated PacketCall.payload)
      (Node.initial Store.empty fun _ => zeroBuffer) [.accept 1 0 zeroBuffer]).bind fun n =>
        (step wireGenerated PacketCall.payload n (.read 1 (packetRead 3 sampleLogin) 2)).map
          fun n' => (decide (1 ∈ n.world.connectedClients), n.world.posted, n'.world.posted)) =
      some (true, [], [(1, .login ⟨false, str "idDoesNotExsist"⟩)]) := by
    decide +kernel
  obtain ⟨n, hn, hstep⟩ := Option.bind_eq_some_iff.mp hrun
  obtain ⟨n₂, hn₂, hposted⟩ := Option.map_eq_some_iff.mp hstep
  simp only [Prod.mk.injEq, decide_eq_true_eq] at hposted
  obtain ⟨hmem, hbefore, hafter⟩ := hposted
  obtain ⟨n₁, hn₁, hun⟩ := (rejected_changes_nothing wireGenerated PacketCall.payload Store.empty
    _ _ n hn 1 hmem ⟨List.replicate 12 0, false⟩ 1 (by decide) (by decide)).1
    (.dropped rfl (.inl (by decide)))
  have hfalse : AnsweredFalse n n₂ 1 := ⟨_, by rw [hbefore, hafter]; rfl, rfl⟩
  exact ⟨n, n₁, n₂, hn, hn₁, hun, hn₂, (rejected_changes_nothing wireGenerated PacketCall.payload
    Store.empty _ _ n hn 1 hmem (packetRead 3 sampleLogin) 2 (by decide) (by decide)).2 n₂ hn₂
    hfalse⟩

end Reads

end IsolationServer.RejectedInput
