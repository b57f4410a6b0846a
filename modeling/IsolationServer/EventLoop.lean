import IsolationServer.Connections
import IsolationServer.ReadLoop
import IsolationServer.Sequential
import IsolationServer.WriteDelivery

/-!
# The server on one thread

Connections, completed reads and completed writes, one at a time and each
handled to completion. A read goes from the bytes received through the read
loop, the handler table and the handler to the responses in the write queue.
-/
namespace IsolationServer.EventLoop
open CommandPrograms Connections HashStore ReadLoop Runs WriteQueue

/-- What the callbacks share, with the receive buffer and the write queue of each
client. -/
structure Node where
  world : World
  buffers : Token → RecvBuffer
  writers : Token → Writer

def Node.initial (redis : Redis) (buffers : Token → RecvBuffer) : Node where
  world := World.initial redis
  buffers := buffers
  writers _ := {}

/-- `accept` brings the uninitialised receive buffer of the new client; a write
completes with or without an error. -/
inductive Event where
  | accept (t : Token) (now : ℕ) (recvBuffer : RecvBuffer)
  | read (t : Token) (r : ReadResult) (now : ℕ)
  | written (t : Token) (buffer : Buffer) (failed : Bool)

def Event.client : Event → Token
  | .accept t _ _ => t
  | .read t _ _ => t
  | .written t _ _ => t

/-- The bytes that `ParseFromArray(data, length)` reads. What it makes of a
negative length, which a short read can lead to, is not determined; `wild`
stands for it. -/
def PacketCall.seen (wild : PacketCall → Bytes) (c : PacketCall) : Bytes :=
  if 0 ≤ c.length.toInt then c.payload else wild c

section Model

variable (gen : Generated) (wild : PacketCall → Bytes)

/-- The completion handler of a read, with the received bytes in the buffer. -/
def readHandler (t : Token) (buffer : RecvBuffer) (r : ReadResult) (now : ℕ) : Handler Unit := do
  call (.completeRead t)
  match readCompleted buffer r with
  | .handleError => handleError t
  | .readAgain none => call (.readAsync t)
  | .readAgain (some c) => do
    handlePacket gen t c.type (PacketCall.seen wild c) now
    call (.readAsync t)

/-- `PostWrite` for each response. -/
def postWrites (writers : Token → Writer) :
    List (Token × Response) → Option (Token → Writer)
  | [] => some writers
  | (t, response) :: rest => do
    let writer ← deliver (writers t) (.post (response.packet gen))
    postWrites (Function.update writers t writer) rest

def step (n : Node) : Event → Option Node
  | .accept t now recvBuffer =>
    if t ∈ n.world.connectedClients then none
    else (Program.run exec (acceptClient gen t now) n.world).map fun q =>
      { world := q.2
        buffers := Function.update n.buffers t recvBuffer
        writers := Function.update n.writers t {} }
  | .read t r now =>
    let buffer := (n.buffers t).receive r.data
    (Program.run exec (readHandler gen wild t buffer r now) n.world).bind fun q =>
      (postWrites gen n.writers (q.2.posted.drop n.world.posted.length)).map fun writers =>
        { world := q.2, buffers := Function.update n.buffers t buffer, writers }
  | .written t buffer failed =>
    if failed = true then
      (WriteQueue.exec (.complete buffer) (n.writers t)).map fun q =>
        { n with writers := Function.update n.writers t q.2 }
    else (deliver (n.writers t) (.completed buffer)).map fun writer =>
      { n with writers := Function.update n.writers t writer }

end Model

/-! ## What an event does to the world -/

/-- The world with `n` reads of client `t` outstanding. -/
def reading (w : World) (t : Token) (n : ℕ) : World :=
  w.setSocket t { w.sockets t with reads := n }

/-- The request that a packet handler serves. -/
def PacketHandler.activity (data : Bytes) (now : ℕ) : PacketHandler → Activity
  | .login => .login data now
  | .creationAccount => .register data
  | .playerData => .playerData data
  | .logout => .logout data

/-- What a packet of client `t` does to the world. -/
def packetOutcome (gen : Generated) (w : World) (t : Token) (type : Int32) (data : Bytes)
    (now : ℕ) : Option World :=
  match (w.sockets t).packetHandler type with
  | none => some w
  | some h =>
    if type = gen.emDisconnected then some w
    else w.handle gen t (PacketHandler.activity data now h)

section Spec

variable {gen : Generated} {wild : PacketCall → Bytes} {t : Token} {w w' : World}

@[simp] theorem reading_idem (m n : ℕ) : reading (reading w t m) t n = reading w t n := by
  simp [reading, World.setSocket]

theorem reading_self : reading w t (w.sockets t).reads = w := by
  simp [reading, World.setSocket]

theorem unlocked_reading (h : Unlocked w) (n : ℕ) : Unlocked (reading w t n) := h

theorem leave_reading (n : ℕ) : (reading w t n).leave t = reading (w.leave t) t n := by
  unfold World.leave
  simp only [reading, World.setSocket_redis]
  cases w.redis.hashGet (clientKey t) (str "loginId") <;> simp [World.setSocket]

/-- The handlers of the packets do not look at the outstanding reads. -/
theorem handle_reading (n : ℕ) (data : Bytes) (now : ℕ) (h : PacketHandler) :
    (reading w t n).handle gen t (PacketHandler.activity data now h) =
      (w.handle gen t (PacketHandler.activity data now h)).map fun w' => reading w' t n := by
  cases h with
  | login =>
    simp only [PacketHandler.activity, World.handle]
    have hv : loginVerdict gen (reading w t n).redis data = loginVerdict gen w.redis data := rfl
    rw [hv]
    cases loginVerdict gen w.redis data <;>
      simp [Verdict.elim, World.post, World.enter, reading, World.setSocket]
  | creationAccount =>
    simp only [PacketHandler.activity, World.handle]
    have hv : registerVerdict gen (reading w t n).redis data =
      registerVerdict gen w.redis data := rfl
    rw [hv]
    cases registerVerdict gen w.redis data <;>
      simp [Verdict.elim, World.post, World.createAccount, reading, World.setSocket]
  | playerData =>
    simp only [PacketHandler.activity, World.handle]
    have hv : playerDataVerdict gen (reading w t n).redis t data =
      playerDataVerdict gen w.redis t data := rfl
    rw [hv]
    cases playerDataVerdict gen w.redis t data <;>
      simp [Verdict.elim, World.post, reading, World.setSocket]
  | logout =>
    simp only [PacketHandler.activity, World.handle, leave_reading]
    split_ifs <;> rfl

theorem runHandler_eq (data : Bytes) (now : ℕ) (h : PacketHandler) :
    runHandler gen t data now h = (PacketHandler.activity data now h).body gen t := by
  cases h <;> rfl

/-- `HandlePacket` calls the handler of the type, if there is one. -/
theorem run_handlePacket (hw : Unlocked w) (type : Int32) (data : Bytes) (now : ℕ) :
    Program.run exec (handlePacket gen t type data now) w =
      (packetOutcome gen w t type data now).map (Prod.mk ()) := by
  have hheld : w.held (.packetHandler t) = false := congrFun hw _
  rw [handlePacket, Program.run_bind, run_scopedLock _ hheld, packetOutcome]
  simp -implicitDefEqProofs only [call, Program.call, Program.run_issue, exec, Option.bind_some,
    Program.run_done, Option.map_some, held_scoped hheld]
  cases (w.sockets t).packetHandler type with
  | none => rfl
  | some h =>
    dsimp only
    split_ifs
    · rfl
    · rw [runHandler_eq, run_body gen t w _ hw]

theorem leave_withHeld (held : Mutex → Bool) :
    World.leave { w with held := held } t = { w.leave t with held := held } := by
  unfold World.leave
  dsimp only
  cases w.redis.hashGet (clientKey t) (str "loginId") <;> rfl

/-- `HandleError` with the disconnect handler that `AddClient` installs. -/
theorem run_handleError (hw : Unlocked w) {type : Int32}
    (hinst : (w.sockets t).disconnectHandler = [type]) :
    Program.run exec (handleError t) w = some ((), (w.leave t).disconnect t) := by
  have hheld : w.held (.disconnectHandler t) = false := congrFun hw _
  let locked : World := { w with held := Function.update w.held (.disconnectHandler t) true }
  have hconn : locked.held .conn = false := by
    show Function.update w.held (.disconnectHandler t) true .conn = false
    rw [Function.update_of_ne (by simp)]
    exact congrFun hw _
  have hforM : ([type].forM fun _ => handleDisconnect t) =
    handleDisconnect t >>= fun _ => .done () := rfl
  rw [handleError, run_scopedLock _ hheld, Program.call_bind, Program.run_issue]
  simp -implicitDefEqProofs only [exec, Option.bind_some, hinst, hforM]
  rw [Program.run_bind, run_disconnect t (w := locked) hconn, leave_withHeld]
  simp -implicitDefEqProofs [World.disconnect, held_scoped hheld]

/-- Everything an event of client `t` can do to a world in which the read loop of
`t` is as it should be. -/
inductive Change (gen : Generated) (w : World) (t : Token) : World → Prop where
  | connect (now : ℕ) : t ∉ w.connectedClients → Change gen w t (w.connect gen t now)
  | same : Change gen w t w
  | handled (data : Bytes) (now : ℕ) (h : PacketHandler) (w' : World) : t ∈ w.connectedClients →
      Effect gen w t (PacketHandler.activity data now h) w' → Change gen w t w'
  | closed : t ∈ w.connectedClients → Change gen w t (((reading w t 0).leave t).disconnect t)

/-- Connected clients, and only these, have a read outstanding and the disconnect
handler installed. -/
structure Attached (gen : Generated) (w : World) : Prop where
  unlocked : Unlocked w
  reads : ∀ t, (w.sockets t).reads = if t ∈ w.connectedClients then 1 else 0
  handler : ∀ t ∈ w.connectedClients, (w.sockets t).disconnectHandler = [gen.emDisconnected]

theorem attached_initial (redis : Redis) : Attached gen (World.initial redis) where
  unlocked := rfl
  reads t := rfl
  handler t ht := by simp [World.initial] at ht

/-- The handlers leave the read loop alone. -/
theorem loop_of_effect {a : Activity} (h : Effect gen w t a w') (ha : ∀ now, a ≠ .accept now)
    (u : Token) : (w'.sockets u).reads = (w.sockets u).reads ∧
      (w'.sockets u).disconnectHandler = (w.sockets u).disconnectHandler := by
  have hleave : ((w.leave t).sockets u).reads = (w.sockets u).reads ∧
      ((w.leave t).sockets u).disconnectHandler = (w.sockets u).disconnectHandler := by
    unfold World.leave
    cases w.redis.hashGet (clientKey t) (str "loginId") with
    | none => exact ⟨rfl, rfl⟩
    | some id => by_cases hu : u = t <;> simp [hu]
  cases h with
  | connect now => exact absurd rfl (ha now)
  | create | answer | refuse | ignore => exact ⟨rfl, rfl⟩
  | enter data now m hv => by_cases hu : u = t <;> simp [World.post, World.enter, hu]
  | leave => exact hleave
  | disconnect => by_cases hu : u = t <;> simpa [World.disconnect, hu] using hleave

theorem clients_of_effect {data : Bytes} {now : ℕ} {h : PacketHandler}
    (heff : Effect gen w t (PacketHandler.activity data now h) w') :
    w'.connectedClients = w.connectedClients := by
  cases h <;> cases heff <;> first | rfl | exact leave_connectedClients w t

theorem accept_ne_activity (data : Bytes) (now n : ℕ) (h : PacketHandler) :
    PacketHandler.activity data now h ≠ .accept n := by
  cases h <;> simp [PacketHandler.activity]

/-- No read completes where none is outstanding. -/
theorem run_readHandler_none (buffer : RecvBuffer) (r : ReadResult) (now : ℕ)
    (h : (w.sockets t).reads = 0) :
    Program.run exec (readHandler gen wild t buffer r now) w = none := by
  simp -implicitDefEqProofs only [readHandler, Program.call_bind, Program.run_issue, exec]
  rw [if_neg (by omega)]
  rfl

theorem run_readAsync (h : (w.sockets t).reads = 0) :
    Program.run exec (call (.readAsync t)) w = some ((), reading w t 1) := by
  simp [call, Program.call, exec, reading, h]

/-- The next read is started as the last one was. -/
theorem run_readAgain (h : (w.sockets t).reads = 1) :
    Program.run exec (call (.readAsync t)) (reading w t 0) = some ((), w) := by
  have hzero : ((reading w t 0).sockets t).reads = 0 := by simp [reading, World.setSocket]
  rw [run_readAsync hzero, reading_idem, ← h, reading_self]

/-- The handlers of the packets leave the read loop as it is. -/
theorem reads_of_packetOutcome {type : Int32} {data : Bytes} {now : ℕ}
    (h : packetOutcome gen w t type data now = some w') :
    (w'.sockets t).reads = (w.sockets t).reads := by
  unfold packetOutcome at h
  split at h
  · obtain rfl := Option.some.inj h
    rfl
  · split at h
    · obtain rfl := Option.some.inj h
      rfl
    · exact (loop_of_effect (handle_effect h) (fun n => accept_ne_activity _ _ n _) t).1

theorem packetOutcome_reading (n : ℕ) (type : Int32) (data : Bytes) (now : ℕ) :
    packetOutcome gen (reading w t n) t type data now =
      (packetOutcome gen w t type data now).map fun w' => reading w' t n := by
  have htable : ((reading w t n).sockets t).packetHandler = (w.sockets t).packetHandler := by
    simp [reading, World.setSocket]
  rw [packetOutcome, packetOutcome, htable]
  cases (w.sockets t).packetHandler type with
  | none => rfl
  | some h =>
    dsimp only
    split_ifs
    · rfl
    · exact handle_reading n data now h

/-- A packet is handled, and the next read is started. -/
theorem run_packet (hw : Unlocked w) (hreads : (w.sockets t).reads = 1) (type : Int32)
    (data : Bytes) (now : ℕ) :
    Program.run exec (handlePacket gen t type data now >>= fun _ => call (.readAsync t))
      (reading w t 0) = (packetOutcome gen w t type data now).map (Prod.mk ()) := by
  rw [Program.run_bind, run_handlePacket (unlocked_reading hw 0), packetOutcome_reading]
  cases hv : packetOutcome gen w t type data now with
  | none => rfl
  | some v =>
    have hvreads : (v.sockets t).reads = 1 := (reads_of_packetOutcome hv).trans hreads
    rw [Option.map_some, Option.map_some, Option.bind_some, run_readAgain hvreads, Option.map_some]

/-- A read of a connected client ends in an error, without a packet, or with one. -/
theorem run_read (hw : Attached gen w) (ht : t ∈ w.connectedClients) (buffer : RecvBuffer)
    (r : ReadResult) (now : ℕ) :
    Program.run exec (readHandler gen wild t buffer r now) w =
      match readCompleted buffer r with
      | .handleError => some ((), ((reading w t 0).leave t).disconnect t)
      | .readAgain none => some ((), w)
      | .readAgain (some c) =>
        (packetOutcome gen w t c.type (PacketCall.seen wild c) now).map (Prod.mk ()) := by
  have hreads := hw.reads t
  rw [if_pos ht] at hreads
  simp -implicitDefEqProofs only [readHandler, Program.call_bind, Program.run_issue, exec]
  rw [if_pos (by omega), Option.bind_some, hreads]
  change Program.run exec _ (reading w t 0) = _
  cases readCompleted buffer r with
  | handleError =>
    have hinst : ((reading w t 0).sockets t).disconnectHandler = [gen.emDisconnected] := by
      simpa [reading, World.setSocket] using hw.handler t ht
    exact run_handleError (unlocked_reading hw.unlocked 0) hinst
  | readAgain c =>
    cases c with
    | none => exact run_readAgain hreads
    | some c => exact run_packet hw.unlocked hreads _ _ now

theorem change_of_packetOutcome (ht : t ∈ w.connectedClients) {type : Int32} {data : Bytes}
    {now : ℕ} (h : packetOutcome gen w t type data now = some w') : Change gen w t w' := by
  unfold packetOutcome at h
  split at h
  · obtain rfl := Option.some.inj h
    exact .same
  · split at h
    · obtain rfl := Option.some.inj h
      exact .same
    · exact .handled _ now _ _ ht (handle_effect h)

theorem change_of_read (hw : Attached gen w) (buffer : RecvBuffer) (r : ReadResult) (now : ℕ)
    (hr : Program.run exec (readHandler gen wild t buffer r now) w = some ((), w')) :
    Change gen w t w' := by
  by_cases ht : t ∈ w.connectedClients
  · rw [run_read hw ht] at hr
    split at hr
    · obtain rfl := (Prod.mk.inj (Option.some.inj hr)).2
      exact .closed ht
    · obtain rfl := (Prod.mk.inj (Option.some.inj hr)).2
      exact .same
    · obtain ⟨v, hv, hp⟩ := Option.map_eq_some_iff.mp hr
      obtain rfl := (Prod.mk.inj hp).2
      exact change_of_packetOutcome ht hv
  · have hreads := hw.reads t
    rw [if_neg ht] at hreads
    rw [run_readHandler_none buffer r now hreads] at hr
    cases hr

theorem change_of_step {n n' : Node} {e : Event} (hw : Attached gen n.world)
    (hs : step gen wild n e = some n') : Change gen n.world e.client n'.world := by
  cases e with
  | accept t now recvBuffer =>
    simp only [step] at hs
    split at hs
    · cases hs
    · rename_i ht
      rw [run_acceptClient gen t n.world now hw.unlocked] at hs
      obtain rfl := Option.some.inj hs
      exact .connect now ht
  | read t r now =>
    obtain ⟨⟨⟨⟩, w'⟩, hrun, hpost⟩ := Option.bind_eq_some_iff.mp hs
    obtain ⟨writers, -, rfl⟩ := Option.map_eq_some_iff.mp hpost
    exact change_of_read hw _ r now hrun
  | written t buffer failed =>
    simp only [step] at hs
    split at hs
    · obtain ⟨q, -, rfl⟩ := Option.map_eq_some_iff.mp hs
      exact .same
    · obtain ⟨writer, -, rfl⟩ := Option.map_eq_some_iff.mp hs
      exact .same

/-- Every event leaves each connected client with one outstanding read. -/
theorem Attached.change (hw : Attached gen w) (h : Change gen w t w') : Attached gen w' := by
  cases h with
  | connect now ht =>
    refine ⟨hw.unlocked, fun u => ?_, fun u hu => ?_⟩
    · by_cases hut : u = t
      · subst hut
        simp [World.connect, readySocket]
      · simpa [World.connect, hut] using hw.reads u
    · by_cases hut : u = t
      · subst hut
        simp [World.connect, readySocket]
      · have hu' : u ∈ w.connectedClients := by simpa [World.connect, hut] using hu
        simpa [World.connect, hut] using hw.handler u hu'
  | same => exact hw
  | handled data now h _ ht heff =>
    have hloop := loop_of_effect heff fun n => accept_ne_activity _ _ n h
    have hclients := clients_of_effect heff
    refine ⟨heff.unlocked hw.unlocked, fun u => ?_, fun u hu => ?_⟩
    · rw [(hloop u).1, hclients]
      exact hw.reads u
    · rw [(hloop u).2]
      exact hw.handler u (hclients ▸ hu)
  | closed ht =>
    have hclosed : Effect gen (reading w t 0) t .disconnect
        (((reading w t 0).leave t).disconnect t) := .disconnect
    have hloop := loop_of_effect hclosed (by simp)
    have hclients : (((reading w t 0).leave t).disconnect t).connectedClients =
        w.connectedClients.erase t := by
      simp [World.disconnect, reading]
    refine ⟨hclosed.unlocked hw.unlocked, fun u => ?_, fun u hu => ?_⟩
    · rw [(hloop u).1, hclients]
      by_cases hut : u = t
      · subst hut
        simp [reading, World.setSocket]
      · simpa [reading, World.setSocket, hut] using hw.reads u
    · rw [hclients] at hu
      obtain ⟨hut, hu⟩ := Finset.mem_erase.mp hu
      rw [(hloop u).2]
      simpa [reading, World.setSocket, hut] using hw.handler u hu

theorem attached_run {redis : Redis} {buffers : Token → RecvBuffer} {events : List Event} {n : Node}
    (hr : runs (step gen wild) (Node.initial redis buffers) events = some n) :
    Attached gen n.world :=
  invariant (I := fun n : Node => Attached gen n.world)
    (fun _ _ _ h hs => h.change (change_of_step h hs)) (attached_initial redis) hr

end Spec

end IsolationServer.EventLoop
